import AdjointTape.Stack.Level

/-!
# Calls on a byte stack as data

A session is a stack together with the levels that were begun on it and are still pending.  They are
numbered in the order in which they were begun and may be resolved in any order.
-/

namespace AdjointTape

/-- A call on a byte stack. -/
inductive StackCall where
  | pushBytes (data : List UInt8) (isProtected : Bool)
  | popBytes (count : Nat) (isProtected : Bool)
  | setLocation (l : Location)
  | beginRepeat
  | commitRepeat (number : Nat)
  | abandonRepeat (number : Nat)
  | beginReset
  | finishReset
  | endRepeat

/-- What a call on a byte stack answers. -/
inductive StackAnswer where
  | unit
  | bytes (data : List UInt8)
  | resume (l : Location)
  | level (level : RepeatLevel)
  deriving DecidableEq

/-- A byte stack and its pending levels; a level that was resolved leaves its number unused. -/
structure StackSession where
  stack : ByteStack
  pending : List (Option PendingLevel)

namespace StackSession

/-- A session on an empty stack. -/
def create (blockSize : Nat) (limit : Option Nat) : Except Failure StackSession :=
  (ByteStack.create blockSize limit).map fun stack => { stack, pending := [] }

/-- Performs a call on the stack. -/
@[inline] def onStack {α : Type} (call : Action ByteStack α) : Action StackSession α :=
  fun ⟨stack, pending⟩ =>
    match call stack with
    | .ok a stack => .ok a ⟨stack, pending⟩
    | .error e stack => .error e ⟨stack, pending⟩

/-- Adds a pending level. -/
def add (level : PendingLevel) (s : StackSession) : StackSession :=
  { s with pending := s.pending ++ [some level] }

/-- The pending level of a number, which is resolved by that. -/
def take (number : Nat) : Action StackSession (Option PendingLevel) := fun s =>
  .ok (s.pending.getD number none) { s with pending := s.pending.set number none }

/-- Resolves a pending level; a number that is not in use does nothing. -/
def resolve (number : Nat) (call : PendingLevel → Action ByteStack Unit) :
    Action StackSession Unit := do
  match ← take number with
  | none => pure ()
  | some level => onStack (call level)

end StackSession

open StackSession in
/-- Performs a call. -/
def StackCall.perform : StackCall → Action StackSession StackAnswer
  | .pushBytes data isProtected => do
    onStack (ByteStack.pushBytes data isProtected)
    return .unit
  | .popBytes count isProtected => return .bytes (← onStack (ByteStack.popBytes count isProtected))
  | .setLocation l => do
    onStack (ByteStack.setLocation l)
    return .unit
  | .beginRepeat => do
    let level ← onStack ByteStack.beginRepeat
    Action.update (add level)
    return .resume level.resume
  | .commitRepeat number => do
    resolve number ByteStack.commitRepeat
    return .unit
  | .abandonRepeat number => do
    resolve number ByteStack.abandonRepeat
    return .unit
  | .beginReset => do
    onStack ByteStack.beginReset
    return .unit
  | .finishReset => do
    onStack ByteStack.finishReset
    return .unit
  | .endRepeat => return .level (← onStack ByteStack.endRepeat)

/-- The byte strings that a call takes over from its caller, by length. -/
def StackCall.takesOver : StackCall → List Nat
  | .pushBytes data _ => [data.length]
  | _ => []

/-- Performs a call and gives the byte strings that it took over back to memory, whether or not it
failed. -/
def StackCall.performOwning (call : StackCall) : Action StackSession StackAnswer := fun s =>
  let release (s : StackSession) : StackSession :=
    { s with stack := call.takesOver.foldr ByteStack.release s.stack }
  match call.perform s with
  | .ok a s => .ok a (release s)
  | .error e s => .error e (release s)

end AdjointTape

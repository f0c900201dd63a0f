import AdjointTape.Tape.Basic

/-!
# Calls as data

The calls of a tape and their answers as plain values, so that a program on the tape is a list.
-/

namespace AdjointTape

/-- A call on a tape. -/
inductive Call where
  | push (k : ScalarKind) (value : k.Carrier)
  | pop (k : ScalarKind)
  | pushBit (bit : Bool)
  | popBit
  | pushControl (value width : Nat)
  | popControl (width : Nat)
  | pushArray (k : ScalarKind) (values : List k.Carrier)
  | popArray (k : ScalarKind) (count : Nat)
  | pushBytes (data : List UInt8) (isProtected : Bool)
  | popBytes (count : Nat) (isProtected : Bool)
  | startRepeat
  | resetRepeat
  | endRepeat
  | setLocation (l : Location)

/-- What a call answers. -/
inductive Answer where
  | unit
  | scalar (k : ScalarKind) (value : k.Carrier)
  | bit (bit : Bool)
  | control (value : Nat)
  | array (k : ScalarKind) (values : List k.Carrier)
  | bytes (data : List UInt8)

/-- Performs a call. -/
def Call.perform : Call → Action Tape Answer
  | .push k value => do
    Tape.push k value
    return .unit
  | .pop k => return .scalar k (← Tape.pop k)
  | .pushBit bit => do
    Tape.pushBit bit
    return .unit
  | .popBit => return .bit (← Tape.popBit)
  | .pushControl value width => do
    Tape.pushControl value width
    return .unit
  | .popControl width => return .control (← Tape.popControl width)
  | .pushArray k values => do
    Tape.pushArray k values
    return .unit
  | .popArray k count => return .array k (← Tape.popArray k count)
  | .pushBytes data isProtected => do
    Tape.pushBytes data isProtected
    return .unit
  | .popBytes count isProtected => return .bytes (← Tape.popBytes count isProtected)
  | .startRepeat => do
    Tape.startRepeat
    return .unit
  | .resetRepeat => do
    Tape.resetRepeat
    return .unit
  | .endRepeat => do
    Tape.endRepeat
    return .unit
  | .setLocation l => do
    Tape.setLocation l
    return .unit

/-- What stops the program in a call that leads from one tape to another: a counter that leaves its
range.  The balance of the buffers is raised by a scalar before it is lowered by a spill. -/
def Call.stop? (call : Call) (t t' : Tape) : Option Stop :=
  if t'.stack.traffic < t.stack.traffic then some .sum
  else
    match call with
    | .push k _ =>
      let raised := t.buffered + Int64.ofNat k.width
      if raised < t.buffered then some .sum
      else if raised < t'.buffered then some .difference
      else none
    | _ => none

/-- Performs a call in a program that goes on or stops where a counter leaves its range. -/
def Call.performIn (o : Overflow) (call : Call) : Action Tape Answer := fun t =>
  match call.perform t with
  | .error e t' => .error e t'
  | .ok a t' =>
    match o, call.stop? t t' with
    | .stops, some cause => .error (.stopped cause) t'
    | _, _ => .ok a t'

/-- Performs a call for what it does to the tape. -/
def Call.carryOut (o : Overflow) (call : Call) : Action Tape Unit := do
  let _ ← call.performIn o
  return ()

/-- The byte strings that a call takes over from its caller, by length. -/
def Call.takesOver : Call → List Nat
  | .pushBytes data _ => [data.length]
  | .pushArray .character values => [values.length]
  | _ => []

/-- Performs a call and gives the byte strings that it took over back to memory, whether or not it
failed. -/
def Call.performOwning (o : Overflow) (call : Call) : Action Tape Answer := fun t =>
  let release (t : Tape) : Tape :=
    { t with stack := call.takesOver.foldr ByteStack.release t.stack }
  match call.performIn o t with
  | .ok a t => .ok a (release t)
  | .error e t => .error e (release t)

/-- Performs calls one after the other, failing ones included, and lists what they answer. -/
def Call.performAll : List Call → Tape → List (Except Failure Answer) × Tape
  | [], t => ([], t)
  | call :: rest, t =>
    match call.perform t with
    | .ok a t =>
      let (answers, t) := performAll rest t
      (.ok a :: answers, t)
    | .error e t =>
      let (answers, t) := performAll rest t
      (.error e :: answers, t)

end AdjointTape

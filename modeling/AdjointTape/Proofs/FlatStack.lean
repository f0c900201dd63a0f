import AdjointTape.Proofs.Action
import AdjointTape.Proofs.ByteMap
import AdjointTape.Stack.Call

/-!
# A byte stack on flat memory

The machine a byte stack is meant to be: one array of zeros, a cursor that is a number, the repeat
levels and the traffic.  A push writes where the cursor is, a pop reads what lies below it, and a
seek assigns the number.  The number of blocks and their memory are kept as numbers too; they decide
how far the cursor may be set and when a push finds no room, and nothing else.
-/

namespace AdjointTape

/-- A byte stack without blocks. -/
structure FlatStack where
  bytes : ByteMap
  cursor : Location
  /-- The open repeat levels, the active one first. -/
  levels : List RepeatLevel
  /-- Bytes moved by protected pushes. -/
  traffic : UInt64
  blockSize : Nat
  /-- The number of blocks the bytes would take. -/
  blocks : Nat
  memory : Memory

namespace FlatStack

/-- A new stack, with a single block out of fresh memory. -/
def empty (blockSize : Nat) (limit : Option Nat) : FlatStack where
  bytes := .zeros
  cursor := 0
  levels := []
  traffic := 0
  blockSize
  blocks := 1
  memory := (Memory.fresh limit).take 1

/-- The stack with its cursor at a location. -/
def seek (l : Location) (s : FlatStack) : FlatStack := { s with cursor := l }

/-- The `freePush` of the active level, zero when no level is open: protected pushes write nothing
below it. -/
def floor (levels : List RepeatLevel) : Location :=
  match levels with
  | [] => 0
  | level :: _ => level.freePush

/-- A cursor below the active level's `freePush` jumps there and leaves its place in `backPop`. -/
def redirected (s : FlatStack) : FlatStack :=
  match s.levels with
  | [] => s
  | level :: outer =>
    if s.cursor < level.freePush then
      { s with
        cursor := level.freePush
        levels := { level with backPop := some s.cursor } :: outer }
    else s

/-- A cursor on the active level's `freePush` jumps to its `backPop`, which is cleared, if there is
one. -/
def rejoined (s : FlatStack) : FlatStack :=
  match s.levels with
  | [] => s
  | level :: outer =>
    match level.backPop with
    | none => s
    | some backPop =>
      if s.cursor = level.freePush then
        { s with
          cursor := backPop
          levels := { level with backPop := none } :: outer }
      else s

/-- Whether the bytes below a location have their blocks or could be given them. -/
def hasRoom (l : Location) (s : FlatStack) : Bool :=
  let needed := ByteStack.blocksBelow s.blockSize l
  needed ≤ s.blocks ∨
    (needed < addressSpace ∧ needed * s.blockSize < addressSpace ∧
      s.memory.hasRoom (needed - s.blocks))

/-- The stack with blocks for the bytes below a location. -/
def grown (l : Location) (s : FlatStack) : FlatStack :=
  let needed := ByteStack.blocksBelow s.blockSize l
  { s with
    blocks := max s.blocks needed
    memory := s.memory.take (needed - s.blocks) }

/-- The stack with bytes written at the cursor, which moves behind them. -/
def put (data : List UInt8) (s : FlatStack) : FlatStack :=
  { s with bytes := s.bytes.write s.cursor data, cursor := s.cursor + data.length }

/-- Where a push starts: the cursor, or where it jumps to when it is protected. -/
def start (isProtected : Bool) (s : FlatStack) : FlatStack :=
  if isProtected then s.redirected else s

/-- The stack after a push that finds room. -/
def pushed (data : List UInt8) (isProtected : Bool) (s : FlatStack) : FlatStack :=
  let s := s.start isProtected
  let s := (s.grown (s.cursor + data.length)).put data
  if isProtected then { s with traffic := s.traffic + UInt64.ofNat data.length } else s

/-- Pushes a byte string, or fails where there is no room for it. -/
def push (data : List UInt8) (isProtected : Bool) : Action FlatStack Unit := fun s =>
  if s.hasRoom ((s.start isProtected).cursor + data.length) then .ok () (s.pushed data isProtected)
  else .error (.outOfMemory s.blocks s.blockSize) s

/-- The topmost `count` bytes. -/
def top (count : Nat) (s : FlatStack) : List UInt8 := s.bytes.read (s.cursor - count) count

/-- The stack without its topmost `count` bytes. -/
def popped (count : Nat) (isProtected : Bool) (s : FlatStack) : FlatStack :=
  let s := s.seek (s.cursor - count)
  if isProtected then s.rejoined else s

/-- Pops a byte string, or fails where there are too few bytes. -/
def pop (count : Nat) (isProtected : Bool) : Action FlatStack (List UInt8) := fun s =>
  if s.cursor < count then .error (.popUnderflow count s.cursor) s
  else .ok (s.top count) (s.popped count isProtected)

/-- Moves the cursor to a location within the blocks. -/
def setLocation (l : Location) : Action FlatStack Unit := fun s =>
  if s.blocks * s.blockSize < l then .error (.locationOutOfRange l (s.blocks * s.blockSize)) s
  else .ok () (s.seek l)

/-- The stack with a level begun: a cursor below the active `freePush` jumps there. -/
def begun (s : FlatStack) : FlatStack := s.seek (max s.cursor (floor s.levels))

/-- The stack with a level opened that resumes at a location. -/
def committed (resume : Location) (s : FlatStack) : FlatStack :=
  { s with
    cursor := resume
    levels := { resume, freePush := s.cursor, backPop := none } :: s.levels }

/-- The stack with the active level about to be restarted. -/
def rewound (level : RepeatLevel) (outer : List RepeatLevel) (s : FlatStack) : FlatStack :=
  { s with cursor := level.freePush, levels := { level with backPop := none } :: outer }

/-- The stack with the active level closed. -/
def ended (level : RepeatLevel) (outer : List RepeatLevel) (s : FlatStack) : FlatStack :=
  { s with cursor := level.backPop.getD s.cursor, levels := outer }.rejoined

/-- Bytes that are put one behind the other are put at once. -/
lemma put_put (s : FlatStack) (xs ys : List UInt8) : (s.put xs).put ys = s.put (xs ++ ys) := by
  simp only [put, ByteMap.write_append, List.length_append, Nat.add_assoc]

/-- A jump does not depend on the blocks. -/
lemma redirected_grown (l : Location) (s : FlatStack) :
    (s.grown l).redirected = s.redirected.grown l := by
  obtain ⟨bytes, cursor, levels, traffic, blockSize, blocks, memory⟩ := s
  cases levels with
  | nil => rfl
  | cons level outer =>
    by_cases h : cursor < level.freePush
    · simp only [redirected, grown, h, if_true]
    · simp only [redirected, grown, h, if_false]

/-- A jump out of the protected bytes moves the cursor and marks a level, and nothing else. -/
lemma redirected_eq (s : FlatStack) :
    s.redirected = { s with cursor := s.redirected.cursor, levels := s.redirected.levels } := by
  simp only [redirected]
  split
  case h_1 => rfl
  case h_2 => split <;> rfl

/-- A jump back moves the cursor and clears a mark, and nothing else. -/
lemma rejoined_eq (s : FlatStack) :
    s.rejoined = { s with cursor := s.rejoined.cursor, levels := s.rejoined.levels } := by
  simp only [rejoined]
  split
  case h_1 => rfl
  case h_2 =>
    split
    case h_1 => rfl
    case h_2 => split <;> rfl

/-- A cursor below the active `freePush` jumps there. -/
lemma redirected_of_lt {s : FlatStack} {level : RepeatLevel} {outer : List RepeatLevel}
    (levels : s.levels = level :: outer) (below : s.cursor < level.freePush) :
    s.redirected =
      { s with
        cursor := level.freePush
        levels := { level with backPop := some s.cursor } :: outer } := by
  simp only [redirected, levels, if_pos below]

/-- A cursor above what is protected stays where it is. -/
lemma redirected_of_le {s : FlatStack} (above : floor s.levels ≤ s.cursor) : s.redirected = s := by
  obtain ⟨bytes, cursor, levels, traffic, blockSize, blocks, memory⟩ := s
  cases levels with
  | nil => rfl
  | cons level outer => exact if_neg (Nat.not_lt.2 above)

/-- A cursor that stands on `freePush` jumps back where a redirect is open. -/
lemma rejoined_of_eq {s : FlatStack} {level : RepeatLevel} {outer : List RepeatLevel} {l : Location}
    (levels : s.levels = level :: outer) (backPop : level.backPop = some l)
    (on : s.cursor = level.freePush) :
    s.rejoined = { s with cursor := l, levels := { level with backPop := none } :: outer } := by
  simp only [rejoined, levels, backPop, if_pos on]

/-- A cursor that does not stand on `freePush` stays where it is. -/
lemma rejoined_of_ne {s : FlatStack}
    (off : ∀ level ∈ s.levels.head?, level.backPop ≠ none → s.cursor ≠ level.freePush) :
    s.rejoined = s := by
  obtain ⟨bytes, cursor, levels, traffic, blockSize, blocks, memory⟩ := s
  cases levels with
  | nil => rfl
  | cons level outer =>
    cases e : level.backPop with
    | none => simp only [rejoined, e]
    | some l =>
      have ne := off level rfl (by simp [e])
      simp only [rejoined, e, if_neg ne]

/-- Where no redirect is open a cursor stays where it is. -/
lemma rejoined_of_straight {s : FlatStack}
    (straight : ∀ level ∈ s.levels.head?, level.backPop = none) : s.rejoined = s :=
  rejoined_of_ne fun level mem bent => absurd (straight level mem) bent

/-- No jump back is made, or one from the `freePush` of the active level. -/
lemma rejoined_cases (s : FlatStack) :
    s.rejoined = s ∨ ∃ level outer back, s.levels = level :: outer ∧ level.backPop = some back ∧
      s.cursor = level.freePush ∧
      s.rejoined =
        { s with cursor := back, levels := { level with backPop := none } :: outer } := by
  by_cases jumps : ∃ level outer back, s.levels = level :: outer ∧ level.backPop = some back ∧
    s.cursor = level.freePush
  case pos =>
    obtain ⟨level, outer, back, levels, backPop, on⟩ := jumps
    exact .inr ⟨level, outer, back, levels, backPop, on, rejoined_of_eq levels backPop on⟩
  case neg =>
    refine .inl (rejoined_of_ne fun level mem bent on => jumps ?_)
    obtain ⟨back, backPop⟩ := Option.ne_none_iff_exists'.1 bent
    obtain ⟨outer, levels⟩ := List.head?_eq_some_iff.1 mem
    exact ⟨level, outer, back, levels, backPop, on⟩

/-- Where a jump back leads depends on the cursor and the levels only. -/
lemma rejoined_congr {s t : FlatStack} (cursor : t.cursor = s.cursor)
    (levels : t.levels = s.levels) :
    t.rejoined.cursor = s.rejoined.cursor ∧ t.rejoined.levels = s.rejoined.levels := by
  simp only [rejoined, cursor, levels]
  split
  case h_1 => exact ⟨cursor, levels⟩
  case h_2 =>
    split
    case h_1 => exact ⟨cursor, levels⟩
    case h_2 =>
      split
      case isTrue => exact ⟨rfl, rfl⟩
      case isFalse => exact ⟨cursor, levels⟩

/-- Above what is protected a push starts at the cursor. -/
lemma start_of_le {s : FlatStack} (above : floor s.levels ≤ s.cursor) (isProtected : Bool) :
    s.start isProtected = s := by
  cases isProtected with
  | false => rfl
  | true => exact redirected_of_le above

/-- Where no level is open nothing jumps back. -/
lemma popped_ground {s : FlatStack} (ground : s.levels = []) (count : Nat) (isProtected : Bool) :
    s.popped count isProtected = s.seek (s.cursor - count) := by
  cases isProtected with
  | false => rfl
  | true =>
    refine rejoined_of_straight fun level mem => ?_
    rw [show (s.seek (s.cursor - count)).levels = [] from ground] at mem
    cases mem

/-- Where no level is open nothing is redirected. -/
lemma start_ground {s : FlatStack} (ground : s.levels = []) (isProtected : Bool) :
    s.start isProtected = s := by
  refine start_of_le ?_ isProtected
  rw [ground]
  exact Nat.zero_le _

/-- A push fails only where memory runs out. -/
lemma push_cases (data : List UInt8) (isProtected : Bool) (s : FlatStack) :
    push data isProtected s = .ok () (s.pushed data isProtected) ∨
      ∃ blocks blockSize, push data isProtected s = .error (.outOfMemory blocks blockSize) s := by
  rw [push]
  split
  case isTrue => exact .inl rfl
  case isFalse => exact .inr ⟨_, _, rfl⟩

/-- A push moves the cursor behind the bytes. -/
lemma cursor_pushed (data : List UInt8) (isProtected : Bool) (s : FlatStack) :
    (s.pushed data isProtected).cursor = (s.start isProtected).cursor + data.length := by
  cases isProtected <;> rfl

/-- A push changes the levels only by its jump. -/
lemma levels_pushed (data : List UInt8) (isProtected : Bool) (s : FlatStack) :
    (s.pushed data isProtected).levels = (s.start isProtected).levels := by
  cases isProtected <;> rfl

/-- A push writes its bytes where it starts. -/
lemma bytes_pushed (data : List UInt8) (isProtected : Bool) (s : FlatStack) :
    (s.pushed data isProtected).bytes = s.bytes.write (s.start isProtected).cursor data := by
  have same : (s.start isProtected).bytes = s.bytes := by
    cases isProtected with
    | false => rfl
    | true => rw [start, if_pos rfl, redirected_eq]
  rw [← same]
  cases isProtected <;> rfl

/-- Begins a level that resumes at the cursor. -/
def beginRepeat : Action FlatStack PendingLevel := fun s => .ok { resume := s.cursor } s.begun

/-- Opens the level that was begun. -/
def commitRepeat (pending : PendingLevel) : Action FlatStack Unit := fun s =>
  .ok () (s.committed pending.resume)

/-- Drops the level that was begun; the cursor goes back to where it was. -/
def abandonRepeat (pending : PendingLevel) : Action FlatStack Unit := fun s =>
  .ok () (s.seek pending.resume)

/-- Takes the cursor to what the active level saved. -/
def beginReset : Action FlatStack Unit := fun s =>
  match s.levels with
  | [] => .error (.noActiveRepeat .resetRepeat) s
  | level :: outer => .ok () (s.rewound level outer)

/-- Takes the cursor to where the active level resumes. -/
def finishReset : Action FlatStack Unit := fun s =>
  match s.levels with
  | [] => .error (.noActiveRepeat .resetRepeat) s
  | level :: _ => .ok () (s.seek level.resume)

/-- Closes the active level. -/
def endRepeat : Action FlatStack RepeatLevel := fun s =>
  match s.levels with
  | [] => .error (.noActiveRepeat .endRepeat) s
  | level :: outer => .ok level (s.ended level outer)

/-- The bytes of all blocks. -/
def capacity (s : FlatStack) : Nat := s.blocks * s.blockSize

end FlatStack

/-- A flat stack and its pending levels. -/
structure FlatSession where
  stack : FlatStack
  pending : List (Option PendingLevel)

namespace FlatSession

/-- A new stack without a pending level. -/
def empty (blockSize : Nat) (limit : Option Nat) : FlatSession where
  stack := .empty blockSize limit
  pending := []

/-- Performs a call on the stack of a session. -/
def onStack {α : Type} (call : Action FlatStack α) : Action FlatSession α := fun s =>
  match call s.stack with
  | .ok a stack => .ok a { s with stack }
  | .error e stack => .error e { s with stack }

/-- Begins a level, which is pending from then on. -/
def begin : Action FlatSession StackAnswer := fun s =>
  .ok (.resume s.stack.cursor)
    { stack := s.stack.begun, pending := s.pending ++ [some { resume := s.stack.cursor }] }

/-- Resolves a pending level, whose number is not in use any more; a number that is not in use does
nothing. -/
def resolve (number : Nat) (call : PendingLevel → Action FlatStack Unit) :
    Action FlatSession StackAnswer := fun s =>
  match s.pending.getD number none with
  | none => .ok .unit { s with pending := s.pending.set number none }
  | some level =>
    match call level s.stack with
    | .ok _ stack => .ok .unit { stack, pending := s.pending.set number none }
    | .error e stack => .error e { stack, pending := s.pending.set number none }

end FlatSession

open FlatSession in
/-- Performs a call on flat memory. -/
def StackCall.performFlat : StackCall → Action FlatSession StackAnswer
  | .pushBytes data isProtected => do
    onStack (FlatStack.push data isProtected)
    return .unit
  | .popBytes count isProtected => return .bytes (← onStack (FlatStack.pop count isProtected))
  | .setLocation l => do
    onStack (FlatStack.setLocation l)
    return .unit
  | .beginRepeat => FlatSession.begin
  | .commitRepeat number => resolve number FlatStack.commitRepeat
  | .abandonRepeat number => resolve number FlatStack.abandonRepeat
  | .beginReset => do
    onStack FlatStack.beginReset
    return .unit
  | .finishReset => do
    onStack FlatStack.finishReset
    return .unit
  | .endRepeat => return .level (← onStack FlatStack.endRepeat)

end AdjointTape

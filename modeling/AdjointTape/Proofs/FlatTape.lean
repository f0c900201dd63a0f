import AdjointTape.Proofs.FlatStack
import AdjointTape.Tape.Call
import Mathlib.Logic.Function.Basic

/-!
# The tape on flat memory

The machine a tape is meant to be: a flat byte stack and, for every kind, the list of the values
that are buffered.  Neither blocks nor stale slots are left in it.  The buffers are saved and taken
back kind by kind, bits between the characters and the pointers.
-/

open AdjointTape.Action

namespace AdjointTape

/-- The kind of scalars a kind stands for; bits are no scalars. -/
def Kind.scalar? : Kind → Option ScalarKind
  | .integer4 => some .integer4
  | .integer8 => some .integer8
  | .real4 => some .real4
  | .real8 => some .real8
  | .complex8 => some .complex8
  | .complex16 => some .complex16
  | .character => some .character
  | .bit => none
  | .pointer => some .pointer

/-- A tape without blocks and stale slots. -/
structure FlatTape where
  stack : FlatStack
  /-- The buffered values of a kind, the last one first. -/
  valid : (k : ScalarKind) → List k.Carrier
  bits : BitBuffer
  /-- The fill indices each open repeat level saved, the active level first. -/
  marks : List Marks
  /-- The number of values at which a buffer spills. -/
  capacity : Nat
  /-- Bytes pushed into buffers minus bytes they spilled. -/
  buffered : Int64

namespace FlatTape

/-- A new tape. -/
def empty (geometry : Geometry) (limit : Option Nat) : FlatTape where
  stack := .empty geometry.blockSize limit
  valid := fun _ => []
  bits := .empty
  marks := []
  capacity := geometry.capacity
  buffered := 0

/-- Performs a call on the stack of a tape. -/
def onStack {α : Type} (call : Action FlatStack α) : Action FlatTape α := fun f =>
  match call f.stack with
  | .ok a stack => .ok a { f with stack }
  | .error e stack => .error e { f with stack }

/-- The tape with other values buffered for a kind. -/
def hold (k : ScalarKind) (values : List k.Carrier) (f : FlatTape) : FlatTape :=
  { f with valid := Function.update f.valid k values }

/-- The buffer that was set holds its values. -/
@[simp]
lemma valid_hold (k : ScalarKind) (values : List k.Carrier) (f : FlatTape) :
    (f.hold k values).valid k = values := Function.update_self _ _ _

/-- Setting a buffer leaves those of the other kinds alone. -/
lemma valid_hold_of_ne {j k : ScalarKind} (values : List k.Carrier) (f : FlatTape) (h : j ≠ k) :
    (f.hold k values).valid j = f.valid j := Function.update_of_ne h _ _

/-- Counts a scalar that went into its buffer, and the buffer if it spilled. -/
def countScalar (k : ScalarKind) (spilled : Bool) (f : FlatTape) : FlatTape :=
  let buffered := f.buffered + Int64.ofNat k.width
  { f with
    buffered := if spilled then buffered - Int64.ofNat (f.capacity * k.width) else buffered }

/-! ## Scalars and bits -/

/-- Pushes a scalar; a buffer that is full with it goes onto the stack. -/
def push (k : ScalarKind) (value : k.Carrier) : Action FlatTape Unit := fun f =>
  if (f.valid k).length + 1 < f.capacity then
    .ok () ((f.hold k (value :: f.valid k)).countScalar k false)
  else
    match FlatStack.push (k.encodeAll (value :: f.valid k).reverse) true f.stack with
    | .ok _ stack => .ok () (({ f with stack }.hold k []).countScalar k true)
    | .error e stack => .error e { f with stack }

/-- Pops a scalar; an empty buffer is taken back from the stack first. -/
def pop (k : ScalarKind) : Action FlatTape k.Carrier := fun f =>
  match f.valid k with
  | value :: rest => .ok value (f.hold k rest)
  | [] =>
    match FlatStack.pop (f.capacity * k.width) true f.stack with
    | .ok bytes stack =>
      let values := (k.decodeAll f.capacity bytes).toList.reverse
      .ok (values.headD k.zero) ({ f with stack }.hold k values.tail)
    | .error e stack => .error e { f with stack }

/-- Pushes a bit; a word that is full with it goes onto the stack. -/
def pushBit (bit : Bool) : Action FlatTape Unit := fun f =>
  let longer := BitBuffer.append f.bits.word bit
  if BitBuffer.wordBits ≤ f.bits.index + 1 then
    match FlatStack.push (BitBuffer.encode longer) true f.stack with
    | .ok _ stack => .ok () { f with stack, bits := .empty }
    | .error e stack => .error e { f with stack }
  else .ok () { f with bits := ⟨longer, f.bits.index + 1⟩ }

/-- Pops a bit; an empty buffer takes a word back from the stack first. -/
def popBit : Action FlatTape Bool := fun f =>
  match f.bits.index with
  | 0 =>
    match FlatStack.pop 4 true f.stack with
    | .ok bytes stack =>
      let (bit, bits) := BitBuffer.takeLast (BitBuffer.decode bytes) (BitBuffer.wordBits - 1)
      .ok bit { f with stack, bits }
    | .error e stack => .error e { f with stack }
  | index + 1 =>
    let (bit, bits) := BitBuffer.takeLast f.bits.word index
    .ok bit { f with bits }

/-- Pushes bits, one after the other. -/
def pushBits : List Bool → Action FlatTape Unit
  | [] => pure ()
  | bit :: rest => do
    pushBit bit
    pushBits rest

/-- Pops `count` bits onto the low end of `value`. -/
def popBits : (count value : Nat) → Action FlatTape Nat
  | 0, value => pure value
  | count + 1, value => do
    let bit ← popBit
    popBits count (2 * value + bit.toNat)

/-! ## Spills and refills -/

/-- The tape with a buffer empty that was spilled. -/
def emptied (k : ScalarKind) (f : FlatTape) : FlatTape := (f.hold k []).countScalar k true

/-- Buffers the values that bytes spell, less the last one, which it answers. -/
def refill (k : ScalarKind) (bytes : List UInt8) : Action FlatTape k.Carrier := fun f =>
  let values := (k.decodeAll f.capacity bytes).toList.reverse
  .ok (values.headD k.zero) (f.hold k values.tail)

/-- Buffers the bits that bytes spell, less the last one, which it answers. -/
def refillBits (bytes : List UInt8) : Action FlatTape Bool := fun f =>
  let (bit, bits) := BitBuffer.takeLast (BitBuffer.decode bytes) (BitBuffer.wordBits - 1)
  .ok bit { f with bits }

section Spills

variable {f : FlatTape} {k : ScalarKind} {value : k.Carrier} {bit : Bool}

/-- A call on the stack answers what it answers there. -/
lemma onStack_ok {α : Type} {call : Action FlatStack α} {a : α} {stack : FlatStack}
    (run : call f.stack = .ok a stack) : onStack call f = .ok a { f with stack } := by
  rw [onStack, run]

/-- A call on the stack fails as it fails there. -/
lemma onStack_error {α : Type} {call : Action FlatStack α} {e : Failure} {stack : FlatStack}
    (run : call f.stack = .error e stack) : onStack call f = .error e { f with stack } := by
  rw [onStack, run]

/-- A byte string is pushed, or there is no room for it. -/
lemma onStack_push_cases (data : List UInt8) (isProtected : Bool) (f : FlatTape) :
    onStack (FlatStack.push data isProtected) f =
        .ok () { f with stack := f.stack.pushed data isProtected } ∨
      ∃ blocks blockSize, onStack (FlatStack.push data isProtected) f =
        .error (.outOfMemory blocks blockSize) f := by
  obtain run | ⟨blocks, blockSize, run⟩ := FlatStack.push_cases data isProtected f.stack
  · exact .inl (onStack_ok run)
  · exact .inr ⟨blocks, blockSize, onStack_error run⟩

/-- A scalar goes into a buffer that has room for another one. -/
lemma push_room (room : (f.valid k).length + 1 < f.capacity) :
    push k value f = .ok () ((f.hold k (value :: f.valid k)).countScalar k false) := if_pos room

/-- A scalar that fills its buffer goes onto the stack with it. -/
lemma push_spill (full : ¬ (f.valid k).length + 1 < f.capacity) :
    push k value f = (onStack (FlatStack.push (k.encodeAll (value :: f.valid k).reverse) true) >>=
      fun _ => Action.update (emptied k)) f := by
  rw [push, if_neg full]
  cases run : FlatStack.push (k.encodeAll (value :: f.valid k).reverse) true f.stack with
  | ok _ stack =>
    rw [bind_ok (onStack_ok run)]
    rfl
  | error e stack => rw [bind_error (onStack_error run)]

/-- A scalar comes out of a buffer that is not empty. -/
lemma pop_held {rest : List k.Carrier} (held : f.valid k = value :: rest) :
    pop k f = .ok value (f.hold k rest) := by
  simp only [pop, held]

/-- An empty buffer is taken back from the stack. -/
lemma pop_refill (empty : f.valid k = []) :
    pop k f = (onStack (FlatStack.pop (f.capacity * k.width) true) >>= refill k) f := by
  simp only [pop, empty]
  cases run : FlatStack.pop (f.capacity * k.width) true f.stack with
  | ok bytes stack =>
    rw [bind_ok (onStack_ok run)]
    rfl
  | error e stack => rw [bind_error (onStack_error run)]

/-- A scalar that fills its buffer up takes it to the byte stack, or finds no room there. -/
lemma push_full_cases (value : k.Carrier) (full : ¬ (f.valid k).length + 1 < f.capacity) :
    push k value f = .ok () (emptied k { f with
        stack := f.stack.pushed (k.encodeAll (value :: f.valid k).reverse) true }) ∨
      ∃ blocks blockSize, push k value f = .error (.outOfMemory blocks blockSize) f := by
  rw [push_spill full]
  obtain run | ⟨blocks, blockSize, run⟩ :=
    onStack_push_cases (k.encodeAll (value :: f.valid k).reverse) true f
  · exact .inl (bind_ok run)
  · exact .inr ⟨blocks, blockSize, bind_error run⟩

/-- A bit goes into a word that has room for another one. -/
lemma pushBit_room (room : ¬ BitBuffer.wordBits ≤ f.bits.index + 1) :
    pushBit bit f =
      .ok () { f with bits := ⟨BitBuffer.append f.bits.word bit, f.bits.index + 1⟩ } :=
  if_neg room

/-- A bit that fills the word goes onto the stack with it. -/
lemma pushBit_spill (full : BitBuffer.wordBits ≤ f.bits.index + 1) :
    pushBit bit f =
      (onStack (FlatStack.push (BitBuffer.encode (BitBuffer.append f.bits.word bit)) true) >>=
        fun _ => Action.update fun f => { f with bits := .empty }) f := by
  refine (if_pos full).trans ?_
  cases run : FlatStack.push (BitBuffer.encode (BitBuffer.append f.bits.word bit)) true f.stack with
  | ok _ stack =>
    rw [bind_ok (onStack_ok run)]
    rfl
  | error e stack => rw [bind_error (onStack_error run)]

/-- A bit that fills the word up takes it to the byte stack, or finds no room there. -/
lemma pushBit_cases (bit : Bool) (full : BitBuffer.wordBits ≤ f.bits.index + 1) :
    pushBit bit f = .ok () { f with
        stack := f.stack.pushed (BitBuffer.encode (BitBuffer.append f.bits.word bit)) true
        bits := .empty } ∨
      ∃ blocks blockSize, pushBit bit f = .error (.outOfMemory blocks blockSize) f := by
  rw [pushBit_spill full]
  obtain run | ⟨blocks, blockSize, run⟩ :=
    onStack_push_cases (BitBuffer.encode (BitBuffer.append f.bits.word bit)) true f
  · exact .inl (bind_ok run)
  · exact .inr ⟨blocks, blockSize, bind_error run⟩

/-- A bit comes out of a word that is not empty. -/
lemma popBit_held {index : Nat} (held : f.bits.index = index + 1) :
    popBit f = .ok (BitBuffer.takeLast f.bits.word index).1
      { f with bits := (BitBuffer.takeLast f.bits.word index).2 } := by
  simp only [popBit, held]

/-- An empty word is taken back from the stack. -/
lemma popBit_refill (empty : f.bits.index = 0) :
    popBit f = (onStack (FlatStack.pop 4 true) >>= refillBits) f := by
  simp only [popBit, empty]
  cases run : FlatStack.pop 4 true f.stack with
  | ok bytes stack =>
    rw [bind_ok (onStack_ok run)]
    rfl
  | error e stack => rw [bind_error (onStack_error run)]

end Spills

/-- A single bit is pushed as such. -/
lemma pushBits_singleton (bit : Bool) : pushBits [bit] = pushBit bit := by
  funext f
  cases run : pushBit bit f with
  | ok _ f' => exact (bind_ok run).trans rfl
  | error e f' => exact bind_error run

/-! ## Repeat levels -/

/-- The bytes that are saved for a kind. -/
def chunk (f : FlatTape) (kind : Kind) : List UInt8 :=
  match kind.scalar? with
  | some k => k.encodeAll (f.valid k).reverse
  | none => if f.bits.index = 0 then [] else BitBuffer.encode f.bits.word

/-- The number of values that are buffered for a kind. -/
def index (f : FlatTape) (kind : Kind) : Nat :=
  match kind.scalar? with
  | some k => (f.valid k).length
  | none => f.bits.index

/-- The fill indices of all buffers. -/
def fill (f : FlatTape) : Marks where
  integer4 := f.index .integer4
  integer8 := f.index .integer8
  real4 := f.index .real4
  real8 := f.index .real8
  complex8 := f.index .complex8
  complex16 := f.index .complex16
  character := f.index .character
  bit := f.index .bit
  pointer := f.index .pointer

/-- Pushes chunks one after the other, outside of any protection. -/
def pushEach : List (List UInt8) → Action FlatStack Unit
  | [] => pure ()
  | chunk :: rest => do
    FlatStack.push chunk false
    pushEach rest

/-- Opens a level: the buffers are saved behind what the enclosing level protects, and the cursor
goes back. When they cannot be saved it goes back too, and no level is opened. -/
def startRepeat : Action FlatTape Unit := fun f =>
  match pushEach (Kind.all.map f.chunk) f.stack.begun with
  | .ok _ stack =>
    .ok () { f with stack := stack.committed f.stack.cursor, marks := f.fill :: f.marks }
  | .error e stack => .error e { f with stack := stack.seek f.stack.cursor }

/-- The tape with `count` values of a kind taken back from the stack. -/
def takeBack (kind : Kind) (count : Nat) (f : FlatTape) : FlatTape :=
  match kind.scalar? with
  | some k =>
    { f with stack := f.stack.popped (count * k.width) false }.hold k
      (k.decodeAll count (f.stack.top (count * k.width))).toList.reverse
  | none =>
    if count = 0 then { f with bits := .empty }
    else
      { f with
        stack := f.stack.popped 4 false
        bits := ⟨BitBuffer.decode (f.stack.top 4), count⟩ }

/-- The tape with as many values as the marks say taken back, kind by kind. -/
def takeBackEach (marks : Marks) : List Kind → FlatTape → FlatTape
  | [], f => f
  | kind :: rest, f => takeBackEach marks rest (f.takeBack kind (marks.get kind))

/-- The tape with all buffers taken back, the last kind first. -/
def restored (marks : Marks) (f : FlatTape) : FlatTape := takeBackEach marks Kind.all.reverse f

/-- The tape with its active level restarted: the buffers are taken back and the cursor resumes. -/
def restarted (level : RepeatLevel) (outer : List RepeatLevel) (marks : Marks) (f : FlatTape) :
    FlatTape :=
  let f := { f with stack := f.stack.rewound level outer }.restored marks
  { f with stack := f.stack.seek level.resume }

/-- Restarts the active level. -/
def resetRepeat : Action FlatTape Unit := fun f =>
  match f.stack.levels, f.marks with
  | [], _ => .error (.noActiveRepeat .resetRepeat) f
  | level :: outer, [] => .error .damaged { f with stack := f.stack.rewound level outer }
  | level :: outer, marks :: _ => .ok () (f.restarted level outer marks)

/-- Closes the active level and forgets its marks. -/
def endRepeat : Action FlatTape Unit := fun f =>
  match f.stack.levels with
  | [] => .error (.noActiveRepeat .endRepeat) f
  | level :: outer =>
    .ok () { f with stack := f.stack.ended level outer, marks := f.marks.tail }

end FlatTape

open FlatTape in
/-- Performs a call on flat memory. -/
def Call.performFlat : Call → Action FlatTape Answer
  | .push k value => do
    FlatTape.push k value
    return .unit
  | .pop k => return .scalar k (← FlatTape.pop k)
  | .pushBit bit => do
    FlatTape.pushBit bit
    return .unit
  | .popBit => return .bit (← FlatTape.popBit)
  | .pushControl value width => do
    if 1 ≤ width ∧ width ≤ 8 then FlatTape.pushBits (Tape.controlBits (width - 1) value)
    else throw (.invalidControlWidth width)
    return .unit
  | .popControl width =>
    return .control (← if 1 ≤ width ∧ width ≤ 8 then FlatTape.popBits width 0
      else throw (.invalidControlWidth width))
  | .pushArray k values => do
    onStack (FlatStack.push (k.encodeAll values) true)
    return .unit
  | .popArray k count => do
    let bytes ← onStack (FlatStack.pop (count * k.width) true)
    return .array k (k.decodeAll count bytes).toList
  | .pushBytes data isProtected => do
    onStack (FlatStack.push data isProtected)
    return .unit
  | .popBytes count isProtected => return .bytes (← onStack (FlatStack.pop count isProtected))
  | .startRepeat => do
    FlatTape.startRepeat
    return .unit
  | .resetRepeat => do
    FlatTape.resetRepeat
    return .unit
  | .endRepeat => do
    FlatTape.endRepeat
    return .unit
  | .setLocation l => do
    onStack (FlatStack.setLocation l)
    return .unit

end AdjointTape

import AdjointTape.Staging.Area

/-!
# The adjoint tape

Values are pushed during a forward sweep and popped in reverse order during the adjoint sweep.
Scalars and bits go through the staging area, arrays and byte strings straight to the byte stack.  A
repeat level makes a recorded segment readable more than once: it saves the staging area under its
protected region, and `resetRepeat` brings back both the cursor and the buffers.
-/

namespace AdjointTape

/-- A checkpointable tape. -/
structure Tape where
  geometry : Geometry
  stack : ByteStack
  area : StagingArea
  /-- The fill indices each open repeat level saved, the active level first. -/
  marks : List Marks
  /-- Bytes pushed into staging buffers minus bytes they spilled. -/
  buffered : Int64

namespace Tape

/-- The empty tape of a geometry, where memory has room for at most `limit` blocks. -/
def create (geometry : Geometry) (limit : Option Nat) : Except Failure Tape :=
  match geometry.flaw? with
  | some flaw => .error (.invalidSettings flaw)
  | none =>
    (ByteStack.create geometry.blockSize limit).map fun stack =>
      { geometry, stack, area := .create geometry.capacity, marks := [], buffered := 0 }

/-- Performs a call on the byte stack. -/
@[inline] def onStack {α : Type} (call : Action ByteStack α) : Action Tape α :=
  fun ⟨geometry, stack, area, marks, buffered⟩ =>
    match call stack with
    | .ok a stack => .ok a ⟨geometry, stack, area, marks, buffered⟩
    | .error e stack => .error e ⟨geometry, stack, area, marks, buffered⟩

/-- Performs a call on the staging area and the byte stack. -/
@[inline] def onArea {α : Type} (call : Action (StagingArea × ByteStack) α) : Action Tape α :=
  fun ⟨geometry, stack, area, marks, buffered⟩ =>
    match call (area, stack) with
    | .ok a (area, stack) => .ok a ⟨geometry, stack, area, marks, buffered⟩
    | .error e (area, stack) => .error e ⟨geometry, stack, area, marks, buffered⟩

/-- Where the cursor is. -/
def location (t : Tape) : Location := t.stack.location

/-- Moves the cursor. -/
def setLocation (l : Location) : Action Tape Unit := onStack (ByteStack.setLocation l)

/-! ## Byte strings and arrays -/

/-- Pushes a byte string. -/
def pushBytes (data : List UInt8) (isProtected : Bool) : Action Tape Unit :=
  onStack (ByteStack.pushBytes data isProtected)

/-- Pops a byte string of `count` bytes. -/
def popBytes (count : Nat) (isProtected : Bool) : Action Tape (List UInt8) :=
  onStack (ByteStack.popBytes count isProtected)

/-- Pushes an array past the staging area. -/
def pushArray (k : ScalarKind) (values : List k.Carrier) : Action Tape Unit :=
  pushBytes (k.encodeAll values) true

/-- Pops an array of `count` elements. -/
def popArray (k : ScalarKind) (count : Nat) : Action Tape (List k.Carrier) := do
  let bytes ← popBytes (count * k.width) true
  return (k.decodeAll count bytes).toList

/-! ## Scalars and bits -/

/-- Counts a scalar that went into its buffer, and the buffer if it spilled. -/
def countScalar (k : ScalarKind) (spilled : Bool) (t : Tape) : Tape :=
  let buffered := t.buffered + Int64.ofNat k.width
  { t with
    buffered :=
      if spilled then buffered - Int64.ofNat (t.geometry.capacity * k.width) else buffered }

/-- Pushes a scalar. -/
def push (k : ScalarKind) (value : k.Carrier) : Action Tape Unit := do
  let spilled ← onArea (StagingArea.onBuffer k (TypedBuffer.push value))
  Action.update (countScalar k spilled)

/-- Pops a scalar. -/
def pop (k : ScalarKind) : Action Tape k.Carrier :=
  onArea (StagingArea.onBuffer k TypedBuffer.pop)

/-- Pushes a bit. -/
def pushBit (bit : Bool) : Action Tape Unit := do
  let _ ← onArea (StagingArea.onBits (BitBuffer.push bit))

/-- Pops a bit. -/
def popBit : Action Tape Bool := onArea (StagingArea.onBits BitBuffer.pop)

/-! ## Control tags -/

/-- The bits of a control tag of `width + 1` bits, least significant first.  The last one is set
when any bit at or above its place is. -/
def controlBits : (width value : Nat) → List Bool
  | 0, value => [value ≠ 0]
  | width + 1, value => (value % 2 = 1) :: controlBits width (value / 2)

/-- Pushes bits one after the other. -/
def pushBits : List Bool → Action Tape Unit
  | [] => pure ()
  | bit :: rest => do
    pushBit bit
    pushBits rest

/-- Pops `count` bits onto the low end of `value`. -/
def popBits : (count value : Nat) → Action Tape Nat
  | 0, value => pure value
  | count + 1, value => do
    let bit ← popBit
    popBits count (2 * value + bit.toNat)

/-- Pushes a branch tag of one to eight bits. -/
def pushControl (value width : Nat) : Action Tape Unit :=
  if 1 ≤ width ∧ width ≤ 8 then pushBits (controlBits (width - 1) value)
  else throw (.invalidControlWidth width)

/-- Pops a branch tag of one to eight bits, most significant bit first. -/
def popControl (width : Nat) : Action Tape Nat :=
  if 1 ≤ width ∧ width ≤ 8 then popBits width 0
  else throw (.invalidControlWidth width)

/-! ## Repeat levels -/

/-- Copies the staging area onto the byte stack. -/
def saveArea : Action Tape Unit := fun t => onStack t.area.save t

/-- Opens a repeat level over the byte stack and the staging area.  When the area cannot be saved
the cursor goes back and no level is opened. -/
def startRepeat : Action Tape Unit := do
  let pending ← onStack ByteStack.beginRepeat
  let marks ← Action.inspect (·.area.marks)
  try saveArea
  catch e =>
    onStack (ByteStack.abandonRepeat pending)
    throw e
  onStack (ByteStack.commitRepeat pending)
  Action.update fun t => { t with marks := marks :: t.marks }

/-- Restarts the active level: buffers and cursor are as they were when it was opened. -/
def resetRepeat : Action Tape Unit := do
  onStack ByteStack.beginReset
  match ← Action.inspect (·.marks.head?) with
  | none => throw .damaged
  | some marks => onArea (StagingArea.restore marks)
  onStack ByteStack.finishReset

/-- Closes the active level. -/
def endRepeat : Action Tape Unit := do
  let _ ← onStack ByteStack.endRepeat
  Action.update fun t => { t with marks := t.marks.tail }

/-- The tape with its chain on another memory. -/
def withMemory (memory : Memory) (t : Tape) : Tape :=
  { t with stack := { t.stack with chain := { t.stack.chain with memory } } }

/-- The number of open repeat levels. -/
def depth (t : Tape) : Nat := t.marks.length

/-! ## Totals -/

/-- The most blocks the tape ever had. -/
def peakBlocks (t : Tape) : Nat := t.stack.chain.size

/-- The bytes of those blocks. -/
def peakBytes (t : Tape) : Nat := t.peakBlocks * t.geometry.blockSize

/-- A word with a signed word added, held at the ends of the range. -/
def addSaturating (total : UInt64) (change : Int64) : UInt64 :=
  UInt64.ofNat (min ((total.toNat : Int) + change.toInt).toNat (wordLimit - 1))

/-- Bytes pushed by protected transfers and by scalars together. -/
def totalTraffic (t : Tape) : UInt64 := addSaturating t.stack.traffic t.buffered

end Tape

end AdjointTape

import AdjointTape.Staging.Bits
import AdjointTape.Staging.Typed

/-!
# The staging area

One buffer per kind, the fill indices of them all, and the transfers that save every buffer below a
repeat level and bring it back.
-/

namespace AdjointTape

/-- A fill index for every kind. -/
structure Marks where
  integer4 : Nat
  integer8 : Nat
  real4 : Nat
  real8 : Nat
  complex8 : Nat
  complex16 : Nat
  character : Nat
  bit : Nat
  pointer : Nat
  deriving DecidableEq

namespace Marks

/-- The index of a kind. -/
def get (m : Marks) : Kind → Nat
  | .integer4 => m.integer4
  | .integer8 => m.integer8
  | .real4 => m.real4
  | .real8 => m.real8
  | .complex8 => m.complex8
  | .complex16 => m.complex16
  | .character => m.character
  | .bit => m.bit
  | .pointer => m.pointer

/-- The indices in the order of the kinds. -/
def toList (m : Marks) : List Nat := Kind.all.map m.get

end Marks

/-- The staging buffers of all kinds. -/
structure StagingArea where
  integer4 : TypedBuffer .integer4
  integer8 : TypedBuffer .integer8
  real4 : TypedBuffer .real4
  real8 : TypedBuffer .real8
  complex8 : TypedBuffer .complex8
  complex16 : TypedBuffer .complex16
  character : TypedBuffer .character
  bits : BitBuffer
  pointer : TypedBuffer .pointer

namespace StagingArea

/-- Empty buffers with `capacity` slots each. -/
def create (capacity : Nat) : StagingArea where
  integer4 := .create capacity
  integer8 := .create capacity
  real4 := .create capacity
  real8 := .create capacity
  complex8 := .create capacity
  complex16 := .create capacity
  character := .create capacity
  bits := .empty
  pointer := .create capacity

/-- The buffer of a scalar kind. -/
def get (area : StagingArea) : (k : ScalarKind) → TypedBuffer k
  | .integer4 => area.integer4
  | .integer8 => area.integer8
  | .real4 => area.real4
  | .real8 => area.real8
  | .complex8 => area.complex8
  | .complex16 => area.complex16
  | .character => area.character
  | .pointer => area.pointer

/-- The area with the buffer of a scalar kind replaced. -/
def set (area : StagingArea) : (k : ScalarKind) → TypedBuffer k → StagingArea
  | .integer4, b => { area with integer4 := b }
  | .integer8, b => { area with integer8 := b }
  | .real4, b => { area with real4 := b }
  | .real8, b => { area with real8 := b }
  | .complex8, b => { area with complex8 := b }
  | .complex16, b => { area with complex16 := b }
  | .character, b => { area with character := b }
  | .pointer, b => { area with pointer := b }

/-- The buffer that was set is read back. -/
theorem get_set (area : StagingArea) (k : ScalarKind) (b : TypedBuffer k) :
    (area.set k b).get k = b := by
  cases k <;> rfl

/-- Setting a buffer leaves those of the other kinds alone. -/
theorem get_set_of_ne (area : StagingArea) {j k : ScalarKind} (b : TypedBuffer k) (h : j ≠ k) :
    (area.set k b).get j = area.get j := by
  cases j <;> cases k <;> simp_all [get, set]

/-- The fill indices. -/
def marks (area : StagingArea) : Marks where
  integer4 := area.integer4.index
  integer8 := area.integer8.index
  real4 := area.real4.index
  real8 := area.real8.index
  complex8 := area.complex8.index
  complex16 := area.complex16.index
  character := area.character.index
  bit := area.bits.index
  pointer := area.pointer.index

/-- Performs a call on the buffer of a scalar kind and the stack. -/
def onBuffer {α : Type} (k : ScalarKind) (call : Action (TypedBuffer k × ByteStack) α) :
    Action (StagingArea × ByteStack) α :=
  fun (area, stack) =>
    let buffer := area.get k
    -- the area lets go of the buffer while the call works on it
    let area := area.set k .vacant
    match call (buffer, stack) with
    | .ok a (buffer, stack) => .ok a (area.set k buffer, stack)
    | .error e (buffer, stack) => .error e (area.set k buffer, stack)

/-- Performs a call on the bit buffer and the stack. -/
def onBits {α : Type} (call : Action (BitBuffer × ByteStack) α) :
    Action (StagingArea × ByteStack) α :=
  fun (area, stack) =>
    match call (area.bits, stack) with
    | .ok a (bits, stack) => .ok a ({ area with bits }, stack)
    | .error e (bits, stack) => .error e ({ area with bits }, stack)

/-- Copies the valid part of every buffer onto the stack, in the order of the kinds. -/
def save (area : StagingArea) : Action ByteStack Unit := do
  area.integer4.save
  area.integer8.save
  area.real4.save
  area.real8.save
  area.complex8.save
  area.complex16.save
  area.character.save
  area.bits.save
  area.pointer.save

/-- Takes back what `save` copied at the given fill indices, in the opposite order. -/
def restore (marks : Marks) : Action (StagingArea × ByteStack) Unit := do
  onBuffer .pointer (TypedBuffer.restore marks.pointer)
  onBits (BitBuffer.restore marks.bit)
  onBuffer .character (TypedBuffer.restore marks.character)
  onBuffer .complex16 (TypedBuffer.restore marks.complex16)
  onBuffer .complex8 (TypedBuffer.restore marks.complex8)
  onBuffer .real8 (TypedBuffer.restore marks.real8)
  onBuffer .real4 (TypedBuffer.restore marks.real4)
  onBuffer .integer8 (TypedBuffer.restore marks.integer8)
  onBuffer .integer4 (TypedBuffer.restore marks.integer4)

end StagingArea

end AdjointTape

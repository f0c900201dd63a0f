import AdjointTape.Stack.Level

/-!
# Staging buffers

Scalars of one kind gather in a small buffer in front of the byte stack.  A buffer that fills up is
spilled as one transfer, and a pop from an empty buffer takes a whole buffer back.  Slots at or
above `index` are stale: they keep what was last there.
-/

namespace AdjointTape

/-- The staging buffer of a scalar kind; the elements below `index` are valid. -/
structure TypedBuffer (k : ScalarKind) where
  items : Array k.Carrier
  index : Nat

namespace TypedBuffer

variable {k : ScalarKind}

/-- An empty buffer of zeros. -/
def create (capacity : Nat) : TypedBuffer k :=
  { items := Array.replicate capacity k.zero, index := 0 }

/-- A buffer without slots. -/
def vacant : TypedBuffer k := { items := #[], index := 0 }

/-- The number of slots. -/
def capacity (b : TypedBuffer k) : Nat := b.items.size

/-- The elements that are on the tape but not yet on the byte stack, oldest first. -/
def valid (b : TypedBuffer k) : List k.Carrier := (b.items.take b.index).toList

/-- Puts a value into the buffer and answers whether the buffer spilled.  The slot is written even
when the spill fails, but the value does not become valid then. -/
def push (value : k.Carrier) : Action (TypedBuffer k × ByteStack) Bool :=
  fun (⟨items, index⟩, stack) =>
    let items := items.setIfInBounds index value
    if items.size ≤ index + 1 then
      match ByteStack.pushBytes (k.encodeAll items.toList) true stack with
      | .ok _ stack => .ok true (⟨items, 0⟩, stack)
      | .error e stack => .error e (⟨items, index⟩, stack)
    else .ok false (⟨items, index + 1⟩, stack)

/-- Takes the last value; an empty buffer is filled up from the stack first. -/
def pop : Action (TypedBuffer k × ByteStack) k.Carrier :=
  fun (⟨items, index⟩, stack) =>
    match index with
    | 0 =>
      let count := items.size
      match ByteStack.popBytes (count * k.width) true stack with
      | .ok bytes stack =>
        let items := k.decodeAll count bytes
        .ok (items.getD (count - 1) k.zero) (⟨items, count - 1⟩, stack)
      | .error e stack => .error e (⟨items, 0⟩, stack)
    | index + 1 => .ok (items.getD index k.zero) (⟨items, index⟩, stack)

/-- Copies the valid elements onto the stack, outside of any protection. -/
def save (b : TypedBuffer k) : Action ByteStack Unit :=
  ByteStack.pushBytes (k.encodeAll b.valid) false

/-- Takes back what `save` copied when `index` elements were valid. -/
def restore (index : Nat) : Action (TypedBuffer k × ByteStack) Unit :=
  fun (⟨items, _⟩, stack) =>
    match ByteStack.popBytes (index * k.width) false stack with
    | .ok bytes stack => .ok () (⟨overwrite items 0 (k.decodeAll index bytes).toList, index⟩, stack)
    | .error e stack => .error e (⟨items, index⟩, stack)

end TypedBuffer

end AdjointTape

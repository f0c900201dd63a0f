/-!
# Blocks

A block is a run of bytes with its place in a chain.  `overwrite` puts a list into an array from a
position on; whatever would fall behind the end is dropped.
-/

namespace AdjointTape

/-- `items` with the elements from position `start` on replaced by `values`. -/
def overwrite {α : Type} (items : Array α) (start : Nat) : (values : List α) → Array α
  | [] => items
  | value :: rest => overwrite (items.setIfInBounds start value) (start + 1) rest

/-- Overwriting leaves the size as it is. -/
theorem size_overwrite {α : Type} (items : Array α) (start : Nat) (values : List α) :
    (overwrite items start values).size = items.size := by
  induction values generalizing items start with
  | nil => rfl
  | cons value rest ih => rw [overwrite, ih, Array.size_setIfInBounds]

/-- A block of the chain; `prev` and `next` name its neighbours. -/
structure Block where
  rank : Nat
  prev : Option Nat
  next : Option Nat
  contents : Array UInt8

namespace Block

/-- A zeroed block. -/
def zeroed (rank : Nat) (prev : Option Nat) (size : Nat) : Block :=
  { rank, prev, next := none, contents := Array.replicate size 0 }

/-- The block with `bytes` written from `start` on. -/
def write (start : Nat) (bytes : List UInt8) (b : Block) : Block :=
  { b with contents := overwrite b.contents start bytes }

/-- The `count` bytes from `start` on. -/
def read (start count : Nat) (b : Block) : List UInt8 :=
  (b.contents.extract start (start + count)).toList

end Block

end AdjointTape

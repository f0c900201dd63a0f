/-!
# Memory for blocks

Blocks come out of a memory that may have room for a limited number of them.  Byte buffers of the
size of a block are handed out from the same room, so one that is given back makes room for a block.
-/

namespace AdjointTape

/-- One more than the largest address a process can map: no allocation of this size is ever met. -/
def addressSpace : Nat := 140737488355328

/-- The memory that blocks are taken from. -/
structure Memory where
  /-- The number of blocks there is room for, when that is known. -/
  limit : Option Nat
  /-- The number of blocks' worth in use. -/
  live : Nat
  deriving DecidableEq

namespace Memory

/-- Unused memory with room for `limit` blocks. -/
def fresh (limit : Option Nat) : Memory := { limit, live := 0 }

/-- Whether there is room for `count` more blocks. -/
def hasRoom (m : Memory) (count : Nat) : Bool := m.limit.all (m.live + count ≤ ·)

/-- The memory with `count` more blocks in use. -/
def take (m : Memory) (count : Nat) : Memory := { m with live := m.live + count }

/-- The memory with one block's worth given back. -/
def giveBack (m : Memory) : Memory := { m with live := m.live - 1 }

end Memory

end AdjointTape

import AdjointTape.Failure
import AdjointTape.Store.Block
import AdjointTape.Store.Memory

/-!
# The chain of blocks

Blocks are linked in both directions and named by their place in the chain.  A chain only grows, and
grows as a whole or not at all, as far as its memory has room and addresses reach.
Links are followed by `forward` and `backward`, which give up at a missing link.
-/

namespace AdjointTape

/-- Blocks of one size, linked in order of rank. -/
structure Chain where
  blocks : Array Block
  blockSize : Nat
  memory : Memory

namespace Chain

/-- The number of blocks, which is also the most there ever were. -/
def size (c : Chain) : Nat := c.blocks.size

/-- The bytes that can be addressed without growth. -/
def capacity (c : Chain) : Nat := c.size * c.blockSize

/-- Whether the chain can have `count` blocks. -/
def admits (c : Chain) (count : Nat) : Bool :=
  count < addressSpace ∧ count * c.blockSize < addressSpace ∧ c.memory.hasRoom (count - c.size)

/-- The report that the chain cannot grow. -/
def outOfMemory (c : Chain) : Failure := .outOfMemory c.size c.blockSize

/-- Links one zeroed block behind the last one. -/
def link (c : Chain) : Chain :=
  let id := c.size
  let tail := id - 1
  let rank := (c.blocks[tail]?.elim 0 Block.rank) + 1
  { c with
    blocks := (c.blocks.modify tail fun b => { b with next := some id }).push
      (.zeroed rank (some tail) c.blockSize)
    memory := c.memory.take 1 }

/-- Links `count` blocks. -/
def extend (c : Chain) : (count : Nat) → Chain
  | 0 => c
  | count + 1 => c.link.extend count

/-- Linking adds a block. -/
theorem size_link (c : Chain) : c.link.size = c.size + 1 := by
  simp [link, size]

/-- Extending adds as many blocks as were asked for. -/
theorem size_extend (c : Chain) (count : Nat) : (c.extend count).size = c.size + count := by
  induction count generalizing c with
  | zero => rfl
  | succ count ih =>
    rw [extend, ih, size_link]
    omega

/-- The chain of a single block. -/
def create (blockSize : Nat) (limit : Option Nat) : Except Failure Chain :=
  let empty : Chain := { blocks := #[], blockSize, memory := .fresh limit }
  if empty.admits 1 then
    .ok { empty with blocks := #[.zeroed 0 none blockSize], memory := empty.memory.take 1 }
  else .error empty.outOfMemory

/-- Grows the chain to at least `count` blocks, or leaves it as it was. -/
def ensure (count : Nat) : Action Chain Unit := fun c =>
  if count ≤ c.size then .ok () c
  else if c.admits count then .ok () (c.extend (count - c.size))
  else .error c.outOfMemory c

/-- The chain after a byte buffer of `bytes` bytes was given back to memory. -/
def release (c : Chain) (bytes : Nat) : Chain :=
  if bytes = c.blockSize then { c with memory := c.memory.giveBack } else c

/-- The rank of a block. -/
def rank (c : Chain) (id : Nat) : Nat := c.blocks[id]?.elim 0 Block.rank

/-- The block behind a block. -/
def next? (c : Chain) (id : Nat) : Option Nat := c.blocks[id]?.bind Block.next

/-- The block before a block. -/
def prev? (c : Chain) (id : Nat) : Option Nat := c.blocks[id]?.bind Block.prev

/-- The block `steps` links behind a block. -/
def forward (c : Chain) : (steps id : Nat) → Option Nat
  | 0, id => some id
  | steps + 1, id => (c.next? id).bind (c.forward steps)

/-- The block `steps` links before a block. -/
def backward (c : Chain) : (steps id : Nat) → Option Nat
  | 0, id => some id
  | steps + 1, id => (c.prev? id).bind (c.backward steps)

/-- The block of a rank, reached by links from a block. -/
def travel (c : Chain) (id rank : Nat) : Option Nat :=
  if c.rank id ≤ rank then c.forward (rank - c.rank id) id
  else c.backward (c.rank id - rank) id

/-- At most `fuel` blocks from a block on, in the order of the links. -/
def follow (c : Chain) : (fuel : Nat) → (id : Option Nat) → List Block
  | fuel + 1, some id =>
    match c.blocks[id]? with
    | some b => b :: c.follow fuel b.next
    | none => []
  | _, _ => []

/-- The blocks from the first one on, in the order of the links. -/
def toList (c : Chain) : List Block := c.follow c.size (some 0)

/-- Whether a block has `count` bytes from `start` on. -/
def holds (c : Chain) (id start count : Nat) : Bool :=
  c.blocks[id]?.any fun b => start + count ≤ b.contents.size

/-- The chain with bytes of one block overwritten. -/
def write (c : Chain) (id start : Nat) (bytes : List UInt8) : Chain :=
  { c with blocks := c.blocks.modify id (Block.write start bytes) }

/-- The `count` bytes of a block from `start` on. -/
def read (c : Chain) (id start count : Nat) : List UInt8 :=
  c.blocks[id]?.elim [] (Block.read start count)

end Chain

end AdjointTape

import AdjointTape.Store.Chain

/-!
# The byte stack and its cursor

A stack of bytes on a chain of blocks.  The cursor is a block and an offset from zero to the size of
a block, so a location on a boundary can be held in either of two ways.  `copyIn` and `copyOut` move
bytes at the cursor block by block; they give up, as `seek` does, when the chain has no block where
there should be one.
-/

namespace AdjointTape

/-- One repeat level. -/
structure RepeatLevel where
  /-- Where each replay of the level starts to read. -/
  resume : Location
  /-- The end of the protected region, where redirected pushes go. -/
  freePush : Location
  /-- The location a push was redirected away from, while that redirect is open. -/
  backPop : Option Location
  deriving DecidableEq

/-- The byte stack under every staging buffer. -/
structure ByteStack where
  chain : Chain
  /-- The block that holds the cursor. -/
  current : Nat
  /-- The offset of the cursor in that block. -/
  top : Nat
  /-- The open repeat levels, the active one first. -/
  levels : List RepeatLevel
  /-- Bytes moved by protected pushes. -/
  traffic : UInt64

namespace ByteStack

/-- The empty stack on a chain of one block. -/
def create (blockSize : Nat) (limit : Option Nat) : Except Failure ByteStack :=
  (Chain.create blockSize limit).map fun chain =>
    { chain, current := 0, top := 0, levels := [], traffic := 0 }

/-- The size of a block. -/
def blockSize (s : ByteStack) : Nat := s.chain.blockSize

/-- The rank of the cursor's block. -/
def rank (s : ByteStack) : Nat := s.chain.rank s.current

/-- Where the cursor is. -/
def location (s : ByteStack) : Location := s.rank * s.blockSize + s.top

/-- The blocks from the first one up to the cursor's. -/
def currentBlocks (s : ByteStack) : Nat := s.rank + 1

/-- The active repeat level. -/
def active? (s : ByteStack) : Option RepeatLevel := s.levels.head?

/-- Performs a call on the chain. -/
@[inline] def onChain {α : Type} (call : Action Chain α) : Action ByteStack α :=
  fun ⟨chain, current, top, levels, traffic⟩ =>
    match call chain with
    | .ok a chain => .ok a ⟨chain, current, top, levels, traffic⟩
    | .error e chain => .error e ⟨chain, current, top, levels, traffic⟩

/-- The stack after a byte buffer of `bytes` bytes was given back to memory. -/
def release (bytes : Nat) (s : ByteStack) : ByteStack := { s with chain := s.chain.release bytes }

/-- The rank and offset at which a cursor is put by a seek: a location on a boundary is the end of
the lower block, so that the end of the last block needs no block behind it. -/
def seat (blockSize : Nat) (l : Location) : Nat × Nat :=
  if l = 0 then (0, 0)
  else if l % blockSize = 0 then (l / blockSize - 1, blockSize)
  else (l / blockSize, l % blockSize)

/-- Moves the cursor along the links to a location. -/
def seek (l : Location) : Action ByteStack Unit := fun s =>
  let (rank, offset) := seat s.blockSize l
  match s.chain.travel s.current rank with
  | some id => .ok () { s with current := id, top := offset }
  | none => .error .damaged s

/-- Moves the cursor to a location within the allocated blocks. -/
def setLocation (l : Location) : Action ByteStack Unit := do
  let allocated ← Action.inspect (·.chain.capacity)
  if allocated < l then throw (.locationOutOfRange l allocated)
  seek l

/-- Writes `data` from the cursor on, visiting at most `hops` blocks. -/
def copyIn : (hops : Nat) → (data : List UInt8) → Action ByteStack Unit
  | 0, _ => throw .damaged
  | hops + 1, data => fun ⟨chain, current, top, levels, traffic⟩ =>
    let (chunk, rest) := data.splitAt (chain.blockSize - top)
    let count := chunk.length
    if chain.holds current top count then
      let chain := chain.write current top chunk
      if rest.isEmpty then .ok () ⟨chain, current, top + count, levels, traffic⟩
      else
        match chain.next? current with
        | some id => copyIn hops rest ⟨chain, id, 0, levels, traffic⟩
        | none => .error .damaged ⟨chain, current, top + count, levels, traffic⟩
    else .error .damaged ⟨chain, current, top, levels, traffic⟩

/-- Takes the `count` bytes below the cursor, visiting at most `hops` blocks; the bytes already
taken from above are `above`. -/
def copyOut : (hops count : Nat) → (above : List UInt8) → Action ByteStack (List UInt8)
  | 0, _, _ => throw .damaged
  | hops + 1, count, above => fun s =>
    let take := min s.top count
    let start := s.top - take
    if s.chain.holds s.current start take then
      let bytes := s.chain.read s.current start take ++ above
      if take = count then .ok bytes { s with top := start }
      else
        match s.chain.prev? s.current with
        | some id => copyOut hops (count - take) bytes { s with current := id, top := s.blockSize }
        | none => .error .damaged { s with top := start }
    else .error .damaged s

/-- The number of blocks that hold the bytes below a location, at least one. -/
def blocksBelow (blockSize : Nat) (l : Location) : Nat :=
  max ((l + blockSize - 1) / blockSize) 1

end ByteStack

end AdjointTape

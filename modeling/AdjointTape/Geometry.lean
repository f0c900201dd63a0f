import AdjointTape.Numeral.Padding
import AdjointTape.Overflow
import AdjointTape.Scalar.Kind

/-!
# Geometry of a tape

The two sizes a tape is built with, what makes them unusable, and how a location splits into the
rank of a block and an offset inside it.
-/

namespace AdjointTape

/-- What is wrong with the settings of a tape or of a sweep. -/
inductive SettingsFlaw where
  | emptyBlock
  | emptyBuffer
  | flushTooLarge
  | blockTooLarge
  | noReplays
  deriving DecidableEq

/-- The wording of a flaw. -/
def SettingsFlaw.message : SettingsFlaw → String
  | emptyBlock => "block_size must be > 0"
  | emptyBuffer => "buffer_capacity must be > 0"
  | flushTooLarge => "buffer_capacity too large for a single flush"
  | blockTooLarge => "block_size too large for tape locations"
  | noReplays => "replays must be > 0 when checkpointing"

/-- Bytes of a block and elements of a staging buffer. -/
structure Geometry where
  blockSize : Nat := 65536
  capacity : Nat := 512
  deriving DecidableEq

namespace Geometry

/-- The geometry asked for, with the default for a size that is left open. -/
def ofRequest (blockSize capacity : Option Nat) : Geometry :=
  let default : Geometry := {}
  { blockSize := blockSize.getD default.blockSize, capacity := capacity.getD default.capacity }

/-- The first flaw of a geometry: both sizes are positive, one full buffer of the largest element
and as many blocks as a four-byte count can name stay within the words that hold lengths. -/
def flaw? (g : Geometry) : Option SettingsFlaw :=
  if g.blockSize = 0 then some .emptyBlock
  else if g.capacity = 0 then some .emptyBuffer
  else if wordLimit ≤ g.capacity * ScalarKind.complex16.width then some .flushTooLarge
  else if wordLimit ≤ g.blockSize * 4294967295 then some .blockTooLarge
  else none

end Geometry

/-- A place on the tape: the number of bytes below it. -/
abbrev Location := Nat

namespace Location

/-- The location `offset` bytes into the block of a rank, in word arithmetic. -/
def ofParts (o : Overflow) (rank offset blockSize : UInt64) : Except Stop Location := do
  let start ← o.multiply rank blockSize
  let place ← o.add start offset
  return place.toNat

/-- The rank of the block that holds the byte at a location. -/
def rank (blockSize : Nat) (l : Location) : Nat := l / blockSize

/-- The offset of a location inside its block. -/
def offset (blockSize : Nat) (l : Location) : Nat := l % blockSize

/-- `rank.offset`, the offset in at least five digits. -/
def text (blockSize : Nat) (l : Location) : String :=
  toString (rank blockSize l) ++ "." ++ padLeft 5 '0' (toString (offset blockSize l))

end Location

end AdjointTape

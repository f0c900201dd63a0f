import AdjointTape.Numeral.Fixed
import AdjointTape.Tape.Basic

/-!
# Listings of a tape

Readable views for debugging: every block in hexadecimal with the cursor in it, the repeat levels,
and the contents of the staging buffers.  A bar stands at the cursor of the blocks and at the fill
index of a buffer.
-/

namespace AdjointTape

/-- The bar at a cursor or a fill index. -/
def cursorBar : String := " | "

/-- What separates the lines of a listing from its left margin. -/
def listingMargin : String := "        "

/-- `<backPop|resume|freePush>`, the first part empty unless a redirect is open. -/
def RepeatLevel.text (blockSize : Nat) (level : RepeatLevel) : String :=
  "<" ++ level.backPop.elim "" (Location.text blockSize) ++ "|" ++
    Location.text blockSize level.resume ++ "|" ++ Location.text blockSize level.freePush ++ ">"

/-- Repeat levels, the outermost first. -/
def RepeatLevel.chainText (blockSize : Nat) (levels : List RepeatLevel) : String :=
  if levels.isEmpty then " none!"
  else " ; ".intercalate (levels.map (text blockSize))

namespace Block

/-- A byte of a listing: a point before every fourth one, the bar if the cursor is before it.  At
the start of a block behind the first one the cursor counts as the end of the block below. -/
def byteText (cursor start : Location) (byte : UInt8) (offset : Nat) : String :=
  (if offset ≠ 0 ∧ offset % 4 = 0 then "." else "") ++
    (if cursor = start + offset ∧ ¬ (offset = 0 ∧ 0 < start) then cursorBar else "") ++
    hexText 2 byte.toNat

/-- A block of a listing: its rank and its bytes, with the bar behind them if the cursor is at the
end of the block. -/
def text (blockSize : Nat) (cursor : Location) (b : Block) : String :=
  let start := b.rank * blockSize
  "[" ++ toString b.rank ++ "] " ++
    String.join (b.contents.toList.zipIdx.map fun (byte, offset) =>
      byteText cursor start byte offset) ++
    (if cursor = start + blockSize then cursorBar else "")

end Block

/-- Every block and the repeat levels of a byte stack. -/
def ByteStack.listing (s : ByteStack) : String :=
  let line := "\n" ++ listingMargin
  line.intercalate (s.chain.toList.map (Block.text s.blockSize s.location)) ++ line ++ "REPEATS:" ++
    RepeatLevel.chainText s.blockSize s.levels.reverse

/-- A character of a listing: printable ASCII as it is, quotes and backslash behind a backslash, and
an escape for the rest. -/
def characterText (c : UInt8) : String :=
  if c = 9 then "\\t"
  else if c = 10 then "\\n"
  else if c = 13 then "\\r"
  else if c = 34 ∨ c = 39 ∨ c = 92 then "\\" ++ String.singleton (Char.ofUInt8 c)
  else if 32 ≤ c ∧ c < 127 then String.singleton (Char.ofUInt8 c)
  else "\\x" ++ hexText 2 c.toNat

namespace ScalarKind

/-- The heading of a kind's buffer. -/
def heading : ScalarKind → String
  | integer4 => "I4:"
  | integer8 => "I8:"
  | real4 => "R4:"
  | real8 => "R8:"
  | complex8 => "C8:"
  | complex16 => "C16:"
  | character => "STR:"
  | pointer => "PTR:"

/-- An element of a buffer listing. -/
def itemText : (k : ScalarKind) → k.Carrier → String
  | integer4, v => padLeft 11 ' ' (toString v.toInt)
  | integer8, v => padLeft 11 ' ' (toString v.toInt)
  | real4, v => BinaryFormat.single.sixPlaces v.bits.toNat
  | real8, v => BinaryFormat.double.sixPlaces v.bits.toNat
  | complex8, v =>
    "(" ++ BinaryFormat.single.sixPlaces v.re.bits.toNat ++ "," ++
      BinaryFormat.single.sixPlaces v.im.bits.toNat ++ ")"
  | complex16, v =>
    "(" ++ BinaryFormat.double.sixPlaces v.re.bits.toNat ++ "," ++
      BinaryFormat.double.sixPlaces v.im.bits.toNat ++ ")"
  | character, v => characterText v
  | pointer, v => hexText 1 v.toNat

end ScalarKind

/-- Every slot of a buffer, valid or stale, with the bar at the fill index. -/
def TypedBuffer.listing {k : ScalarKind} (b : TypedBuffer k) : String :=
  k.heading ++ String.join (b.items.toList.zipIdx.map fun (value, slot) =>
    (if slot = b.index then cursorBar else "") ++ " " ++ k.itemText value)

/-- The fill index and the word. -/
def BitBuffer.listing (b : BitBuffer) : String :=
  "BITS:" ++ toString b.index ++ " in " ++ hexText 8 b.word.toNat

namespace Tape

/-- Every block and the repeat levels. -/
def listing (t : Tape) : String := t.stack.listing

/-- The indices that the open levels saved for a kind, the outermost first. -/
def marksText (t : Tape) (kind : Kind) : String :=
  if t.marks.isEmpty then " none!"
  else " ; ".intercalate (t.marks.reverse.map fun m => toString (m.get kind))

/-- A line of the buffer listing. -/
def bufferLine (t : Tape) (kind : Kind) (text : String) : String :=
  listingMargin ++ text ++ listingMargin ++ "REPEATS:" ++ t.marksText kind ++ "\n"

/-- Every staging buffer, one line each. -/
def bufferListing (t : Tape) : String :=
  t.bufferLine .integer4 t.area.integer4.listing ++
  t.bufferLine .integer8 t.area.integer8.listing ++
  t.bufferLine .real4 t.area.real4.listing ++
  t.bufferLine .real8 t.area.real8.listing ++
  t.bufferLine .complex8 t.area.complex8.listing ++
  t.bufferLine .complex16 t.area.complex16.listing ++
  t.bufferLine .character t.area.character.listing ++
  t.bufferLine .bit t.area.bits.listing ++
  t.bufferLine .pointer t.area.pointer.listing

/-- One line for a place in a program: the cursor and every fill index. -/
def sizeLine (t : Tape) (place : Nat) : String :=
  " --" ++ padLeft 5 ' ' (toString place) ++ "--> <" ++
    Location.text t.geometry.blockSize t.location ++ ">" ++
    ".".intercalate (t.area.marks.toList.map toString)

end Tape

end AdjointTape

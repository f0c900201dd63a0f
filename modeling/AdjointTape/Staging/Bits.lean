import AdjointTape.Stack.Level

/-!
# The bit buffer

Bits gather in a word of 32, the last one pushed lowest.  A full word is spilled as four bytes.
-/

namespace AdjointTape

/-- Up to 31 buffered bits; `index` counts them. -/
structure BitBuffer where
  word : UInt32
  index : Nat
  deriving DecidableEq

namespace BitBuffer

/-- No bits. -/
def empty : BitBuffer := { word := 0, index := 0 }

/-- Bits in a word. -/
def wordBits : Nat := 32

/-- The bytes of a word on the tape. -/
def encode (word : UInt32) : List UInt8 := LittleEndian.encode 4 word.toNat

/-- The word that bytes of the tape spell. -/
def decode (bytes : List UInt8) : UInt32 := UInt32.ofNat (LittleEndian.decode bytes)

/-- A word with one more bit at its low end. -/
def append (word : UInt32) (bit : Bool) : UInt32 := (word <<< 1) ||| (if bit then 1 else 0)

/-- Puts a bit into the buffer and answers whether a word was spilled. -/
def push (bit : Bool) : Action (BitBuffer × ByteStack) Bool :=
  fun (⟨word, index⟩, stack) =>
    let longer := append word bit
    if wordBits ≤ index + 1 then
      match ByteStack.pushBytes (encode longer) true stack with
      | .ok _ stack => .ok true (empty, stack)
      | .error e stack => .error e (⟨word, index⟩, stack)
    else .ok false (⟨longer, index + 1⟩, stack)

/-- Takes the last bit of a word of `index + 1` bits. -/
def takeLast (word : UInt32) (index : Nat) : Bool × BitBuffer :=
  (word &&& 1 = 1, ⟨word >>> 1, index⟩)

/-- Takes the last bit; an empty buffer takes a word back from the stack first. -/
def pop : Action (BitBuffer × ByteStack) Bool :=
  fun (⟨word, index⟩, stack) =>
    match index with
    | 0 =>
      match ByteStack.popBytes 4 true stack with
      | .ok bytes stack =>
        let (bit, bits) := takeLast (decode bytes) (wordBits - 1)
        .ok bit (bits, stack)
      | .error e stack => .error e (⟨word, 0⟩, stack)
    | index + 1 =>
      let (bit, bits) := takeLast word index
      .ok bit (bits, stack)

/-- Copies the word onto the stack, outside of any protection.  An empty buffer has a zero word and
copies nothing. -/
def save (b : BitBuffer) : Action ByteStack Unit :=
  if b.index = 0 then pure () else ByteStack.pushBytes (encode b.word) false

/-- Takes back what `save` copied when `index` bits were buffered. -/
def restore (index : Nat) : Action (BitBuffer × ByteStack) Unit :=
  fun (_, stack) =>
    if index = 0 then .ok () (⟨0, 0⟩, stack)
    else
      match ByteStack.popBytes 4 false stack with
      | .ok bytes stack => .ok () (⟨decode bytes, index⟩, stack)
      | .error e stack => .error e (⟨0, index⟩, stack)

end BitBuffer

end AdjointTape

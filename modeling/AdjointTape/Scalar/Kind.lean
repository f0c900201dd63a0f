import AdjointTape.Numeral.Binary
import AdjointTape.Scalar.LittleEndian

/-!
# Kinds of tape values

Eight kinds of scalars have a staging buffer of their own, bits share a ninth.  A scalar is a word
(or two) kept bit for bit, so an unusual floating-point word comes back as it was pushed; on the
tape every word is little-endian and a complex number is its real part, then its imaginary part.
-/

namespace AdjointTape

/-- A four-byte real, kept as its word. -/
structure Real4 where
  bits : UInt32
  deriving DecidableEq, Inhabited

/-- An eight-byte real, kept as its word. -/
structure Real8 where
  bits : UInt64
  deriving DecidableEq, Inhabited

/-- A complex number with parts of type `α`. -/
structure Complex (α : Type) where
  re : α
  im : α
  deriving DecidableEq, Inhabited

/-- The kinds of values with a staging buffer, in the order of marks and listings. -/
inductive Kind where
  | integer4
  | integer8
  | real4
  | real8
  | complex8
  | complex16
  | character
  | bit
  | pointer
  deriving DecidableEq

/-- The kinds of scalars: all but bits. -/
inductive ScalarKind where
  | integer4
  | integer8
  | real4
  | real8
  | complex8
  | complex16
  | character
  | pointer
  deriving DecidableEq

namespace Kind

/-- Every kind, in order. -/
def all : List Kind :=
  [integer4, integer8, real4, real8, complex8, complex16, character, bit, pointer]

/-- The place of a kind in the order. -/
def number : Kind → Nat
  | integer4 => 0
  | integer8 => 1
  | real4 => 2
  | real8 => 3
  | complex8 => 4
  | complex16 => 5
  | character => 6
  | bit => 7
  | pointer => 8

/-- The short tag of a kind in traces and listings. -/
def tag : Kind → String
  | integer4 => "I4"
  | integer8 => "I8"
  | real4 => "R4"
  | real8 => "R8"
  | complex8 => "C8"
  | complex16 => "C16"
  | character => "char"
  | bit => "bit"
  | pointer => "PTR"

end Kind

namespace ScalarKind

/-- The kind among all kinds. -/
def toKind : ScalarKind → Kind
  | integer4 => .integer4
  | integer8 => .integer8
  | real4 => .real4
  | real8 => .real8
  | complex8 => .complex8
  | complex16 => .complex16
  | character => .character
  | pointer => .pointer

/-- The values of a scalar kind. -/
abbrev Carrier : ScalarKind → Type
  | integer4 => Int32
  | integer8 => Int64
  | real4 => Real4
  | real8 => Real8
  | complex8 => Complex Real4
  | complex16 => Complex Real8
  | character => UInt8
  | pointer => UInt64

/-- Bytes of one element. -/
def width : ScalarKind → Nat
  | integer4 => 4
  | integer8 => 8
  | real4 => 4
  | real8 => 8
  | complex8 => 8
  | complex16 => 16
  | character => 1
  | pointer => 8

/-- The element whose bytes are all zero. -/
def zero : (k : ScalarKind) → k.Carrier
  | integer4 => 0
  | integer8 => 0
  | real4 => ⟨0⟩
  | real8 => ⟨0⟩
  | complex8 => ⟨⟨0⟩, ⟨0⟩⟩
  | complex16 => ⟨⟨0⟩, ⟨0⟩⟩
  | character => 0
  | pointer => 0

/-- The bytes of an element on the tape. -/
def encode : (k : ScalarKind) → k.Carrier → List UInt8
  | integer4, v => LittleEndian.encode 4 v.toUInt32.toNat
  | integer8, v => LittleEndian.encode 8 v.toUInt64.toNat
  | real4, v => LittleEndian.encode 4 v.bits.toNat
  | real8, v => LittleEndian.encode 8 v.bits.toNat
  | complex8, v => LittleEndian.encode 4 v.re.bits.toNat ++ LittleEndian.encode 4 v.im.bits.toNat
  | complex16, v => LittleEndian.encode 8 v.re.bits.toNat ++ LittleEndian.encode 8 v.im.bits.toNat
  | character, v => [v]
  | pointer, v => LittleEndian.encode 8 v.toNat

/-- The element that bytes of the tape spell. -/
def decode : (k : ScalarKind) → List UInt8 → k.Carrier
  | integer4, bytes => (UInt32.ofNat (LittleEndian.decode bytes)).toInt32
  | integer8, bytes => (UInt64.ofNat (LittleEndian.decode bytes)).toInt64
  | real4, bytes => ⟨UInt32.ofNat (LittleEndian.decode bytes)⟩
  | real8, bytes => ⟨UInt64.ofNat (LittleEndian.decode bytes)⟩
  | complex8, bytes =>
    ⟨⟨UInt32.ofNat (LittleEndian.decode (bytes.take 4))⟩,
      ⟨UInt32.ofNat (LittleEndian.decode (bytes.drop 4))⟩⟩
  | complex16, bytes =>
    ⟨⟨UInt64.ofNat (LittleEndian.decode (bytes.take 8))⟩,
      ⟨UInt64.ofNat (LittleEndian.decode (bytes.drop 8))⟩⟩
  | character, bytes => bytes.headD 0
  | pointer, bytes => UInt64.ofNat (LittleEndian.decode bytes)

/-- The bytes of elements, one after the other. -/
def encodeAll (k : ScalarKind) (values : List k.Carrier) : List UInt8 :=
  values.flatMap k.encode

/-- Appends the first `count` elements that `bytes` spell to `done`. -/
def decodeOnto (k : ScalarKind) : (count : Nat) → List UInt8 → Array k.Carrier → Array k.Carrier
  | 0, _, done => done
  | count + 1, bytes, done =>
    decodeOnto k count (bytes.drop k.width) (done.push (k.decode (bytes.take k.width)))

/-- The first `count` elements that `bytes` spell. -/
def decodeAll (k : ScalarKind) (count : Nat) (bytes : List UInt8) : Array k.Carrier :=
  k.decodeOnto count bytes #[]

/-- The bytes of an element spell that element. -/
theorem decode_encode (k : ScalarKind) (v : k.Carrier) : k.decode (k.encode v) = v := by
  have fits4 (w : UInt32) : LittleEndian.decode (LittleEndian.encode 4 w.toNat) = w.toNat :=
    LittleEndian.decode_encode w.toNat_lt
  have fits8 (w : UInt64) : LittleEndian.decode (LittleEndian.encode 8 w.toNat) = w.toNat :=
    LittleEndian.decode_encode w.toNat_lt
  cases k with
  | integer4 => simp [encode, decode, fits4]
  | integer8 => simp [encode, decode, fits8]
  | real4 => simp [encode, decode, fits4]
  | real8 => simp [encode, decode, fits8]
  | complex8 => simp [encode, decode, fits4, LittleEndian.length_encode]
  | complex16 => simp [encode, decode, fits8, LittleEndian.length_encode]
  | character => rfl
  | pointer => simp [encode, decode, fits8]

/-- A value is encoded in as many bytes as its kind is wide. -/
theorem length_encode (k : ScalarKind) (v : k.Carrier) : (k.encode v).length = k.width := by
  cases k <;> simp [encode, width, LittleEndian.length_encode]

/-- Values are encoded in as many bytes as all of them are wide. -/
theorem length_encodeAll (k : ScalarKind) (values : List k.Carrier) :
    (k.encodeAll values).length = values.length * k.width := by
  induction values with
  | nil => simp [encodeAll]
  | cons v rest ih =>
    rw [encodeAll] at ih ⊢
    rw [List.flatMap_cons, List.length_append, length_encode, ih, List.length_cons,
      Nat.add_mul, Nat.one_mul, Nat.add_comm]

/-- Decoding gives the encoded values, in their order. -/
theorem toList_decodeOnto (k : ScalarKind) (values : List k.Carrier) (done : Array k.Carrier) :
    (k.decodeOnto values.length (k.encodeAll values) done).toList = done.toList ++ values := by
  induction values generalizing done with
  | nil => simp [decodeOnto]
  | cons v rest ih =>
    have first : (k.encodeAll (v :: rest)).take k.width = k.encode v := by
      rw [encodeAll, List.flatMap_cons, List.take_left' (length_encode k v)]
    have others : (k.encodeAll (v :: rest)).drop k.width = k.encodeAll rest := by
      rw [encodeAll, List.flatMap_cons, List.drop_left' (length_encode k v)]
      rfl
    rw [List.length_cons, decodeOnto, first, others, ih, decode_encode]
    simp

/-- The bytes of elements spell those elements. -/
theorem decodeAll_encodeAll (k : ScalarKind) (values : List k.Carrier) :
    (k.decodeAll values.length (k.encodeAll values)).toList = values := by
  rw [decodeAll, toList_decodeOnto]
  rfl

end ScalarKind

end AdjointTape

/-!
# Little-endian words

The bytes of a natural number, least significant first, and the number that bytes spell.
-/

namespace AdjointTape.LittleEndian

/-- The lowest `width` bytes of `n`, least significant first. -/
def encode : (width n : Nat) → List UInt8
  | 0, _ => []
  | width + 1, n => UInt8.ofNat (n % 256) :: encode width (n / 256)

/-- The number whose bytes, least significant first, are `bytes`. -/
def decode : (bytes : List UInt8) → Nat
  | [] => 0
  | byte :: rest => byte.toNat + 256 * decode rest

/-- A number is encoded in as many bytes as were asked for. -/
theorem length_encode (width n : Nat) : (encode width n).length = width := by
  induction width generalizing n with
  | zero => rfl
  | succ width ih => simp [encode, ih]

/-- A number that fits into its bytes is what they spell. -/
theorem decode_encode {width n : Nat} (h : n < Nat.pow 256 width) :
    decode (encode width n) = n := by
  induction width generalizing n with
  | zero =>
    have : n = 0 := Nat.lt_one_iff.1 h
    rw [this]
    rfl
  | succ width ih =>
    have fits : n / 256 < Nat.pow 256 width :=
      Nat.div_lt_of_lt_mul (by rw [Nat.mul_comm]; exact h)
    have low : (UInt8.ofNat (n % 256)).toNat = n % 256 := by simp
    rw [encode, decode, ih fits, low]
    omega

end AdjointTape.LittleEndian

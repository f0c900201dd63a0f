/-!
# Binary floating-point words

A format packs a sign, a biased exponent and a fraction into one word.  Every finite magnitude is a
natural multiple of the format's unit, so `decode` is exact, and `nearest` rounds a rational to the
closest word, a tie to the even one.
-/

namespace AdjointTape

/-- `2 ^ n`. -/
def twoPow (n : Nat) : Nat := 1 <<< n

/-- The quotient `num / den` rounded to the nearest natural number, a tie to the even one. -/
def roundHalfEven (num den : Nat) : Nat :=
  let quotient := num / den
  let rest := num % den
  if den < 2 * rest ∨ (2 * rest = den ∧ quotient % 2 = 1) then quotient + 1 else quotient

/-- A binary interchange format: significand bits (the hidden one included) and exponent bits. -/
structure BinaryFormat where
  precision : Nat
  exponentBits : Nat

/-- The magnitude a word stands for; a finite one is `significand * 2 ^ exponent` units. -/
inductive Magnitude where
  | finite (significand exponent : Nat)
  | infinite
  | notANumber
  deriving DecidableEq

/-- What a word stands for. -/
structure BinaryValue where
  negative : Bool
  magnitude : Magnitude
  deriving DecidableEq

namespace BinaryFormat

/-- The format of four-byte reals. -/
def single : BinaryFormat := ⟨24, 8⟩

/-- The format of eight-byte reals. -/
def double : BinaryFormat := ⟨53, 11⟩

/-- Bits of the fraction field. -/
def fractionBits (f : BinaryFormat) : Nat := f.precision - 1

/-- The unit of the finite magnitudes is `1 / f.unitsPerOne`. -/
def unitsPerOne (f : BinaryFormat) : Nat :=
  twoPow (twoPow (f.exponentBits - 1) + f.precision - 3)

/-- The exponent field of infinities and of words that are no number. -/
def topExponent (f : BinaryFormat) : Nat := twoPow f.exponentBits - 1

/-- The word of positive infinity. -/
def infinity (f : BinaryFormat) : Nat := f.topExponent * twoPow f.fractionBits

/-- The word with only the sign bit set. -/
def signBit (f : BinaryFormat) : Nat := twoPow (f.fractionBits + f.exponentBits)

/-- The exact value of a word. -/
def decode (f : BinaryFormat) (word : Nat) : BinaryValue :=
  let fraction := word % twoPow f.fractionBits
  let exponent := word / twoPow f.fractionBits % twoPow f.exponentBits
  { negative := word / f.signBit % 2 = 1
    magnitude :=
      if exponent = f.topExponent then
        if fraction = 0 then .infinite else .notANumber
      else if exponent = 0 then .finite fraction 0
      else .finite (fraction + twoPow f.fractionBits) (exponent - 1) }

/-- The word of the value nearest to `num / den`, infinity when that is out of range. -/
def nearest (f : BinaryFormat) (num den : Nat) : Nat :=
  let units := num * f.unitsPerOne
  let shift := (units / den).log2 + 1 - f.precision
  let significand := roundHalfEven units (den * twoPow shift)
  min (shift * twoPow f.fractionBits + significand) f.infinity

/-- Whether two words compare as equal numbers: both zeros are equal, and a word that is no number
equals nothing. -/
def sameNumber (f : BinaryFormat) (a b : Nat) : Bool :=
  match (f.decode a).magnitude, (f.decode b).magnitude with
  | .notANumber, _ => false
  | _, .notANumber => false
  | .finite 0 _, .finite 0 _ => true
  | _, _ => a = b

end BinaryFormat

end AdjointTape

import AdjointTape.Numeral.Binary

/-!
# The fewest digits that read back

A word is written with the fewest decimal digits whose value still rounds to that word.  For one,
two, … digits the two decimals next to the exact value are tried, and the first count with a hit
wins; of two hits the nearer one is taken, the upper one on a tie.
-/

namespace AdjointTape

/-- A positive decimal `0.digits * 10 ^ point`. -/
structure ShortDecimal where
  digits : List Char
  point : Int

/-- The rationals `low / den … high / den` that round to the word of `value / den`. -/
structure RoundingInterval where
  low : Nat
  value : Nat
  high : Nat
  den : Nat
  /-- Whether the two ends round to the word as well. -/
  closed : Bool

namespace RoundingInterval

/-- The interval of a positive finite magnitude.  Below a power of two the grid is twice as fine. -/
def ofFinite (f : BinaryFormat) (significand exponent : Nat) : RoundingInterval :=
  let unit := twoPow exponent
  let below := if significand = twoPow f.fractionBits then unit else 2 * unit
  { low := 4 * significand * unit - below
    value := 4 * significand * unit
    high := 4 * significand * unit + 2 * unit
    den := 4 * f.unitsPerOne
    closed := significand % 2 = 0 }

/-- Whether `num / den` lies in the interval. -/
def holds (i : RoundingInterval) (num den : Nat) : Bool :=
  if i.closed then i.low * den ≤ num * i.den ∧ num * i.den ≤ i.high * den
  else i.low * den < num * i.den ∧ num * i.den < i.high * den

/-- The number of zeros between the point and the first digit of `num / den < 1`, at most `fuel`. -/
def leadingZeros (num den : Nat) : (fuel : Nat) → Nat
  | 0 => 0
  | fuel + 1 => if den ≤ num * 10 then 0 else leadingZeros (num * 10) den fuel + 1

/-- The `point` with `10 ^ (point - 1) ≤ value < 10 ^ point`. -/
def point (i : RoundingInterval) : Int :=
  if i.den ≤ i.value then ((toString (i.value / i.den)).length : Int)
  else -(leadingZeros i.value i.den 400 : Int)

/-- The decimal with `count` digits next to the value, when one lies in the interval. -/
def withDigits? (i : RoundingInterval) (point : Int) (count : Nat) : Option ShortDecimal :=
  -- the grid of `count` digits has the step `up / down`
  let up := Nat.pow 10 (point - count).toNat
  let down := Nat.pow 10 (count - point).toNat
  let floor := i.value * down / (i.den * up)
  let remainder := i.value * down % (i.den * up)
  let low := i.holds (floor * up) down
  let high := i.holds ((floor + 1) * up) down
  let take (n : Nat) : ShortDecimal :=
    let digits := Nat.toDigits 10 n
    { digits := digits, point := point - count + digits.length }
  if low ∧ (¬ high ∨ 2 * remainder < i.den * up) then some (take floor)
  else if high then some (take (floor + 1))
  else none

/-- The shortest decimal of the interval; seventeen digits always suffice. -/
def shortest (i : RoundingInterval) : ShortDecimal :=
  let point := i.point
  ((List.range 17).findSome? fun n => i.withDigits? point (n + 1)).getD ⟨['0'], 1⟩

end RoundingInterval

namespace ShortDecimal

/-- The decimal without zeros at the end of its digits. -/
def trim (d : ShortDecimal) : ShortDecimal :=
  { d with digits := (d.digits.reverse.dropWhile (· = '0')).reverse }

/-- Positional from `0.0001` up to below `10 ^ 16`, always with a digit after the point; with an
exponent outside of that. -/
def text (d : ShortDecimal) : String :=
  let count := d.digits.length
  if -4 < d.point ∧ d.point ≤ 16 then
    if d.point ≤ 0 then
      "0." ++ String.ofList (List.replicate (-d.point).toNat '0' ++ d.digits)
    else
      let whole := d.point.toNat
      if count ≤ whole then
        String.ofList (d.digits ++ List.replicate (whole - count) '0') ++ ".0"
      else
        String.ofList (d.digits.take whole) ++ "." ++ String.ofList (d.digits.drop whole)
  else
    let fraction := d.digits.drop 1
    String.ofList (d.digits.take 1) ++
      (if fraction.isEmpty then "" else "." ++ String.ofList fraction) ++
      "e" ++ toString (d.point - 1)

end ShortDecimal

/-- The text of a word with the fewest digits that read back. -/
def BinaryFormat.shortestText (f : BinaryFormat) (word : Nat) : String :=
  let value := f.decode word
  let sign := if value.negative then "-" else ""
  match value.magnitude with
  | .notANumber => "NaN"
  | .infinite => sign ++ "inf"
  | .finite 0 _ => sign ++ "0.0"
  | .finite significand exponent =>
    sign ++ (RoundingInterval.ofFinite f significand exponent).shortest.trim.text

end AdjointTape

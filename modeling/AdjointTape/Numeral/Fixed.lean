import AdjointTape.Numeral.Binary
import AdjointTape.Numeral.Padding

/-!
# Numbers with a fixed number of decimal places

The exact value is rounded once, a tie to the even last digit.
-/

namespace AdjointTape

/-- The rational `num / den` with `places` digits after the point. -/
def fixedPlaces (places num den : Nat) : String :=
  let scale := Nat.pow 10 places
  let scaled := roundHalfEven (num * scale) den
  toString (scaled / scale) ++ "." ++ padLeft places '0' (toString (scaled % scale))

/-- The text of a word with six decimal places, the form in which listings show reals. -/
def BinaryFormat.sixPlaces (f : BinaryFormat) (word : Nat) : String :=
  let value := f.decode word
  let sign := if value.negative then "-" else ""
  match value.magnitude with
  | .notANumber => "NaN"
  | .infinite => sign ++ "inf"
  | .finite significand exponent =>
    sign ++ fixedPlaces 6 (significand * twoPow exponent) f.unitsPerOne

end AdjointTape

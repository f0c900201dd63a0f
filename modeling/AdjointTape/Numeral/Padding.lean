/-!
# Columns and hexadecimal digits
-/

namespace AdjointTape

/-- `text` filled up on the left to at least `width` characters. -/
def padLeft (width : Nat) (fill : Char) (text : String) : String :=
  String.ofList (List.replicate (width - text.length) fill) ++ text

/-- The lower-case hexadecimal digits of `n`, at least `width` of them. -/
def hexText (width n : Nat) : String :=
  padLeft width '0' (String.ofList (Nat.toDigits 16 n))

end AdjointTape

/-!
# Results that leave their range

Words are finite.  A program is built in one of two ways: where a result leaves the range of its
word the program goes on with what is left of it, or it stops.  A list that is longer than any
memory can hold stops the program however it is built.
-/

namespace AdjointTape

/-- One more than the largest machine word. -/
def wordLimit : Nat := 18446744073709551616

/-- What a program is built to do where a result leaves the range of its word. -/
inductive Overflow where
  /-- To go on with the result reduced to the word. -/
  | wraps
  /-- To stop. -/
  | stops
  deriving DecidableEq

/-- What stops a program. -/
inductive Stop where
  /-- A sum out of range. -/
  | sum
  /-- A difference out of range. -/
  | difference
  /-- A product out of range. -/
  | product
  /-- A list too long to be held. -/
  | capacity
  deriving DecidableEq

/-- The wording of what stops a program. -/
def Stop.message : Stop → String
  | sum => "attempt to add with overflow"
  | difference => "attempt to subtract with overflow"
  | product => "attempt to multiply with overflow"
  | capacity => "capacity overflow"

namespace Overflow

/-- A result reduced to its word, which it may not leave where the program is built to stop. -/
def settle {α : Type} (o : Overflow) (fits : Bool) (cause : Stop) (reduced : α) : Except Stop α :=
  match o, fits with
  | stops, false => .error cause
  | _, _ => .ok reduced

/-- The sum of two words. -/
def add (o : Overflow) (a b : UInt64) : Except Stop UInt64 :=
  o.settle (a.toNat + b.toNat < wordLimit) .sum (a + b)

/-- The product of two words. -/
def multiply (o : Overflow) (a b : UInt64) : Except Stop UInt64 :=
  o.settle (a.toNat * b.toNat < wordLimit) .product (a * b)

/-- The product of two signed words. -/
def multiplySigned (o : Overflow) (a b : Int64) : Except Stop Int64 :=
  o.settle ((a * b).toInt = a.toInt * b.toInt) .product (a * b)

/-- The difference of two signed half words. -/
def subtractHalf (o : Overflow) (a b : Int32) : Except Stop Int32 :=
  o.settle ((a - b).toInt = a.toInt - b.toInt) .difference (a - b)

end Overflow

end AdjointTape

import AdjointTape.Numeral.Shortest
import AdjointTape.Tape.Call

/-!
# What a sweep records

Every step puts one value of each kind, a control tag and a short array on the tape, all computed
from the number of the step, so that the adjoint sweep knows what to expect.  A snapshot is what a
segment restarts from.
-/

namespace AdjointTape

namespace Real4

/-- The real nearest to `num / den`. -/
def ofQuotient (num den : Nat) : Real4 := ⟨UInt32.ofNat (BinaryFormat.single.nearest num den)⟩

/-- The real of opposite sign. -/
def negate (x : Real4) : Real4 := ⟨x.bits ^^^ UInt32.ofNat BinaryFormat.single.signBit⟩

/-- Equality of numbers. -/
def sameNumber (x y : Real4) : Bool := BinaryFormat.single.sameNumber x.bits.toNat y.bits.toNat

/-- The fewest digits that read back. -/
def text (x : Real4) : String := BinaryFormat.single.shortestText x.bits.toNat

end Real4

namespace Real8

/-- The real nearest to `num / den`. -/
def ofQuotient (num den : Nat) : Real8 := ⟨UInt64.ofNat (BinaryFormat.double.nearest num den)⟩

/-- The real of opposite sign. -/
def negate (x : Real8) : Real8 := ⟨x.bits ^^^ UInt64.ofNat BinaryFormat.double.signBit⟩

/-- The magnitude of a finite real in units of the format. -/
def units (x : Real8) : Nat :=
  match (BinaryFormat.double.decode x.bits.toNat).magnitude with
  | .finite significand exponent => significand * twoPow exponent
  | _ => 0

/-- Equality of numbers. -/
def sameNumber (x y : Real8) : Bool := BinaryFormat.double.sameNumber x.bits.toNat y.bits.toNat

/-- Equality of arrays of numbers. -/
def sameNumbers : (xs ys : List Real8) → Bool
  | [], [] => true
  | x :: xs, y :: ys => x.sameNumber y && sameNumbers xs ys
  | _, _ => false

/-- The fewest digits that read back. -/
def text (x : Real8) : String := BinaryFormat.double.shortestText x.bits.toNat

/-- An array of reals in brackets. -/
def arrayText (xs : List Real8) : String := "[" ++ ", ".intercalate (xs.map text) ++ "]"

end Real8

/-- The width of the control tag of a step. -/
def tagWidth : Nat := 3

/-- The values of a step. -/
structure StepValues where
  integer4 : Int32
  integer8 : Int64
  real4 : Real4
  real8 : Real8
  complex8 : Complex Real4
  complex16 : Complex Real8
  character : UInt8
  bit : Bool
  pointer : UInt64
  tag : Nat
  array : List Real8
  deriving DecidableEq

namespace StepValues

/-- The length of a step's array. -/
def arrayLength (step : UInt64) : Nat := step.toNat % 4

/-- The array of a step. -/
def arrayOf (o : Overflow) (step : UInt64) : Except Stop (List Real8) :=
  (List.range (arrayLength step)).mapM fun i => do
    let tenfold ← o.multiply step 10
    let element ← o.add tenfold (UInt64.ofNat i)
    return .ofQuotient element.toNat 1

/-- The values of a step, given those whose computation may leave a range. -/
def complete (step : UInt64) (integer4 : Int32) (integer8 : Int64) (pointer : UInt64)
    (array : List Real8) : StepValues where
  integer4
  integer8
  real4 := .ofQuotient step.toNat 2
  real8 := (Real8.ofQuotient step.toNat 4).negate
  complex8 := ⟨.ofQuotient step.toNat 1, (Real4.ofQuotient 3 2).negate⟩
  complex16 := ⟨.ofQuotient 1 8, .ofQuotient step.toNat 1⟩
  character := 97 + UInt8.ofNat (step.toNat % 26)
  bit := step.toNat % 3 = 0
  pointer
  tag := step.toNat % 8
  array

/-- The values computed from the number of a step.  The first product is reduced to its word however
the program is built. -/
def ofStep (o : Overflow) (step : UInt64) : Except Stop StepValues := do
  let integer4 ← o.subtractHalf (step.toUInt32.toInt32 * 7) 3
  let integer8 ← o.multiplySigned step.toInt64 1000003
  let eightfold ← o.multiply step 8
  let pointer ← o.add 4096 eightfold
  let array ← arrayOf o step
  return complete step integer4 integer8 pointer array

/-- Pushes the values of a step. -/
def push (o : Overflow) (v : StepValues) : Action Tape Unit := do
  Call.carryOut o (.push .integer4 v.integer4)
  Call.carryOut o (.push .integer8 v.integer8)
  Call.carryOut o (.push .real4 v.real4)
  Call.carryOut o (.push .real8 v.real8)
  Call.carryOut o (.push .complex8 v.complex8)
  Call.carryOut o (.push .complex16 v.complex16)
  Call.carryOut o (.push .character v.character)
  Call.carryOut o (.pushBit v.bit)
  Call.carryOut o (.push .pointer v.pointer)
  Call.carryOut o (.pushControl v.tag tagWidth)
  Call.carryOut o (.pushArray .real8 v.array)

/-- Pops the values of a step whose array has `count` elements. -/
def pop (count : Nat) : Action Tape StepValues := do
  let array ← Tape.popArray .real8 count
  let tag ← Tape.popControl tagWidth
  let pointer ← Tape.pop .pointer
  let bit ← Tape.popBit
  let character ← Tape.pop .character
  let complex16 ← Tape.pop .complex16
  let complex8 ← Tape.pop .complex8
  let real8 ← Tape.pop .real8
  let real4 ← Tape.pop .real4
  let integer8 ← Tape.pop .integer8
  let integer4 ← Tape.pop .integer4
  return { integer4, integer8, real4, real8, complex8, complex16, character, bit, pointer, tag,
           array }

/-- Equality of all values, reals compared as numbers. -/
def agrees (v w : StepValues) : Bool :=
  v.integer4 = w.integer4 && v.integer8 = w.integer8 && v.real4.sameNumber w.real4 &&
  v.real8.sameNumber w.real8 && v.complex8.re.sameNumber w.complex8.re &&
  v.complex8.im.sameNumber w.complex8.im && v.complex16.re.sameNumber w.complex16.re &&
  v.complex16.im.sameNumber w.complex16.im && v.character = w.character && v.bit = w.bit &&
  v.pointer = w.pointer && v.tag = w.tag && Real8.sameNumbers v.array w.array

/-- The values as mismatches report them. -/
def text (v : StepValues) : String :=
  "StepValues \x7b integer4: " ++ toString v.integer4.toInt ++
  ", integer8: " ++ toString v.integer8.toInt ++
  ", real4: " ++ v.real4.text ++
  ", real8: " ++ v.real8.text ++
  ", complex8: Complex8 \x7b re: " ++ v.complex8.re.text ++
  ", im: " ++ v.complex8.im.text ++
  " \x7d, complex16: Complex16 \x7b re: " ++ v.complex16.re.text ++
  ", im: " ++ v.complex16.im.text ++
  " \x7d, character: " ++ toString v.character.toNat ++
  ", bit: " ++ toString v.bit ++
  ", pointer: " ++ toString v.pointer.toNat ++
  ", tag: " ++ toString v.tag ++
  ", array: " ++ Real8.arrayText v.array ++ " \x7d"

end StepValues

/-- What a segment restarts from. -/
structure Snapshot where
  start : Int64
  state : List Real8
  deriving DecidableEq

namespace Snapshot

/-- The elements of a snapshot's state. -/
def stateLength : Nat := 3

/-- The snapshot before a step: with `x` the step as a real, `x`, its square and `1 / (x + 1)`, each
operation rounded. -/
def ofStep (first : UInt64) : Snapshot :=
  let one := BinaryFormat.double.unitsPerOne
  let x := Real8.ofQuotient first.toNat 1
  let successor := Real8.ofQuotient (x.units + one) one
  { start := first.toInt64
    state := [x, .ofQuotient (x.units * x.units) (one * one), .ofQuotient one successor.units] }

/-- Pushes a snapshot. -/
def push (o : Overflow) (s : Snapshot) : Action Tape Unit := do
  Call.carryOut o (.push .integer8 s.start)
  Call.carryOut o (.pushArray .real8 s.state)

/-- Pops a snapshot. -/
def pop : Action Tape Snapshot := do
  let state ← Tape.popArray .real8 stateLength
  let start ← Tape.pop .integer8
  return { start, state }

/-- Equality, reals compared as numbers. -/
def agrees (s t : Snapshot) : Bool := s.start = t.start && Real8.sameNumbers s.state t.state

/-- The snapshot as mismatches report it. -/
def text (s : Snapshot) : String :=
  "Snapshot \x7b start: " ++ toString s.start.toInt ++ ", state: " ++ Real8.arrayText s.state ++
  " \x7d"

end Snapshot

end AdjointTape

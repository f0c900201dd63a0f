import AdjointTape.Proofs.Overflow
import AdjointTape.Sweep.Values
import Mathlib.Algebra.Ring.Nat
import Mathlib.Tactic.Common

/-!
# The values of a sweep are numbers

A word that is no number equals nothing, not even itself.  Rounding never gives such a word: it
stops at infinity, and a sign does not change the magnitude.  So what is computed from the number of
a step agrees with itself.
-/

namespace AdjointTape

/-- A power of two by its name. -/
lemma twoPow_eq (n : Nat) : twoPow n = 2 ^ n := Nat.one_shiftLeft n

namespace BinaryFormat

variable {f : BinaryFormat} {word : Nat}

/-- A word whose magnitude is at most infinity. -/
def IsNumber (f : BinaryFormat) (word : Nat) : Prop := word % f.signBit ≤ f.infinity

/-- Below the sign a word is its exponent and its fraction. -/
lemma mod_signBit (f : BinaryFormat) (word : Nat) :
    word % f.signBit = word % twoPow f.fractionBits +
      twoPow f.fractionBits * (word / twoPow f.fractionBits % twoPow f.exponentBits) := by
  rw [signBit, twoPow_eq, Nat.pow_add, ← twoPow_eq, ← twoPow_eq, Nat.mod_mul]

/-- A number has a magnitude. -/
lemma IsNumber.magnitude_ne (h : f.IsNumber word) : (f.decode word).magnitude ≠ .notANumber := by
  rw [IsNumber, mod_signBit, infinity] at h
  simp only [decode]
  split
  case isTrue top =>
    rw [top, Nat.mul_comm] at h
    have fraction : word % twoPow f.fractionBits = 0 := by omega
    rw [if_pos fraction]
    exact nofun
  case isFalse => split <;> exact nofun

/-- A number is the same number as itself. -/
lemma IsNumber.sameNumber (h : f.IsNumber word) : f.sameNumber word word = true := by
  have number := h.magnitude_ne
  rw [BinaryFormat.sameNumber]
  split
  case h_1 notANumber => exact absurd notANumber number
  case h_2 notANumber _ => exact absurd notANumber number
  case h_3 => rfl
  case h_4 => exact decide_eq_true rfl

/-- A word up to infinity is a number. -/
lemma isNumber_of_le (h : word ≤ f.infinity) : f.IsNumber word :=
  Nat.le_trans (Nat.mod_le _ _) h

/-- Rounding stops at infinity. -/
lemma nearest_le (f : BinaryFormat) (num den : Nat) : f.nearest num den ≤ f.infinity :=
  Nat.min_le_right _ _

/-- A number stays one with the other sign. -/
lemma IsNumber.xor_signBit (h : f.IsNumber word) : f.IsNumber (word ^^^ f.signBit) := by
  rw [IsNumber, signBit, twoPow_eq] at h ⊢
  rw [Nat.xor_mod_two_pow, Nat.mod_self, Nat.xor_zero]
  exact h

end BinaryFormat

namespace Real4

/-- A four-byte real that is a number. -/
def IsNumber (x : Real4) : Prop := BinaryFormat.single.IsNumber x.bits.toNat

/-- A quotient is rounded to a number. -/
lemma isNumber_ofQuotient (num den : Nat) : (ofQuotient num den).IsNumber := by
  refine BinaryFormat.isNumber_of_le ?_
  rw [ofQuotient, UInt32.toNat_ofNat']
  exact Nat.le_trans (Nat.mod_le _ _) (BinaryFormat.single.nearest_le num den)

/-- Negation turns the sign bit over. -/
lemma toNat_negate (x : Real4) :
    x.negate.bits.toNat = x.bits.toNat ^^^ BinaryFormat.single.signBit := by
  rw [negate, UInt32.toNat_xor]
  exact congrArg (x.bits.toNat ^^^ ·) (UInt32.toNat_ofNat_of_lt (by decide))

/-- The opposite of a number is a number. -/
lemma IsNumber.negate {x : Real4} (h : x.IsNumber) : x.negate.IsNumber := by
  rw [IsNumber, toNat_negate]
  exact h.xor_signBit

/-- A number is the same number as itself. -/
lemma IsNumber.sameNumber {x : Real4} (h : x.IsNumber) : x.sameNumber x = true :=
  BinaryFormat.IsNumber.sameNumber h

end Real4

namespace Real8

/-- An eight-byte real that is a number. -/
def IsNumber (x : Real8) : Prop := BinaryFormat.double.IsNumber x.bits.toNat

/-- A quotient is rounded to a number. -/
lemma isNumber_ofQuotient (num den : Nat) : (ofQuotient num den).IsNumber := by
  refine BinaryFormat.isNumber_of_le ?_
  rw [ofQuotient, UInt64.toNat_ofNat']
  exact Nat.le_trans (Nat.mod_le _ _) (BinaryFormat.double.nearest_le num den)

/-- Negation turns the sign bit over. -/
lemma toNat_negate (x : Real8) :
    x.negate.bits.toNat = x.bits.toNat ^^^ BinaryFormat.double.signBit := by
  rw [negate, UInt64.toNat_xor]
  exact congrArg (x.bits.toNat ^^^ ·) (UInt64.toNat_ofNat_of_lt (by decide))

/-- The opposite of a number is a number. -/
lemma IsNumber.negate {x : Real8} (h : x.IsNumber) : x.negate.IsNumber := by
  rw [IsNumber, toNat_negate]
  exact h.xor_signBit

/-- A number is the same number as itself. -/
lemma IsNumber.sameNumber {x : Real8} (h : x.IsNumber) : x.sameNumber x = true :=
  BinaryFormat.IsNumber.sameNumber h

/-- Numbers are the same ones as themselves. -/
lemma sameNumbers_self {xs : List Real8} (h : ∀ x ∈ xs, x.IsNumber) :
    sameNumbers xs xs = true := by
  induction xs with
  | nil => rfl
  | cons x rest ih =>
    obtain ⟨first, others⟩ := List.forall_mem_cons.1 h
    rw [sameNumbers, first.sameNumber, ih others]
    rfl

end Real8

/-! ## Steps -/

namespace StepValues

/-- The array of a step, computed from what is left where results leave their range. -/
def reducedArray (step : UInt64) : List Real8 :=
  (List.range (arrayLength step)).map fun i =>
    .ofQuotient (step * 10 + UInt64.ofNat i).toNat 1

/-- The values of a step, computed from what is left where results leave their range. -/
def reduced (step : UInt64) : StepValues :=
  complete step (step.toUInt32.toInt32 * 7 - 3) (step.toInt64 * 1000003) (4096 + step * 8)
    (reducedArray step)

/-- The values of a step are these, unless the program is stopped. -/
lemma ofStep_settles (o : Overflow) (step : UInt64) :
    o.Settles (ofStep o step) (reduced step) := by
  have array : o.Settles (arrayOf o step) (reducedArray step) :=
    .mapM fun i _ => (o.settles _ _ _).bind ((o.add_settles _ _).bind (.ret _))
  exact (o.settles _ _ _).bind ((o.settles _ _ _).bind ((o.settles _ _ _).bind
    ((o.add_settles _ _).bind (array.bind (.ret _)))))

/-- The values of a step agree with themselves. -/
lemma agrees_reduced (step : UInt64) : (reduced step).agrees (reduced step) = true := by
  have array : Real8.sameNumbers (reducedArray step) (reducedArray step) = true := by
    refine Real8.sameNumbers_self fun x mem => ?_
    obtain ⟨i, -, rfl⟩ := List.mem_map.1 mem
    exact Real8.isNumber_ofQuotient _ _
  have real4 := (Real4.isNumber_ofQuotient step.toNat 2).sameNumber
  have real8 := (Real8.isNumber_ofQuotient step.toNat 4).negate.sameNumber
  have re4 := (Real4.isNumber_ofQuotient step.toNat 1).sameNumber
  have im4 := (Real4.isNumber_ofQuotient 3 2).negate.sameNumber
  have re8 := (Real8.isNumber_ofQuotient 1 8).sameNumber
  have im8 := (Real8.isNumber_ofQuotient step.toNat 1).sameNumber
  simp only [agrees, reduced, complete, array, real4, real8, re4, im4, re8, im8, decide_true,
    Bool.and_true]

end StepValues

/-- A snapshot agrees with itself. -/
lemma Snapshot.agrees_ofStep (first : UInt64) : (ofStep first).agrees (ofStep first) = true := by
  have state : Real8.sameNumbers (ofStep first).state (ofStep first).state = true := by
    refine Real8.sameNumbers_self ?_
    simp only [ofStep, List.forall_mem_cons, List.not_mem_nil, false_imp_iff, implies_true,
      and_true]
    exact ⟨Real8.isNumber_ofQuotient _ _, Real8.isNumber_ofQuotient _ _,
      Real8.isNumber_ofQuotient _ _⟩
  rw [agrees, state, decide_eq_true rfl]
  rfl

end AdjointTape

import AdjointTape.Numeral.Padding
import Mathlib.Tactic.Common

/-!
# Reading texts back

A number in a text is digits and nothing else, also where it is filled up with zeros, and can be
read back.  What stands before the first place of a character that separates can be told from what
stands behind it, and so can the texts that are joined with a separator they do not contain.
-/

namespace AdjointTape

/-! ## Numbers -/

/-- A number is written by its decimal digits. -/
lemma toList_number (n : Nat) : (toString n).toList = Nat.toDigits 10 n := by
  rw [Nat.toString_eq_ofList_toDigits, String.toList_ofList]

/-- A padded text has the filling first. -/
lemma toList_padLeft (width : Nat) (fill : Char) (text : String) :
    (padLeft width fill text).toList =
      List.replicate (width - text.length) fill ++ text.toList := by
  rw [padLeft, String.toList_append, String.toList_ofList]

/-- A number is written with digits only. -/
lemma isDigit_of_mem_number {n : Nat} {c : Char} (mem : c ∈ (toString n).toList) :
    c.isDigit = true := by
  rw [toList_number] at mem
  exact Nat.isDigit_of_mem_toDigits (by decide) (by decide) mem

/-- A padded number is written with digits only. -/
lemma isDigit_of_mem_padded {width n : Nat} {c : Char}
    (mem : c ∈ (padLeft width '0' (toString n)).toList) : c.isDigit = true := by
  rw [toList_padLeft] at mem
  obtain fill | digit := List.mem_append.1 mem
  · rw [List.eq_of_mem_replicate fill]
    rfl
  · exact isDigit_of_mem_number digit

/-- Leading zeros do not count. -/
lemma ofDigitChars_padded (width n : Nat) :
    Nat.ofDigitChars 10 (padLeft width '0' (toString n)).toList 0 = n := by
  rw [toList_padLeft, Nat.ofDigitChars_append, Nat.ofDigitChars_replicate_zero, Nat.mul_zero,
    toList_number, Nat.ofDigitChars_ten_toDigits]

/-- A padded number tells which one it is. -/
lemma padded_inj {width m n : Nat}
    (same : (padLeft width '0' (toString m)).toList = (padLeft width '0' (toString n)).toList) :
    m = n := by
  rw [← ofDigitChars_padded width m, same, ofDigitChars_padded]

/-- A written number tells which one it is. -/
lemma number_inj {m n : Nat} (same : (toString m).toList = (toString n).toList) : m = n := by
  rw [toList_number, toList_number] at same
  rw [← Nat.ofDigitChars_ten_toDigits (n := m), same, Nat.ofDigitChars_ten_toDigits]

/-- The digits of a byte, the higher one first. -/
lemma toList_hexText (byte : UInt8) :
    (hexText 2 byte.toNat).toList =
      [Nat.digitChar (byte.toNat / 16), Nat.digitChar (byte.toNat % 16)] := by
  have small := byte.toNat_lt
  rw [hexText, toList_padLeft, String.length_ofList, String.toList_ofList,
    Nat.toDigits_eq_if (by decide)]
  split
  case isTrue one => rw [Nat.div_eq_of_lt one, Nat.mod_eq_of_lt one]; rfl
  case isFalse two =>
    rw [Nat.toDigits_of_lt_base (show byte.toNat / 16 < 16 by omega)]
    rfl

/-! ## Separators -/

section Separators

variable {x y z w sep : List Char} {c : Char}

/-- What stands before the first place of a character, and what stands behind it. -/
lemma append_cons_inj (before : c ∉ x) (before' : c ∉ y) (same : x ++ c :: z = y ++ c :: w) :
    x = y ∧ z = w := by
  obtain ⟨more, rfl, rest⟩ | ⟨more, rfl, rest⟩ := List.append_eq_append_iff.1 same
  · cases more with
    | nil => exact ⟨(List.append_nil x).symm, (List.cons.inj rest).2⟩
    | cons d more =>
      obtain ⟨rfl, -⟩ := List.cons.inj rest
      exact absurd (List.mem_append_right x List.mem_cons_self) before'
  · cases more with
    | nil => exact ⟨List.append_nil y, (List.cons.inj rest).2.symm⟩
    | cons d more =>
      obtain ⟨rfl, -⟩ := List.cons.inj rest
      exact absurd (List.mem_append_right y List.mem_cons_self) before

/-- Joined texts are the first one and every other one behind a separator. -/
lemma intercalate_cons (ys : List (List Char)) :
    sep.intercalate (x :: ys) = x ++ ys.flatMap (sep ++ ·) := by
  induction ys generalizing x with
  | nil => rw [List.intercalate_singleton, List.flatMap_nil, List.append_nil]
  | cons y ys ih =>
    rw [List.intercalate_cons_cons, ih, List.flatMap_cons, List.append_assoc, List.append_assoc]

/-- Joined texts are those before one of them, that one and those behind it. -/
lemma intercalate_append_cons (xs ys : List (List Char)) :
    sep.intercalate (xs ++ x :: ys) =
      xs.flatMap (· ++ sep) ++ x ++ ys.flatMap (sep ++ ·) := by
  induction xs with
  | nil => exact intercalate_cons ys
  | cons y xs ih =>
    have some : xs ++ x :: ys ≠ [] := List.append_ne_nil_of_right_ne_nil _ (List.cons_ne_nil _ _)
    rw [List.cons_append, List.intercalate_cons_of_ne_nil some, ih, List.flatMap_cons]
    simp only [List.append_assoc]

/-- Texts that are joined by what they do not contain. -/
lemma intercalate_inj {xs ys : List (List Char)} (some : xs ≠ []) (some' : ys ≠ [])
    (clear : ∀ x ∈ xs, c ∉ x) (clear' : ∀ y ∈ ys, c ∉ y)
    (same : (c :: sep).intercalate xs = (c :: sep).intercalate ys) : xs = ys := by
  induction xs generalizing ys with
  | nil => exact absurd rfl some
  | cons x xs ih =>
    cases ys with
    | nil => exact absurd rfl some'
    | cons y ys =>
      have first := clear x List.mem_cons_self
      have first' := clear' y List.mem_cons_self
      cases xs with
      | nil =>
        cases ys with
        | nil =>
          rw [List.intercalate_singleton, List.intercalate_singleton] at same
          rw [same]
        | cons y' ys =>
          rw [List.intercalate_singleton, List.intercalate_cons_cons] at same
          exact absurd (by simp [same]) first
      | cons x' xs =>
        cases ys with
        | nil =>
          rw [List.intercalate_singleton, List.intercalate_cons_cons] at same
          exact absurd (by simp [← same]) first'
        | cons y' ys =>
          rw [List.intercalate_cons_cons, List.intercalate_cons_cons, List.append_assoc,
            List.append_assoc, List.cons_append, List.cons_append] at same
          obtain ⟨rfl, rest⟩ := append_cons_inj first first' same
          rw [ih (List.cons_ne_nil _ _) (List.cons_ne_nil _ _)
            (fun x mem => clear x (List.mem_cons_of_mem _ mem))
            (fun y mem => clear' y (List.mem_cons_of_mem _ mem)) (List.append_cancel_left rest)]

end Separators

end AdjointTape

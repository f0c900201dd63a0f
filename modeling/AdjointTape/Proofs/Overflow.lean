import AdjointTape.Overflow
import Mathlib.Tactic.Common

/-!
# What is left of a computation where results leave their range

A program that goes on where a result leaves its range computes the same from the same words; one
that is built to stop computes that as well, or it has been stopped.
-/

namespace AdjointTape.Overflow

variable {α β : Type} {o : Overflow}

/-- Computations that all give a value. -/
lemma mapM_ok {f : α → Except Stop β} {g : α → β} {xs : List α}
    (each : ∀ x ∈ xs, f x = .ok (g x)) : xs.mapM f = .ok (xs.map g) := by
  induction xs with
  | nil => rfl
  | cons x rest ih =>
    obtain ⟨first, others⟩ := List.forall_mem_cons.1 each
    rw [List.mapM_cons, first, ih others]
    rfl

/-- Computations that give a value up to the first one that is stopped. -/
lemma mapM_append_error {f : α → Except Stop β} {g : α → β} {xs : List α} {y : α} {cause : Stop}
    (each : ∀ x ∈ xs, f x = .ok (g x)) (stopped : f y = .error cause) (ys : List α) :
    (xs ++ y :: ys).mapM f = .error cause := by
  rw [List.mapM_append, mapM_ok each, List.mapM_cons, stopped]
  rfl

/-- A computation that gives a value, unless the program is built to stop and has been stopped. -/
def Settles (o : Overflow) (x : Except Stop α) (a : α) : Prop :=
  x = .ok a ∨ o = .stops ∧ ∃ cause, x = .error cause

/-- A result settles to what is left of it. -/
lemma settles (o : Overflow) (fits : Bool) (cause : Stop) (reduced : α) :
    o.Settles (o.settle fits cause reduced) reduced := by
  cases o with
  | wraps => exact .inl rfl
  | stops =>
    cases fits with
    | false => exact .inr ⟨rfl, cause, rfl⟩
    | true => exact .inl rfl

/-- A result in its range is not lost. -/
lemma settle_of_fits {fits : Bool} (within : fits = true) (cause : Stop) (reduced : α) :
    o.settle fits cause reduced = .ok reduced := by
  rw [within]
  cases o <;> rfl

/-- A program that is built to stop does so at a result out of range. -/
lemma settle_of_not_fits {fits : Bool} (beyond : fits = false) (cause : Stop) (reduced : α) :
    stops.settle fits cause reduced = .error cause := by
  rw [beyond]
  rfl

namespace Settles

variable {x : Except Stop α} {a : α}

/-- A value that is at hand. -/
lemma ret (a : α) : o.Settles (pure a) a := .inl rfl

/-- One computation behind another one. -/
lemma bind {f : α → Except Stop β} {b : β} (first : o.Settles x a) (next : o.Settles (f a) b) :
    o.Settles (x >>= f) b := by
  obtain rfl | ⟨stops, cause, rfl⟩ := first
  · exact next
  · exact .inr ⟨stops, cause, rfl⟩

/-- A computation for each element of a list. -/
lemma mapM {f : α → Except Stop β} {g : α → β} {xs : List α}
    (each : ∀ x ∈ xs, o.Settles (f x) (g x)) : o.Settles (xs.mapM f) (xs.map g) := by
  induction xs with
  | nil => exact .ret []
  | cons x rest ih =>
    rw [List.mapM_cons]
    obtain ⟨first, others⟩ := List.forall_mem_cons.1 each
    exact first.bind ((ih others).bind (.ret _))

/-- What a computation gives is what it settles to. -/
lemma eq_of_ok {b : α} (settles : o.Settles x a) (given : x = .ok b) : b = a := by
  obtain rfl | ⟨-, cause, rfl⟩ := settles
  · exact (Except.ok.inj given).symm
  · cases given

/-- A program that goes on is never stopped. -/
lemma wraps (settles : Overflow.wraps.Settles x a) : x = .ok a := by
  obtain given | ⟨stops, -⟩ := settles
  · exact given
  · cases stops

end Settles

/-! ## Sums -/

variable {a b : UInt64}

/-- A sum of words settles to what is left of it. -/
lemma add_settles (o : Overflow) (a b : UInt64) : o.Settles (o.add a b) (a + b) := o.settles _ _ _

/-- A sum in the range of a word. -/
lemma add_of_lt (fits : a.toNat + b.toNat < wordLimit) : o.add a b = .ok (a + b) :=
  settle_of_fits (decide_eq_true fits) _ _

/-- A sum out of range stops a program that is built to stop. -/
lemma add_of_le (beyond : wordLimit ≤ a.toNat + b.toNat) : stops.add a b = .error .sum :=
  settle_of_not_fits (decide_eq_false (Nat.not_lt_of_le beyond)) _ _

/-- A sum that a program stops at is out of range. -/
lemma stops_of_add {cause : Stop} (stopped : o.add a b = .error cause) :
    o = .stops ∧ cause = .sum ∧ wordLimit ≤ a.toNat + b.toNat := by
  by_cases fits : a.toNat + b.toNat < wordLimit
  case pos =>
    rw [add_of_lt fits] at stopped
    cases stopped
  case neg =>
    cases o with
    | wraps => cases stopped
    | stops =>
      rw [add_of_le (Nat.le_of_not_lt fits)] at stopped
      cases stopped
      exact ⟨rfl, rfl, Nat.le_of_not_lt fits⟩

end AdjointTape.Overflow

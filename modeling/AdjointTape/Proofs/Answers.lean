import AdjointTape.Proofs.Action
import AdjointTape.Proofs.Overflow
import AdjointTape.Sweep.Schedule

/-!
# Calls that answer

What a call answers from every state with a property, and the property of the state it leaves, as
long as memory does not run out.  A program is put together from its calls: one behind the other,
and in loops whose invariant counts the rounds.  Where a program is built to stop at results that
leave their range, it may be broken off for that as well.
-/

namespace AdjointTape.Action

variable {σ α β : Type} {P Q R : σ → Prop} {x : Action σ α} {a : α} {b : β}

/-- A loop passes the state of a call on by hand, which is what a bind does. -/
lemma eq_bind {y : Action σ β} {f : α → Action σ β}
    (ok : ∀ s a s', x s = .ok a s' → y s = f a s')
    (error : ∀ s e s', x s = .error e s' → y s = .error e s') : y = x >>= f := by
  funext s
  cases run : x s with
  | ok a s' => exact (ok s a s' run).trans (bind_ok run).symm
  | error e s' => exact (error s e s' run).trans (bind_error run).symm

/-- A loop over a list does the first element and then the others. -/
lemma each_cons {γ : Type} (call : γ → Action σ Unit) (c : γ) (rest : List γ) :
    each call (c :: rest) = call c >>= fun _ => each call rest :=
  eq_bind (fun s a s' run => by simp only [each, run]) fun s e s' run => by simp only [each, run]

/-- A loop in ascending order begins with the first step. -/
lemma ascending_succ (call : UInt64 → Action σ Unit) (count : Nat) (first : UInt64) :
    ascending call (count + 1) first = call first >>= fun _ => ascending call count (first + 1) :=
  eq_bind (fun s a s' run => by simp only [ascending, run]) fun s e s' run => by
    simp only [ascending, run]

/-- A loop in descending order begins with the last step. -/
lemma descending_succ (call : UInt64 → Action σ Unit) (count : Nat) (first : UInt64) :
    descending call (count + 1) first =
      call (first + .ofNat count) >>= fun _ => descending call count first :=
  eq_bind (fun s a s' run => by simp only [descending, run]) fun s e s' run => by
    simp only [descending, run]

/-- From a state with the first property a call gives this answer and leaves a state with the second
one, unless memory runs out. -/
def Answers (P : σ → Prop) (call : Action σ α) (a : α) (Q : σ → Prop) : Prop :=
  ∀ s, P s → ranOut (outcome (call s)) = false → ∃ s', call s = .ok a s' ∧ Q s'

namespace Answers

/-- An answer that is at hand. -/
lemma ret (a : α) : Answers P (pure a) a P := fun s h _ => ⟨s, rfl, h⟩

/-- One call behind another one. -/
lemma seq {f : α → Action σ β} (hx : Answers P x a Q) (hf : Answers Q (f a) b R) :
    Answers P (x >>= f) b R := by
  intro s start room
  obtain ⟨s1, run, between⟩ := hx s start (ranOut_first room)
  rw [bind_ok run] at room ⊢
  exact hf s1 between room

/-- The answer is known from what is made of it. -/
lemma of_answer {g : α → β} (h : Answers P (x >>= fun a => pure (g a)) (g a) Q)
    (inj : Function.Injective g) : Answers P x a Q := by
  intro s start room
  cases run : x s with
  | ok a' s1 =>
    obtain ⟨s2, run', last⟩ := h s start (by rw [bind_ok run]; rfl)
    rw [bind_ok run, pure_apply] at run'
    obtain ⟨same, rfl⟩ := EStateM.Result.ok.inj run'
    obtain rfl := inj same
    exact ⟨s1, rfl, last⟩
  | error e s1 =>
    rw [run] at room
    obtain ⟨s2, run', -⟩ := h s start (by rw [bind_error run]; cases e <;> exact room)
    rw [bind_error run] at run'
    cases run'

end Answers

/-! ## Programs -/

/-- The ways in which a program may be broken off: memory runs out, or it is built to stop where a
result leaves its range and does so. -/
inductive BrokenOff (o : Overflow) : Failure → Prop where
  | memory (blocks blockSize : Nat) : BrokenOff o (.outOfMemory blocks blockSize)
  | stopped (stops : o = .stops) (cause : Stop) : BrokenOff o (.stopped cause)

/-- From a state with the first property a program gives this answer and leaves a state with the
second one, or it is broken off. -/
def Yields (o : Overflow) (P : σ → Prop) (program : Action σ α) (a : α) (Q : σ → Prop) : Prop :=
  ∀ s, P s → (∃ s', program s = .ok a s' ∧ Q s') ∨
    ∃ e s', program s = .error e s' ∧ BrokenOff o e

variable {o : Overflow}

/-- A call that answers unless memory runs out is a program. -/
lemma Answers.yields (h : Answers P x a Q) : Yields o P x a Q := by
  intro s start
  cases room : ranOut (outcome (x s)) with
  | true =>
    obtain ⟨blocks, blockSize, full⟩ := error_of_ranOut room
    exact .inr ⟨_, after (x s), full, .memory blocks blockSize⟩
  | false => exact .inl (h s start room)

namespace Yields

/-- An answer that is at hand. -/
lemma ret (a : α) : Yields o P (pure a) a P := fun s h => .inl ⟨s, rfl, h⟩

/-- A change of the state. -/
lemma update {f : σ → σ} (h : ∀ s, P s → Q (f s)) : Yields o P (Action.update f) () Q :=
  fun s start => .inl ⟨f s, rfl, h s start⟩

/-- A result that the program goes on with. -/
lemma orStop {x : Except Stop α} (settles : o.Settles x a) :
    Yields o P (Action.orStop x) a P := by
  intro s start
  obtain rfl | ⟨stops, cause, rfl⟩ := settles
  · exact .inl ⟨s, rfl, start⟩
  · exact .inr ⟨_, s, rfl, .stopped stops cause⟩

/-- One program behind another one. -/
lemma seq {f : α → Action σ β} (hx : Yields o P x a Q) (hf : Yields o Q (f a) b R) :
    Yields o P (x >>= f) b R := by
  intro s start
  obtain ⟨s1, run, between⟩ | ⟨e, s1, run, broken⟩ := hx s start
  · rw [bind_ok run]
    exact hf s1 between
  · exact .inr ⟨e, s1, bind_error run, broken⟩

/-! ### Loops -/

/-- A loop over no elements. -/
lemma each_nil {γ : Type} (call : γ → Action σ Unit) : Yields o P (each call []) () P :=
  .ret ()

/-- A loop does its first element and then the others. -/
lemma each_cons {γ : Type} {call : γ → Action σ Unit} {c : γ} {rest : List γ}
    (first : Yields o P (call c) () Q) (others : Yields o Q (each call rest) () R) :
    Yields o P (each call (c :: rest)) () R := by
  rw [Action.each_cons]
  exact first.seq others

/-- The invariant counts the rounds that are done. -/
lemma ascending {call : UInt64 → Action σ Unit} (inv : Nat → σ → Prop) (count : Nat)
    (first : UInt64)
    (round : ∀ i < count, Yields o (inv i) (call (first + .ofNat i)) () (inv (i + 1))) :
    Yields o (inv 0) (Action.ascending call count first) () (inv count) := by
  induction count generalizing inv first with
  | zero => exact .ret ()
  | succ count ih =>
    have start := round 0 (Nat.zero_lt_succ _)
    rw [show first + .ofNat 0 = first from UInt64.add_zero first] at start
    rw [ascending_succ]
    refine start.seq (ih (fun i => inv (i + 1)) (first + 1) fun i lt => ?_)
    have next := round (i + 1) (Nat.succ_lt_succ lt)
    rw [UInt64.ofNat_add, UInt64.add_comm (.ofNat i), ← UInt64.add_assoc] at next
    exact next

end Yields

/-! ## Programs that end only under a condition -/

/-- A program that does not end unless the condition holds. -/
def Needs (condition : Prop) (program : Action σ α) : Prop :=
  ∀ s a s', program s = .ok a s' → condition

namespace Needs

variable {condition : Prop}

/-- A program ends only if its first part does. -/
lemma first (h : Needs condition x) (f : α → Action σ β) : Needs condition (x >>= f) := by
  intro s b s' run
  obtain ⟨a, s1, start, -⟩ := of_bind_ok run
  exact h s a s1 start

/-- A program ends only if what comes behind its first part does. -/
lemma behind {f : α → Action σ β} (h : ∀ a, Needs condition (f a)) : Needs condition (x >>= f) := by
  intro s b s' run
  obtain ⟨a, s1, -, last⟩ := of_bind_ok run
  exact h a s1 b s' last

/-- A result that the program is not stopped at. -/
lemma orStop (x : Except Stop α) : Needs (σ := σ) (∃ a, x = .ok a) (Action.orStop x) := by
  intro s a s' run
  cases x with
  | ok a => exact ⟨a, rfl⟩
  | error cause => cases run

/-- A loop ends only if each of its elements does. -/
lemma each {γ : Type} {call : γ → Action σ Unit} {c : γ} (h : Needs condition (call c)) :
    ∀ {cs : List γ}, c ∈ cs → Needs condition (Action.each call cs)
  | _, .head rest => by
    rw [Action.each_cons]
    exact h.first _
  | _, .tail _ mem => by
    rw [Action.each_cons]
    exact behind fun _ => each h mem

/-- A loop in ascending order ends only if each of its rounds does. -/
lemma ascending {call : UInt64 → Action σ Unit} {first : UInt64} {i count : Nat}
    (h : Needs condition (call (first + .ofNat i))) (inside : i < count) :
    Needs condition (Action.ascending call count first) := by
  induction count generalizing first i with
  | zero => exact absurd inside (Nat.not_lt_zero i)
  | succ count ih =>
    rw [ascending_succ]
    cases i with
    | zero =>
      rw [show first + .ofNat 0 = first from UInt64.add_zero first] at h
      exact h.first _
    | succ i =>
      rw [UInt64.ofNat_add, UInt64.add_comm (.ofNat i), ← UInt64.add_assoc] at h
      exact behind fun _ => ih h (Nat.lt_of_succ_lt_succ inside)

end Needs

end AdjointTape.Action

import AdjointTape.Failure
import Mathlib.Tactic.Common

/-!
# Calls seen through a view

A view shows the state of a machine as the state of another one.  A call commutes with a call of the
other machine when both answer the same and leave states that the view still relates; commuting
calls can be put one behind the other, so a program commutes as soon as its smallest steps do.
-/

namespace AdjointTape.Action

variable {σ τ υ α β : Type}

/-- A result with its state seen through a view. -/
def through (view : σ → τ) : EStateM.Result Failure σ α → EStateM.Result Failure τ α
  | .ok a s => .ok a (view s)
  | .error e s => .error e (view s)

/-- The view of an answer. -/
@[simp]
lemma through_ok (view : σ → τ) (a : α) (s : σ) : through view (.ok a s) = .ok a (view s) := rfl

/-- The view of a failure. -/
@[simp]
lemma through_error (view : σ → τ) (e : Failure) (s : σ) :
    through (α := α) view (.error e s) = .error e (view s) := rfl

/-- A view does not change what a call answers. -/
@[simp]
lemma outcome_through (view : σ → τ) (r : EStateM.Result Failure σ α) :
    outcome (through view r) = outcome r := by
  cases r <;> rfl

/-- A view shows the state that a call leaves. -/
@[simp]
lemma after_through (view : σ → τ) (r : EStateM.Result Failure σ α) :
    after (through view r) = view (after r) := by
  cases r <;> rfl

/-- Behind an answer seen through a view stands the same answer. -/
lemma of_through_ok {view : σ → τ} {r : EStateM.Result Failure σ α} {a : α} {t : τ}
    (h : through view r = .ok a t) : ∃ s, r = .ok a s ∧ view s = t := by
  cases r with
  | ok b s =>
    obtain ⟨rfl, e⟩ := EStateM.Result.ok.inj h
    exact ⟨s, rfl, e⟩
  | error e s => cases h

/-- Behind a failure seen through a view stands the same failure. -/
lemma of_through_error {view : σ → τ} {r : EStateM.Result Failure σ α} {e : Failure} {t : τ}
    (h : through view r = .error e t) : ∃ s, r = .error e s ∧ view s = t := by
  cases r with
  | ok a s => cases h
  | error e' s =>
    obtain ⟨rfl, same⟩ := EStateM.Result.error.inj h
    exact ⟨s, rfl, same⟩

/-- Behind an answer comes what is made of it. -/
lemma bind_ok {x : Action σ α} {f : α → Action σ β} {s s' : σ} {a : α} (h : x s = .ok a s') :
    (x >>= f) s = f a s' := by
  simp [bind, EStateM.bind, h]

/-- Behind a failure comes nothing. -/
lemma bind_error {x : Action σ α} {f : α → Action σ β} {s s' : σ} {e : Failure}
    (h : x s = .error e s') : (x >>= f) s = .error e s' := by
  simp [bind, EStateM.bind, h]

/-- An answer is not caught. -/
lemma tryCatch_ok {x : Action σ α} {f : Failure → Action σ α} {s s' : σ} {a : α}
    (h : x s = .ok a s') : tryCatch x f s = .ok a s' := by
  simp [tryCatch, tryCatchThe, MonadExceptOf.tryCatch, EStateM.tryCatch, h]

/-- A failure is handled in the state it left. -/
lemma tryCatch_error {x : Action σ α} {f : Failure → Action σ α} {s s' : σ} {e : Failure}
    (h : x s = .error e s') : tryCatch x f s = f e s' := by
  simp only [tryCatch, tryCatchThe, MonadExceptOf.tryCatch, EStateM.tryCatch, h]
  rfl

/-- A call that is seen to succeed answers. -/
lemma ok_of_toBool {x : Action σ α} {s : σ} (succeeds : (outcome (x s)).toBool = true) :
    ∃ a s', x s = .ok a s' := by
  cases run : x s with
  | ok a s' => exact ⟨a, s', rfl⟩
  | error e s' =>
    rw [run] at succeeds
    cases succeeds

/-- The state that a call leaves when it answers. -/
lemma after_ok {x : Action σ α} {s s' : σ} {a : α} (h : x s = .ok a s') : after (x s) = s' := by
  rw [h]
  rfl

/-- The form of the answer does not matter to the state that is left. -/
lemma after_answer (x : Action σ α) (g : α → β) (s : σ) :
    after ((x >>= fun a => pure (g a)) s) = after (x s) := by
  cases r : x s with
  | ok a s' =>
    rw [bind_ok r]
    rfl
  | error e s' =>
    rw [bind_error r]
    rfl

/-- Both parts of a program that answers do. -/
lemma of_bind_ok {x : Action σ α} {f : α → Action σ β} {s s'' : σ} {b : β}
    (run : (x >>= f) s = .ok b s'') : ∃ a s', x s = .ok a s' ∧ f a s' = .ok b s'' := by
  cases first : x s with
  | ok a s' => exact ⟨a, s', rfl, (bind_ok first).symm.trans run⟩
  | error e s' =>
    rw [bind_error first] at run
    cases run

/-- A program fails in its first part or behind it. -/
lemma of_bind_error {x : Action σ α} {f : α → Action σ β} {s s'' : σ} {e : Failure}
    (run : (x >>= f) s = .error e s'') :
    x s = .error e s'' ∨ ∃ a s', x s = .ok a s' ∧ f a s' = .error e s'' := by
  cases first : x s with
  | ok a s' => exact .inr ⟨a, s', rfl, (bind_ok first).symm.trans run⟩
  | error e' s' =>
    rw [bind_error first] at run
    obtain ⟨rfl, rfl⟩ := EStateM.Result.error.inj run
    exact .inl rfl

/-- A call answers when it does so in another form. -/
lemma of_answer_ok {x : Action σ α} {g : α → β} {s s' : σ} {b : β}
    (run : (x >>= fun a => pure (g a)) s = .ok b s') : ∃ a, x s = .ok a s' ∧ g a = b := by
  obtain ⟨a, s1, first, last⟩ := of_bind_ok run
  obtain ⟨same, rfl⟩ := EStateM.Result.ok.inj last
  exact ⟨a, first, same⟩

/-- A call fails when it does so in another form. -/
lemma of_answer_error {x : Action σ α} {g : α → β} {s s' : σ} {e : Failure}
    (run : (x >>= fun a => pure (g a)) s = .error e s') : x s = .error e s' := by
  obtain first | ⟨a, s1, -, last⟩ := of_bind_error run
  · exact first
  · cases last

/-- What follows a reading of the state. -/
@[simp]
lemma inspect_bind (f : σ → α) (k : α → Action σ β) (s : σ) :
    (inspect f >>= k) s = k (f s) s := rfl

/-- What follows a change of the state. -/
@[simp]
lemma update_bind (f : σ → σ) (k : Unit → Action σ β) (s : σ) :
    (update f >>= k) s = k () (f s) := rfl

/-- An answer that is at hand leaves the state alone. -/
@[simp]
lemma pure_apply (a : α) (s : σ) : (pure a : Action σ α) s = .ok a s := rfl

/-- Performs calls one after the other, failing ones included, and lists what they answer. -/
def runAll {γ : Type} (step : γ → Action σ α) : List γ → σ → List (Except Failure α) × σ
  | [], s => ([], s)
  | call :: rest, s =>
    let result := step call s
    let (answers, s') := runAll step rest (after result)
    (outcome result :: answers, s')

/-- No calls are done at once. -/
@[simp]
lemma runAll_nil {γ : Type} (step : γ → Action σ α) (s : σ) : runAll step [] s = ([], s) := rfl

/-- The first call is done, whatever it answers, and then the others. -/
lemma runAll_cons {γ : Type} (step : γ → Action σ α) (call : γ) (rest : List γ) (s : σ) :
    runAll step (call :: rest) s =
      (outcome (step call s) :: (runAll step rest (after (step call s))).1,
        (runAll step rest (after (step call s))).2) := rfl

/-- After a first call that succeeds come the others. -/
lemma runAll_cons_ok {γ : Type} {step : γ → Action σ α} {call : γ} {s s' : σ} {a : α}
    (run : step call s = .ok a s') (rest : List γ) :
    runAll step (call :: rest) s = (.ok a :: (runAll step rest s').1, (runAll step rest s').2) := by
  rw [runAll_cons, run]
  rfl

/-- A list of calls is done after another one. -/
lemma runAll_append {γ : Type} (step : γ → Action σ α) (xs ys : List γ) (s : σ) :
    runAll step (xs ++ ys) s =
      ((runAll step xs s).1 ++ (runAll step ys (runAll step xs s).2).1,
        (runAll step ys (runAll step xs s).2).2) := by
  induction xs generalizing s with
  | nil => rfl
  | cons x xs ih => rw [List.cons_append, runAll_cons, ih, runAll_cons, List.cons_append]

/-- Every call has an answer. -/
@[simp]
lemma length_runAll {γ : Type} (step : γ → Action σ α) (calls : List γ) (s : σ) :
    (runAll step calls s).1.length = calls.length := by
  induction calls generalizing s with
  | nil => rfl
  | cons call rest ih => rw [runAll_cons, List.length_cons, ih, List.length_cons]

/-- A call and a call of another machine that answer the same and leave states a view relates, as
long as an invariant holds; the call keeps the invariant. -/
def Commutes (inv : σ → Prop) (view : σ → τ) (call : Action σ α) (call' : Action τ α) : Prop :=
  ∀ s, inv s → inv (after (call s)) ∧ through view (call s) = call' (view s)

namespace Commutes

variable {inv : σ → Prop} {view : σ → τ}

/-- Answers that are at hand commute. -/
lemma ret (a : α) : Commutes inv view (pure a) (pure a) := fun _ h => ⟨h, rfl⟩

/-- One commuting call behind another one commutes. -/
lemma seq {x : Action σ α} {x' : Action τ α} {f : α → Action σ β} {f' : α → Action τ β}
    (hx : Commutes inv view x x') (hf : ∀ a, Commutes inv view (f a) (f' a)) :
    Commutes inv view (x >>= f) (x' >>= f') := by
  intro s h
  obtain ⟨h1, e1⟩ := hx s h
  cases r : x s with
  | ok a s1 =>
    rw [r] at h1 e1
    rw [bind_ok r, bind_ok e1.symm]
    exact hf a s1 h1
  | error e s1 =>
    rw [r] at h1 e1
    rw [bind_error r, bind_error e1.symm]
    exact ⟨h1, rfl⟩

/-- Runs of commuting calls answer the same, call by call. -/
lemma all {γ : Type} {step : γ → Action σ α} {step' : γ → Action τ α}
    (commutes : ∀ call, Commutes inv view (step call) (step' call)) (calls : List γ) {s : σ}
    (h : inv s) :
    inv (runAll step calls s).2 ∧ (runAll step calls s).1 = (runAll step' calls (view s)).1 ∧
      view (runAll step calls s).2 = (runAll step' calls (view s)).2 := by
  induction calls generalizing s with
  | nil => exact ⟨h, rfl, rfl⟩
  | cons call rest ih =>
    obtain ⟨h1, e⟩ := commutes call s h
    obtain ⟨h2, answers, states⟩ := ih h1
    have first : outcome (step call s) = outcome (step' call (view s)) := by
      rw [← e, outcome_through]
    have left : view (after (step call s)) = after (step' call (view s)) := by
      rw [← e, after_through]
    rw [runAll_cons, runAll_cons, first, answers, states, left]
    exact ⟨h2, rfl, rfl⟩

/-- A call that the other machine answers on the view of a state is answered on the state. -/
lemma back {x : Action σ α} {x' : Action τ α} (commutes : Commutes inv view x x') {s : σ}
    (h : inv s) {a : α} {t : τ} (run : x' (view s) = .ok a t) :
    ∃ s', x s = .ok a s' ∧ inv s' ∧ view s' = t := by
  obtain ⟨h1, same⟩ := commutes s h
  obtain ⟨s', run', e⟩ := of_through_ok (same.trans run)
  exact ⟨s', run', after_ok run' ▸ h1, e⟩

/-- A run of the other machine on the view of a state is a run on the state. -/
lemma back_all {γ : Type} {step : γ → Action σ α} {step' : γ → Action τ α}
    (commutes : ∀ call, Commutes inv view (step call) (step' call)) {calls : List γ} {s : σ}
    (h : inv s) {answers : List (Except Failure α)} {t : τ}
    (run : runAll step' calls (view s) = (answers, t)) :
    ∃ s', runAll step calls s = (answers, s') ∧ inv s' ∧ view s' = t := by
  obtain ⟨h1, same, e⟩ := Commutes.all commutes calls h
  rw [run] at same e
  exact ⟨_, Prod.ext same rfl, h1, e⟩

end Commutes

/-- A call that only takes steps a relation allows, whether or not it fails. -/
def Steps (R : σ → σ → Prop) (call : Action σ α) : Prop := ∀ s, R s (after (call s))

namespace Steps

variable {R : σ → σ → Prop}

/-- An answer that is at hand is no step at all. -/
lemma ret (refl : ∀ s, R s s) (a : α) : Steps R (pure a) := refl

/-- The form of the answer does not matter to a step. -/
lemma answer {x : Action σ α} (h : Steps R x) (g : α → β) :
    Steps R (x >>= fun a => pure (g a)) := by
  intro s
  rw [after_answer]
  exact h s

/-- One step behind another one, for steps that can be put together. -/
lemma seq (trans : ∀ s t u, R s t → R t u → R s u) {x : Action σ α} {f : α → Action σ β}
    (hx : Steps R x) (hf : ∀ a, Steps R (f a)) : Steps R (x >>= f) := by
  intro s
  have first := hx s
  cases r : x s with
  | ok a s1 =>
    rw [r] at first
    rw [bind_ok r]
    exact trans _ _ _ first (hf a s1)
  | error e s1 =>
    rw [r] at first
    rw [bind_error r]
    exact first

end Steps

/-- Whether an outcome is that no room was found for a block. -/
def ranOut : Except Failure α → Bool
  | .error (.outOfMemory _ _) => true
  | _ => false

/-- A call for which there is no memory says how many blocks there are. -/
lemma error_of_ranOut {x : Action σ α} {s : σ} (full : ranOut (outcome (x s)) = true) :
    ∃ blocks blockSize, x s = .error (.outOfMemory blocks blockSize) (after (x s)) := by
  cases run : x s with
  | ok a s' =>
    rw [run] at full
    cases full
  | error e s' =>
    rw [run] at full
    cases e with
    | outOfMemory blocks blockSize => exact ⟨blocks, blockSize, rfl⟩
    | _ => cases full

/-- When the first of two calls finds no room, both together find none. -/
lemma ranOut_first {x : Action σ α} {f : α → Action σ β} {s : σ}
    (room : ranOut (outcome ((x >>= f) s)) = false) : ranOut (outcome (x s)) = false := by
  cases r : x s with
  | ok a s1 => rfl
  | error e s1 =>
    rw [bind_error r] at room
    cases e <;> exact room

/-- A call that answers the same from two states that a relation relates, and leaves related states,
unless it finds no room in one of them. -/
def Parallel (R : σ → σ → Prop) (call : Action σ α) : Prop :=
  ∀ s t, R s t → ranOut (outcome (call s)) = false → ranOut (outcome (call t)) = false →
    outcome (call t) = outcome (call s) ∧ R (after (call s)) (after (call t))

namespace Parallel

variable {R : σ → σ → Prop}

/-- An answer that is at hand is the same on both sides. -/
lemma ret (a : α) : Parallel R (pure a) := fun _ _ h _ _ => ⟨rfl, h⟩

/-- A failure is the same on both sides. -/
lemma fail (e : Failure) : Parallel (α := α) R (throw e) := fun _ _ h _ _ => ⟨rfl, h⟩

/-- One parallel call behind another one is parallel. -/
lemma seq {x : Action σ α} {f : α → Action σ β} (hx : Parallel R x)
    (hf : ∀ a, Parallel R (f a)) : Parallel R (x >>= f) := by
  intro s t h roomS roomT
  obtain ⟨same, h1⟩ := hx s t h (ranOut_first roomS) (ranOut_first roomT)
  cases rs : x s with
  | ok a s1 =>
    cases rt : x t with
    | ok b t1 =>
      rw [rs, rt] at same h1
      obtain rfl := Except.ok.inj same
      rw [bind_ok rs] at roomS ⊢
      rw [bind_ok rt] at roomT ⊢
      exact hf b s1 t1 h1 roomS roomT
    | error e t1 =>
      rw [rs, rt] at same
      cases same
  | error e s1 =>
    cases rt : x t with
    | ok b t1 =>
      rw [rs, rt] at same
      cases same
    | error e' t1 =>
      rw [rs, rt] at same h1
      obtain rfl := Except.error.inj same
      rw [bind_error rs, bind_error rt]
      exact ⟨rfl, h1⟩

/-- Runs of parallel calls answer the same when every call finds room in both. -/
lemma all {γ : Type} {step : γ → Action σ α} {calls : List γ}
    (parallel : ∀ call ∈ calls, Parallel R (step call)) {s t : σ} (h : R s t)
    (roomS : ∀ o ∈ (runAll step calls s).1, ranOut o = false)
    (roomT : ∀ o ∈ (runAll step calls t).1, ranOut o = false) :
    (runAll step calls t).1 = (runAll step calls s).1 ∧
      R (runAll step calls s).2 (runAll step calls t).2 := by
  induction calls generalizing s t with
  | nil => exact ⟨rfl, h⟩
  | cons call rest ih =>
    rw [runAll_cons] at roomS roomT
    obtain ⟨first, h1⟩ := parallel call List.mem_cons_self s t h
      (roomS _ List.mem_cons_self) (roomT _ List.mem_cons_self)
    obtain ⟨others, h2⟩ := ih (fun c mem => parallel c (List.mem_cons_of_mem _ mem)) h1
      (fun o mem => roomS o (List.mem_cons_of_mem _ mem))
      (fun o mem => roomT o (List.mem_cons_of_mem _ mem))
    rw [runAll_cons, runAll_cons, first, others]
    exact ⟨rfl, h2⟩

end Parallel

/-- From states that a relation relates, the second call succeeds where the first one does, whatever
they answer, and they leave related states. -/
def Together (R : σ → σ → Prop) (x : Action σ α) (y : Action σ β) : Prop :=
  ∀ s t, R s t → ∀ a s', x s = .ok a s' → ∃ b t', y t = .ok b t' ∧ R s' t'

namespace Together

variable {R : σ → σ → Prop}

/-- Answers that are at hand leave both sides together. -/
lemma ret (a : α) (b : β) : Together R (pure a) (pure b) := by
  intro s t h a' s' run
  cases run
  exact ⟨b, t, rfl, h⟩

/-- Failures leave both sides together. -/
lemma fail (e e' : Failure) : Together (α := α) (β := β) R (throw e) (throw e') := by
  intro s t h a s' run
  cases run

/-- Calls that always succeed. -/
lemma move {answer : σ → α} {answer' : σ → β} {f g : σ → σ}
    (related : ∀ s t, R s t → R (f s) (g t)) :
    Together R (fun s => .ok (answer s) (f s)) (fun t => .ok (answer' t) (g t)) := by
  intro s t h a s' run
  obtain ⟨-, rfl⟩ := EStateM.Result.ok.inj run
  exact ⟨_, _, rfl, related s t h⟩

/-- One pair of calls behind another one leaves both sides together. -/
lemma seq {γ : Type} {δ : Type} {x : Action σ α} {y : Action σ β} {f : α → Action σ γ}
    {g : β → Action σ δ} (hx : Together R x y) (hf : ∀ a b, Together R (f a) (g b)) :
    Together R (x >>= f) (y >>= g) := by
  intro s t h c s'' run
  obtain ⟨a, s', first, next⟩ := of_bind_ok run
  obtain ⟨b, t', run', h'⟩ := hx s t h a s' first
  rw [bind_ok run']
  exact hf a b s' t' h' c s'' next

end Together

end AdjointTape.Action

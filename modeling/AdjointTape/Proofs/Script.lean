import AdjointTape.Proofs.Answers
import AdjointTape.Proofs.Numbers
import AdjointTape.Sweep.Run
import Mathlib.Algebra.BigOperators.Group.List.Basic

/-!
# Scripts

A program that reads values off the tape and goes on with them makes the same calls whatever they
are.  Its script says which calls it makes on the tape, in which order, which lines it traces and
how many steps it counts; the script of a program is put together from those of its parts.  A
program that is built to stop where a result leaves its range can only be stopped by a value of a
step, by a call of its script or by the count of the steps.
-/

open AdjointTape.Action

namespace AdjointTape

/-! ## Scripts of programs on a tape -/

/-- Calls that succeed one after the other. -/
inductive Tape.Runs : List Call → Tape → Tape → Prop where
  | nil (t : Tape) : Runs [] t t
  | cons {c : Call} {a : Answer} {calls : List Call} {t t' t'' : Tape}
    (call : c.perform t = .ok a t') (runs : Runs calls t' t'') : Runs (c :: calls) t t''

/-- A run of two lists of calls is one run behind another one. -/
lemma Tape.runs_append {calls calls' : List Call} {t t'' : Tape} :
    Tape.Runs (calls ++ calls') t t'' ↔ ∃ t', Tape.Runs calls t t' ∧ Tape.Runs calls' t' t'' := by
  constructor
  · intro runs
    induction calls generalizing t with
    | nil => exact ⟨t, .nil t, runs⟩
    | cons c calls ih =>
      obtain _ | ⟨call, runs⟩ := runs
      obtain ⟨t', first, next⟩ := ih runs
      exact ⟨t', .cons call first, next⟩
  · rintro ⟨t', first, next⟩
    induction first with
    | nil t => exact next
    | cons call _ ih => exact .cons call (ih next)

/-- Calls that succeed lead to a single tape. -/
lemma Tape.Runs.unique {calls : List Call} {t t' t'' : Tape} (runs : Runs calls t t')
    (other : Runs calls t t'') : t' = t'' := by
  induction runs with
  | nil t =>
    cases other
    rfl
  | cons call _ ih =>
    obtain _ | ⟨call', runs'⟩ := other
    obtain ⟨-, rfl⟩ := EStateM.Result.ok.inj (call.symm.trans call')
    exact ih runs'

/-- Calls of which one is stopped where a counter leaves its range, after others that succeed. -/
inductive Tape.Halts : List Call → Tape → Stop → Prop where
  | here {c : Call} {calls : List Call} {t t' : Tape} {cause : Stop}
    (stop : c.performIn .stops t = .error (.stopped cause) t') : Halts (c :: calls) t cause
  | later {c : Call} {a : Answer} {calls : List Call} {t t' : Tape} {cause : Stop}
    (call : c.perform t = .ok a t') (halts : Halts calls t' cause) : Halts (c :: calls) t cause

namespace Tape.Halts

variable {calls : List Call} {t t' : Tape} {cause : Stop}

/-- Calls that are stopped are stopped before any others behind them. -/
lemma append (halts : Halts calls t cause) (calls' : List Call) :
    Halts (calls ++ calls') t cause := by
  induction halts with
  | here stop => exact .here stop
  | later call _ ih => exact .later call ih

/-- Calls may be stopped behind others that succeed. -/
lemma behind (runs : Runs calls t t') {calls' : List Call} (halts : Halts calls' t' cause) :
    Halts (calls ++ calls') t cause := by
  induction runs with
  | nil t => exact halts
  | cons call _ ih => exact .later call (ih halts)

end Tape.Halts

namespace Call

variable {o : Overflow} {c : Call} {a : Answer} {t t' : Tape}

/-- A call that is not stopped does what it does. -/
lemma perform_of_performIn (run : c.performIn o t = .ok a t') : c.perform t = .ok a t' := by
  rw [performIn] at run
  cases first : c.perform t with
  | ok a' t1 =>
    rw [first] at run
    dsimp only at run
    split at run <;> cases run
    rfl
  | error e t1 =>
    rw [first] at run
    cases run

/-- A call that succeeds does so unless the program is stopped in it. -/
lemma performIn_of_perform (run : c.perform t = .ok a t') :
    c.performIn o t = .ok a t' ∨
      o = .stops ∧ ∃ cause, c.performIn o t = .error (.stopped cause) t' := by
  rw [performIn, run]
  dsimp only
  split
  case h_1 cause _ => exact .inr ⟨rfl, cause, rfl⟩
  case h_2 => exact .inl rfl

/-- A program that is stopped in a call is one that is built to stop, or the call itself stops. -/
lemma performIn_stops {cause : Stop} (run : c.performIn o t = .error (.stopped cause) t') :
    c.performIn .stops t = .error (.stopped cause) t' := by
  cases o with
  | stops => exact run
  | wraps =>
    rw [performIn] at run ⊢
    cases first : c.perform t with
    | ok a' t1 =>
      rw [first] at run
      cases run
    | error e t1 =>
      rw [first] at run
      exact run

end Call

/-- A program on a tape that consists of these calls: it leaves what they leave, succeeds when they
do unless it is stopped, and is stopped only in one of them. -/
structure Tape.Makes {α : Type} (o : Overflow) (x : Action Tape α) (calls : List Call) : Prop where
  ok {t t' : Tape} {a : α} (run : x t = .ok a t') : Tape.Runs calls t t'
  runs {t t' : Tape} (runs : Tape.Runs calls t t') :
    (∃ a, x t = .ok a t') ∨ o = .stops ∧ ∃ cause t'', x t = .error (.stopped cause) t''
  halts {t t' : Tape} {cause : Stop} (run : x t = .error (.stopped cause) t') :
    Tape.Halts calls t cause

namespace Tape.Makes

variable {α β : Type} {o : Overflow} {x : Action Tape α} {calls calls' : List Call}

/-- An answer that is at hand makes no call. -/
lemma ret (a : α) : Makes o (pure a) [] where
  ok {t t' a'} run := by
    cases run
    exact .nil t
  runs runs := by
    cases runs
    exact .inl ⟨a, rfl⟩
  halts run := by cases run

/-- One program behind another one makes the calls of both. -/
lemma seq {f : α → Action Tape β} (hx : Makes o x calls) (hf : ∀ a, Makes o (f a) calls') :
    Makes o (x >>= f) (calls ++ calls') where
  ok run := by
    obtain ⟨a, t', first, next⟩ := of_bind_ok run
    exact runs_append.2 ⟨t', hx.ok first, (hf a).ok next⟩
  runs runs := by
    obtain ⟨t', runs, runs'⟩ := runs_append.1 runs
    obtain ⟨a, first⟩ | ⟨stops, cause, t'', first⟩ := hx.runs runs
    · rw [bind_ok first]
      exact (hf a).runs runs'
    · exact .inr ⟨stops, cause, t'', bind_error first⟩
  halts run := by
    obtain first | ⟨a, t', first, next⟩ := of_bind_error run
    · exact (hx.halts first).append calls'
    · exact .behind (hx.ok first) ((hf a).halts next)

/-- A program that a call consists of but for the form of its answer. -/
lemma call {c : Call} {g : α → Answer} (performs : c.perform = x >>= fun a => pure (g a)) :
    Makes o x [c] where
  ok {t t' a} run := .cons (by rw [performs, bind_ok run]; rfl) (.nil t')
  runs := by
    rintro t t' (_ | ⟨call, _ | _⟩)
    rw [performs] at call
    obtain ⟨a, run, -⟩ := of_answer_ok call
    exact .inl ⟨a, run⟩
  halts {t t' cause} run := by
    have failed : c.perform t = .error (.stopped cause) t' := by rw [performs, bind_error run]
    exact .here (by rw [Call.performIn, failed])

/-- A call that is performed for what it does. -/
lemma carryOut (c : Call) : Makes o (c.carryOut o) [c] where
  ok {t t' a} run := by
    obtain ⟨answer, run, -⟩ := of_answer_ok run
    exact .cons (Call.perform_of_performIn run) (.nil t')
  runs := by
    rintro t t' (_ | ⟨call, _ | _⟩)
    obtain run | ⟨stops, cause, run⟩ := Call.performIn_of_perform (o := o) call
    · exact .inl ⟨(), bind_ok run⟩
    · exact .inr ⟨stops, cause, t', bind_error run⟩
  halts run := .here (Call.performIn_stops (of_answer_error run))

end Tape.Makes

/-! ## Scripts of programs on a sweep -/

/-- The trace after lines, each given in pieces. -/
def Trace.lines (lines : List (List String)) (trace : Trace) : Trace :=
  lines.foldl (fun trace pieces => trace.line pieces) trace

/-- Lines are written one after the other. -/
lemma Trace.lines_append (lines lines' : List (List String)) (trace : Trace) :
    trace.lines (lines ++ lines') = (trace.lines lines).lines lines' := List.foldl_append

/-- What a program on a sweep is to do: calls on the tape, lines of the trace and a number of steps
that are counted. -/
structure Script where
  calls : List Call
  lines : List (List String)
  checks : Nat

namespace Script

/-- Nothing. -/
def empty : Script := ⟨[], [], 0⟩

/-- Calls without a line. -/
def ofCalls (calls : List Call) : Script := ⟨calls, [], 0⟩

/-- A line without a call. -/
def ofLine (pieces : List String) : Script := ⟨[], [pieces], 0⟩

/-- The count of a step. -/
def counted : Script := ⟨[], [], 1⟩

/-- One script behind another one. -/
def append (p q : Script) : Script := ⟨p.calls ++ q.calls, p.lines ++ q.lines, p.checks + q.checks⟩

instance : Append Script := ⟨append⟩

/-- A script for each element of a list. -/
def each {γ : Type} (script : γ → Script) : List γ → Script
  | [] => empty
  | c :: rest => script c ++ each script rest

/-- Nothing comes after a script that ends. -/
lemma append_empty (p : Script) : p ++ empty = p := by
  change Script.mk (p.calls ++ []) (p.lines ++ []) p.checks = p
  rw [List.append_nil, List.append_nil]

/-- Scripts can be put together in any grouping. -/
lemma append_assoc (p q r : Script) : p ++ q ++ r = p ++ (q ++ r) := by
  change Script.mk (_ ++ _ ++ _) (_ ++ _ ++ _) (_ + _ + _) = _
  rw [List.append_assoc, List.append_assoc, Nat.add_assoc]
  rfl

/-- A script for each element makes the calls of all of them. -/
lemma calls_each {γ : Type} (script : γ → Script) (xs : List γ) :
    (each script xs).calls = xs.flatMap fun x => (script x).calls := by
  induction xs with
  | nil => rfl
  | cons x xs ih => rw [List.flatMap_cons, ← ih]; rfl

/-- A script for each element counts the steps of all of them. -/
lemma checks_each {γ : Type} (script : γ → Script) (xs : List γ) :
    (each script xs).checks = (xs.map fun x => (script x).checks).sum := by
  induction xs with
  | nil => rfl
  | cons x xs ih => rw [List.map_cons, List.sum_cons, ← ih]; rfl

/-- What stops a program that follows a script, of a sweep over so many steps: a value of a step
that leaves its range, a call of the script, or the count of the steps. -/
inductive Halts (p : Script) (steps : UInt64) (s : Sweep) : Stop → Prop where
  | value {step : UInt64} {cause : Stop} (inside : step < steps)
    (beyond : StepValues.ofStep .stops step = .error cause) : Halts p steps s cause
  | traffic {cause : Stop} (halts : s.tape.Halts p.calls cause) : Halts p steps s cause
  | count (beyond : wordLimit ≤ s.stepsChecked.toNat + p.checks) : Halts p steps s .sum

end Script

namespace Sweep

/-- The sweep with another trace. -/
def traced (s : Sweep) (trace : Trace) : Sweep := { s with trace }

/-- A count that does not leave its range is the sum. -/
lemma toNat_counted {s s' : Sweep} {n : Nat} (count : s'.stepsChecked = s.stepsChecked + .ofNat n)
    (within : s.stepsChecked.toNat + n < wordLimit) :
    s'.stepsChecked.toNat = s.stepsChecked.toNat + n := by
  have small : n < wordLimit := Nat.lt_of_le_of_lt (Nat.le_add_left _ _) within
  rw [count, UInt64.toNat_add, UInt64.toNat_ofNat_of_lt' small]
  exact Nat.mod_eq_of_lt within

section OnTape

variable {α : Type} {call : Action Tape α} {a : α} {e : Failure} {s s' : Sweep} {t : Tape}

/-- A call on the tape leaves the rest of the sweep as it is. -/
lemma onTape_ok (run : call s.tape = .ok a t) : onTape call s = .ok a { s with tape := t } := by
  rw [onTape, run]

/-- A call on the tape that fails leaves the rest of the sweep as it is. -/
lemma onTape_error (run : call s.tape = .error e t) :
    onTape call s = .error e { s with tape := t } := by
  rw [onTape, run]

/-- What a sweep does in a call on its tape. -/
lemma of_onTape_ok (run : onTape call s = .ok a s') :
    ∃ t, call s.tape = .ok a t ∧ s' = { s with tape := t } := by
  cases first : call s.tape with
  | ok a' t =>
    rw [onTape_ok first] at run
    cases run
    exact ⟨t, rfl, rfl⟩
  | error e t =>
    rw [onTape_error first] at run
    cases run

/-- How a sweep fails in a call on its tape. -/
lemma of_onTape_error (run : onTape call s = .error e s') :
    ∃ t, call s.tape = .error e t ∧ s' = { s with tape := t } := by
  cases first : call s.tape with
  | ok a t =>
    rw [onTape_ok first] at run
    cases run
  | error e' t =>
    rw [onTape_error first] at run
    cases run
    exact ⟨t, rfl, rfl⟩

end OnTape

/-- A program on a sweep over so many steps that follows a script: when it succeeds, it has made the
calls and counted the steps, and when the calls succeed, so does the program, unless it is built to
stop and has been stopped, by what stops the script.  Its trace is only written; on any other trace
the program does the same and writes the same lines. -/
structure Does {α : Type} (o : Overflow) (steps : UInt64) (x : Action Sweep α) (script : Script) :
    Prop where
  ok {s s' : Sweep} {a : α} (run : x s = .ok a s') : Tape.Runs script.calls s.tape s'.tape ∧
    ∀ trace, x (s.traced trace) = .ok a (s'.traced (trace.lines script.lines))
  counts {s s' : Sweep} {a : α} (run : x s = .ok a s') :
    s'.stepsChecked = s.stepsChecked + .ofNat script.checks ∧
      (o = .stops → s.stepsChecked.toNat + script.checks < wordLimit)
  error {s s' : Sweep} {e : Failure} (run : x s = .error e s') (trace : Trace) :
    ∃ trace', x (s.traced trace) = .error e (s'.traced trace')
  runs {s : Sweep} {t : Tape} (runs : Tape.Runs script.calls s.tape t) :
    (∃ a s', x s = .ok a s' ∧ s'.tape = t) ∨
      o = .stops ∧ ∃ cause s', x s = .error (.stopped cause) s'
  halts {s s' : Sweep} {cause : Stop} (stops : o = .stops)
    (run : x s = .error (.stopped cause) s') : script.Halts steps s cause

namespace Does

variable {α β : Type} {o : Overflow} {steps : UInt64} {x : Action Sweep α} {p q : Script}

/-- A program that always succeeds, without a call or a step that is counted. -/
lemma silent {f : Sweep → α} {g : Sweep → Sweep} {lines : List (List String)}
    (tape : ∀ s, (g s).tape = s.tape) (count : ∀ s, (g s).stepsChecked = s.stepsChecked)
    (answer : ∀ s trace, f (s.traced trace) = f s)
    (next : ∀ s trace, g (s.traced trace) = (g s).traced (trace.lines lines)) :
    Does o steps (fun s => .ok (f s) (g s)) ⟨[], lines, 0⟩ where
  ok {s s' a} run := by
    obtain ⟨rfl, rfl⟩ := EStateM.Result.ok.inj run
    refine ⟨?_, fun trace => ?_⟩
    · rw [tape]
      exact .nil _
    · rw [answer, next]
  counts {s s' a} run := by
    obtain ⟨-, rfl⟩ := EStateM.Result.ok.inj run
    exact ⟨(count s).trans (UInt64.add_zero _).symm, fun _ => s.stepsChecked.toNat_lt⟩
  error run := by cases run
  runs {s t} runs := by
    cases runs
    exact .inl ⟨_, _, rfl, tape s⟩
  halts _ run := by cases run

/-- An answer that is at hand takes no call. -/
lemma ret (a : α) : Does o steps (pure a) .empty :=
  silent (g := id) (fun _ => rfl) (fun _ => rfl) (fun _ _ => rfl) fun _ _ => rfl

/-- The values of a step take no call, but the program may be stopped at them. -/
lemma values {step : UInt64} (inside : step < steps) {f : StepValues → Action Sweep α}
    (does : Does o steps (f (.reduced step)) p) :
    Does o steps (Action.orStop (StepValues.ofStep o step) >>= f) p := by
  obtain given | ⟨stops, cause, beyond⟩ := StepValues.ofStep_settles o step
  · rw [given]
    exact does
  · rw [beyond]
    refine ⟨nofun, nofun, fun run trace => ⟨trace, by cases run; rfl⟩,
      fun _ => .inr ⟨stops, cause, _, rfl⟩, fun _ run => ?_⟩
    cases run
    exact .value inside (stops ▸ beyond)

/-- One program behind another one follows both scripts. -/
lemma seq {f : α → Action Sweep β} (hx : Does o steps x p) (hf : ∀ a, Does o steps (f a) q) :
    Does o steps (x >>= f) (p ++ q) where
  ok run := by
    obtain ⟨a, s', first, next⟩ := of_bind_ok run
    obtain ⟨runs, same⟩ := hx.ok first
    obtain ⟨runs', same'⟩ := (hf a).ok next
    refine ⟨Tape.runs_append.2 ⟨_, runs, runs'⟩, fun trace => ?_⟩
    rw [bind_ok (same trace), same', ← Trace.lines_append]
    rfl
  counts run := by
    obtain ⟨a, s', first, next⟩ := of_bind_ok run
    obtain ⟨count, within⟩ := hx.counts first
    obtain ⟨count', within'⟩ := (hf a).counts next
    refine ⟨?_, fun stops => ?_⟩
    · rw [count', count, UInt64.add_assoc, ← UInt64.ofNat_add]
      rfl
    · have total := within' stops
      rw [toNat_counted count (within stops), Nat.add_assoc] at total
      exact total
  error run trace := by
    obtain first | ⟨a, s', first, next⟩ := of_bind_error run
    · obtain ⟨trace', failed⟩ := hx.error first trace
      exact ⟨trace', bind_error failed⟩
    · obtain ⟨trace', failed⟩ := (hf a).error next (trace.lines p.lines)
      exact ⟨trace', by rw [bind_ok ((hx.ok first).2 trace), failed]⟩
  runs {s t} runs := by
    obtain ⟨t', first, next⟩ := Tape.runs_append.1 runs
    obtain ⟨a, s', run, rfl⟩ | ⟨stops, cause, s', run⟩ := hx.runs first
    · rw [bind_ok run]
      exact (hf a).runs next
    · exact .inr ⟨stops, cause, s', bind_error run⟩
  halts stops run := by
    obtain first | ⟨a, s', first, next⟩ := of_bind_error run
    · cases hx.halts stops first with
      | value inside beyond => exact .value inside beyond
      | traffic halts => exact .traffic (halts.append _)
      | count beyond =>
        exact .count (Nat.le_trans beyond (Nat.add_le_add_left (Nat.le_add_right _ _) _))
    · obtain ⟨count, within⟩ := hx.counts first
      cases (hf a).halts stops next with
      | value inside beyond => exact .value inside beyond
      | traffic halts => exact .traffic (.behind (hx.ok first).1 halts)
      | count beyond =>
        rw [toNat_counted count (within stops), Nat.add_assoc] at beyond
        exact .count beyond

/-- A program on the tape makes its calls. -/
lemma onTape {call : Action Tape α} {calls : List Call} (makes : Tape.Makes o call calls) :
    Does o steps (Sweep.onTape call) (.ofCalls calls) where
  ok {s s' a} run := by
    obtain ⟨t, first, rfl⟩ := of_onTape_ok run
    exact ⟨makes.ok first, fun trace => onTape_ok first⟩
  counts {s s' a} run := by
    obtain ⟨t, -, rfl⟩ := of_onTape_ok run
    exact ⟨(UInt64.add_zero _).symm, fun _ => s.stepsChecked.toNat_lt⟩
  error {s s' e} run trace := by
    obtain ⟨t, first, rfl⟩ := of_onTape_error run
    exact ⟨trace, onTape_error first⟩
  runs {s t} runs := by
    obtain ⟨a, first⟩ | ⟨stops, cause, t', first⟩ := makes.runs runs
    · exact .inl ⟨a, { s with tape := t }, onTape_ok first, rfl⟩
    · exact .inr ⟨stops, cause, { s with tape := t' }, onTape_error first⟩
  halts _ run := by
    obtain ⟨t, first, -⟩ := of_onTape_error run
    exact .traffic (makes.halts first)

/-- A line is traced without a call. -/
lemma traceLine (pieces : List String) :
    Does o steps (Action.update (Sweep.traceLine pieces)) (.ofLine pieces) :=
  silent (fun _ => rfl) (fun _ => rfl) (fun _ _ => rfl) fun _ _ => rfl

/-- A step is counted without a call or a line, and without a look at the trace. -/
lemma countStep : Does o steps (Sweep.countStep o) .counted where
  ok {s s' _} run := by
    rw [Sweep.countStep] at run
    cases sum : o.add s.stepsChecked 1 with
    | ok next =>
      rw [sum] at run
      cases run
      refine ⟨.nil _, fun trace => ?_⟩
      rw [Sweep.countStep, traced, sum]
      rfl
    | error cause =>
      rw [sum] at run
      cases run
  counts {s s' _} run := by
    rw [Sweep.countStep] at run
    cases sum : o.add s.stepsChecked 1 with
    | ok next =>
      rw [sum] at run
      cases run
      refine ⟨(o.add_settles _ _).eq_of_ok sum, fun stops => Nat.lt_of_not_le fun beyond => ?_⟩
      have stopped := Overflow.add_of_le (a := s.stepsChecked) (b := 1) beyond
      rw [stops, stopped] at sum
      cases sum
    | error cause =>
      rw [sum] at run
      cases run
  error {s s' e} run trace := by
    rw [Sweep.countStep] at run
    cases sum : o.add s.stepsChecked 1 with
    | ok next =>
      rw [sum] at run
      cases run
    | error cause =>
      rw [sum] at run
      cases run
      refine ⟨trace, ?_⟩
      rw [Sweep.countStep, traced, sum]
  runs {s t} runs := by
    cases runs
    rw [Sweep.countStep]
    cases sum : o.add s.stepsChecked 1 with
    | ok next => exact .inl ⟨(), _, rfl, rfl⟩
    | error cause => exact .inr ⟨(Overflow.stops_of_add sum).1, cause, s, rfl⟩
  halts {s s' cause} _ run := by
    rw [Sweep.countStep] at run
    cases sum : o.add s.stepsChecked 1 with
    | ok next =>
      rw [sum] at run
      cases run
    | error cause =>
      rw [sum] at run
      cases run
      obtain ⟨-, rfl, beyond⟩ := Overflow.stops_of_add sum
      exact .count beyond

/-- A mismatch is noted without a call or a line. -/
lemma noteIf {P : Prop} [Decidable P] (m : Mismatch) :
    Does o steps (if P then Action.update (note m) else pure ()) .empty := by
  split
  case isTrue => exact silent (fun _ => rfl) (fun _ => rfl) (fun _ _ => rfl) fun _ _ => rfl
  case isFalse => exact .ret ()

/-- A loop over a list follows the script of each element. -/
lemma each {γ : Type} {call : γ → Action Sweep Unit} {script : γ → Script} {cs : List γ}
    (does : ∀ c ∈ cs, Does o steps (call c) (script c)) :
    Does o steps (Action.each call cs) (.each script cs) := by
  induction cs with
  | nil => exact .ret ()
  | cons c rest ih =>
    obtain ⟨first, others⟩ := List.forall_mem_cons.1 does
    rw [Action.each_cons]
    exact first.seq fun _ => ih others

end Does

/-! ## Steps and segments -/

/-- The step numbers of a pass, in ascending order. -/
def stepsFrom (first : UInt64) (count : Nat) : List UInt64 :=
  (List.range count).map fun i => first + .ofNat i

/-- The last one of the steps. -/
lemma stepsFrom_succ (first : UInt64) (count : Nat) :
    stepsFrom first (count + 1) = stepsFrom first count ++ [first + .ofNat count] := by
  rw [stepsFrom, List.range_succ, List.map_append]
  rfl

/-- The first one of the steps. -/
lemma stepsFrom_succ' (first : UInt64) (count : Nat) :
    stepsFrom first (count + 1) = first :: stepsFrom (first + 1) count := by
  rw [stepsFrom, List.range_succ_eq_map, List.map_cons, List.map_map]
  refine congrArg₂ _ (UInt64.add_zero first) (List.map_congr_left fun i _ => ?_)
  rw [Function.comp, Nat.succ_eq_add_one, UInt64.ofNat_add, UInt64.add_comm (.ofNat i),
    ← UInt64.add_assoc]
  rfl

namespace Does

variable {o : Overflow} {steps : UInt64} {call : UInt64 → Action Sweep Unit}
  {script : UInt64 → Script}

/-- A loop in ascending order follows the script of each step. -/
lemma ascending {count : Nat} {first : UInt64}
    (does : ∀ step ∈ stepsFrom first count, Does o steps (call step) (script step)) :
    Does o steps (Action.ascending call count first) (.each script (stepsFrom first count)) := by
  induction count generalizing first with
  | zero => exact .ret ()
  | succ count ih =>
    rw [stepsFrom_succ'] at does ⊢
    obtain ⟨now, others⟩ := List.forall_mem_cons.1 does
    rw [Action.ascending_succ]
    exact now.seq fun _ => ih others

/-- A loop in descending order follows the script of each step, the last one first. -/
lemma descending {count : Nat} {first : UInt64}
    (does : ∀ step ∈ stepsFrom first count, Does o steps (call step) (script step)) :
    Does o steps (Action.descending call count first)
      (.each script (stepsFrom first count).reverse) := by
  induction count with
  | zero => exact .ret ()
  | succ count ih =>
    rw [stepsFrom_succ] at does ⊢
    obtain ⟨others, now⟩ := List.forall_mem_append.1 does
    rw [Action.descending_succ, List.reverse_append]
    exact (now _ List.mem_cons_self).seq fun _ => ih others

end Does

end Sweep

end AdjointTape

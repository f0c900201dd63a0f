import AdjointTape.Proofs.Holding
import AdjointTape.Proofs.SweepScript

/-!
# Sweeps are clean

A sweep is a program on a tape that holds items.  A step and a snapshot are a few items each; a pass
over a segment puts its steps on top and takes them off again, and a replay does so in the scope of
a level that brings the snapshot back.  Whatever was on the tape before the sweep is the base, and
nothing but the base is left in the end.  A sweep may be cut short, but only because memory runs
out, or for a reason that is found in its configuration or its script.
-/

open AdjointTape.Action AdjointTape.Tape

namespace AdjointTape

/-! ## Steps and snapshots as items -/

/-- The items of steps from `first` on, the last one first. -/
def StepValues.trail (first : UInt64) : (count : Nat) → List Item
  | 0 => []
  | count + 1 => (reduced (first + .ofNat count)).items ++ trail first count

section Values

variable {view : Option Scope → List Item → Tape → Prop} [ItemView view] {scope : Option Scope}
  {items : List Item} {o : Overflow}

/-- Pushing an item in a program that may be stopped. -/
lemma ItemView.carryOut (item : Item) (fits : item.Fits) :
    Yields o (view scope items) (item.pushCall.carryOut o) ()
      (view scope (item :: items)) := by
  intro t start
  obtain ⟨t', run, last⟩ | ⟨e, t', run, broken⟩ :=
    (ItemView.pushItem item fits).yields (o := o) t start
  · obtain run | ⟨stops, cause, run⟩ := Call.performIn_of_perform (o := o) run
    · exact .inl ⟨t', bind_ok run, last⟩
    · exact .inr ⟨_, t', bind_error run, .stopped stops cause⟩
  · have failed : item.pushCall.performIn o t = .error e t' := by rw [Call.performIn, run]
    exact .inr ⟨e, t', bind_error failed, broken⟩

/-- Pushing the values of a step puts its items on the tape. -/
lemma StepValues.push_yields (v : StepValues) (fits : v.tag < 2 ^ tagWidth) :
    Yields o (view scope items) (v.push o) () (view scope (v.items ++ items)) :=
  (ItemView.carryOut (.scalar .integer4 v.integer4) trivial).seq <|
  (ItemView.carryOut (.scalar .integer8 v.integer8) trivial).seq <|
  (ItemView.carryOut (.scalar .real4 v.real4) trivial).seq <|
  (ItemView.carryOut (.scalar .real8 v.real8) trivial).seq <|
  (ItemView.carryOut (.scalar .complex8 v.complex8) trivial).seq <|
  (ItemView.carryOut (.scalar .complex16 v.complex16) trivial).seq <|
  (ItemView.carryOut (.scalar .character v.character) trivial).seq <|
  (ItemView.carryOut (.bit v.bit) trivial).seq <|
  (ItemView.carryOut (.scalar .pointer v.pointer) trivial).seq <|
  (ItemView.carryOut (.control v.tag tagWidth) ⟨by decide, by decide, fits⟩).seq <|
  ItemView.carryOut (.array .real8 v.array) trivial

/-- Popping takes the items of a step off the tape and answers its values. -/
lemma StepValues.pop_answers (v : StepValues) :
    Answers (view scope (v.items ++ items)) (StepValues.pop v.array.length) v
      (view scope items) :=
  ItemView.popArray.seq <|
  ItemView.popControl.seq <|
  ItemView.pop.seq <|
  ItemView.popBit.seq <|
  ItemView.pop.seq <|
  ItemView.pop.seq <|
  ItemView.pop.seq <|
  ItemView.pop.seq <|
  ItemView.pop.seq <|
  ItemView.pop.seq <|
  ItemView.pop.seq <|
  .ret v

/-- Pushing a snapshot puts its items on the tape. -/
lemma Snapshot.push_yields (s : Snapshot) :
    Yields o (view scope items) (s.push o) () (view scope (s.items ++ items)) :=
  (ItemView.carryOut (.scalar .integer8 s.start) trivial).seq
    (ItemView.carryOut (.array .real8 s.state) trivial)

/-- Popping takes the items of a snapshot off the tape and answers it. -/
lemma Snapshot.pop_answers (s : Snapshot) (length : s.state.length = stateLength) :
    Answers (view scope (s.items ++ items)) Snapshot.pop s (view scope items) := by
  rw [Snapshot.pop, ← length]
  exact ItemView.popArray.seq (ItemView.pop.seq (.ret s))

end Values

namespace Sweep

/-! ## Clean sweeps -/

/-- A sweep that found no mismatch so far, and its tape. -/
structure Clean (P : Tape → Prop) (s : Sweep) : Prop where
  tape : P s.tape
  mismatches : s.mismatches = []

section Parts

variable {P Q : Tape → Prop} {o : Overflow}

/-- A call on the tape is part of a sweep. -/
lemma onTape_yields {α : Type} {call : Action Tape α} {a : α}
    (h : Yields o P call a Q) :
    Yields o (Clean P) (onTape call) a (Clean Q) := by
  rintro s ⟨start, none⟩
  obtain ⟨t', run, last⟩ | ⟨e, t', run, broken⟩ := h s.tape start
  · exact .inl ⟨_, onTape_ok run, last, none⟩
  · exact .inr ⟨e, _, onTape_error run, broken⟩

/-- A trace does not touch what is on the tape. -/
lemma trace_yields (pieces : List String) :
    Yields o (Clean P) (Action.update (traceLine pieces)) () (Clean P) :=
  .update fun _ clean => ⟨clean.tape, clean.mismatches⟩

/-- A step that is counted is not looked at. -/
lemma count_yields : Yields o (Clean P) (countStep o) () (Clean P) := by
  rintro s ⟨tape, none⟩
  rw [countStep]
  cases sum : o.add s.stepsChecked 1 with
  | ok next => exact .inl ⟨_, rfl, tape, none⟩
  | error cause => exact .inr ⟨_, s, rfl, .stopped (Overflow.stops_of_add sum).1 cause⟩

/-- The values of a step leave their range only when the program is built to stop there. -/
lemma values_yield (step : UInt64) :
    Yields o (Clean P) (Action.orStop (StepValues.ofStep o step))
      (StepValues.reduced step) (Clean P) :=
  .orStop (StepValues.ofStep_settles o step)

end Parts

variable {view : Option Scope → List Item → Tape → Prop} [ItemView view] {scope : Option Scope}
  {items below : List Item} {o : Overflow} {config : SweepConfig}

/-- A step that is recorded puts its items on the tape. -/
lemma record_yields (step : UInt64) :
    Yields o (Clean (view scope items)) (record o step) ()
      (Clean (view scope ((StepValues.reduced step).items ++ items))) := by
  have fits : (StepValues.reduced step).tag < 2 ^ tagWidth := Nat.mod_lt _ (by decide)
  exact (values_yield step).seq
    ((onTape_yields ((StepValues.reduced step).push_yields fits)).seq (trace_yields _))

/-- What is popped is what was pushed, and that agrees with itself. -/
lemma check_yields (step : UInt64) :
    Yields o (Clean (view scope ((StepValues.reduced step).items ++ items)))
      (check o step) () (Clean (view scope items)) := by
  refine (values_yield step).seq
    ((onTape_yields (StepValues.reduced step).pop_answers.yields).seq
      ((trace_yields _).seq (count_yields.seq ?_)))
  rw [StepValues.agrees_reduced]
  exact .ret ()

/-- A snapshot that is recorded puts its items on the tape. -/
lemma pushSnapshot_yields (segment : Segment) :
    Yields o (Clean (view scope items)) (pushSnapshot o segment) ()
      (Clean (view scope (restart segment ++ items))) :=
  (onTape_yields (Snapshot.ofStep segment.first).push_yields).seq (trace_yields _)

/-- A snapshot comes back as it was pushed. -/
lemma popSnapshot_yields (segment : Segment) (mark : String) :
    Yields o (Clean (view scope (restart segment ++ items)))
      (popSnapshot segment mark) () (Clean (view scope items)) := by
  refine (onTape_yields ((Snapshot.ofStep segment.first).pop_answers rfl).yields).seq
    ((trace_yields _).seq ?_)
  rw [Snapshot.agrees_ofStep]
  exact .ret ()

/-! ## Segments -/

/-- Steps that are recorded are put on the tape one on top of the other. -/
lemma record_all (first : UInt64) (count : Nat) :
    Yields o (Clean (view scope items)) (ascending (record o) count first) ()
      (Clean (view scope (StepValues.trail first count ++ items))) := by
  refine .ascending (fun i => Clean (view scope (StepValues.trail first i ++ items))) count first
    fun i _ => ?_
  rw [StepValues.trail, List.append_assoc]
  exact record_yields _

/-- Steps that are checked are taken off again, the last one first. -/
lemma check_all (first : UInt64) (count : Nat) :
    Yields o (Clean (view scope (StepValues.trail first count ++ items)))
      (descending (check o) count first) () (Clean (view scope items)) := by
  induction count with
  | zero => exact .ret ()
  | succ count ih =>
    rw [descending_succ, StepValues.trail, List.append_assoc]
    exact (check_yields _).seq ih

/-- A pass leaves the items as they were. -/
lemma pass_yields (segment : Segment) :
    Yields o (Clean (view scope items)) (pass o segment) ()
      (Clean (view scope items)) :=
  (record_all _ _).seq (check_all _ _)

/-- Every replay takes the snapshot off and goes over the segment. -/
lemma replay_yields (segment : Segment) (left : Nat) :
    Yields o (Clean (view (some ⟨restart segment, below⟩) (restart segment)))
      (replay o segment (left + 1) false) ()
      (Clean (view (some ⟨restart segment, below⟩) [])) := by
  induction left with
  | zero => exact (popSnapshot_yields segment _).seq ((pass_yields segment).seq (.ret ()))
  | succ left ih =>
    refine (popSnapshot_yields segment _).seq ((pass_yields segment).seq ?_)
    rw [replay_again]
    exact (onTape_yields ItemView.resetRepeat.yields).seq ih

/-- A segment that is replayed takes its snapshot off the tape. -/
lemma replaySegment_yields {replays : Nat} (positive : 0 < replays) (segment : Segment) :
    Yields o (Clean (view none (restart segment ++ below)))
      (replaySegment o replays segment) () (Clean (view none below)) := by
  obtain ⟨left, rfl⟩ := Nat.exists_eq_add_one.2 positive
  exact (onTape_yields ItemView.startRepeat.yields).seq
    ((replay_yields segment left).seq (onTape_yields ItemView.endRepeat.yields))

/-! ## Whole sweeps -/

/-- The snapshots of segments, the last one first. -/
lemma pushSnapshots_yield (segments : List Segment) :
    Yields o (Clean (view scope items)) (each (pushSnapshot o) segments) ()
      (Clean (view scope (segments.reverse.flatMap restart ++ items))) := by
  induction segments generalizing items with
  | nil => exact .each_nil _
  | cons segment rest ih =>
    rw [List.reverse_cons, List.flatMap_append, List.flatMap_singleton, List.append_assoc]
    exact .each_cons (pushSnapshot_yields segment) ih

/-- Segments that are replayed take their snapshots off the tape, one by one. -/
lemma replaySegments_yield {replays : Nat} (positive : 0 < replays) (segments : List Segment) :
    Yields o (Clean (view none (segments.flatMap restart ++ below)))
      (each (replaySegment o replays) segments) () (Clean (view none below)) := by
  induction segments with
  | nil => exact .each_nil _
  | cons segment rest ih =>
    rw [List.flatMap_cons, List.append_assoc]
    exact .each_cons (replaySegment_yields positive segment) ih

/-- A sweep leaves nothing on the tape that was not there before. -/
lemma perform_yields (replays : 0 < config.checkpointEvery → 0 < config.replays) :
    Yields o (Clean (view none [])) (perform o config config.slices) ()
      (Clean (view none [])) := by
  rw [perform]
  split
  case isTrue => exact pass_yields _
  case isFalse every =>
    have positive : 0 < config.replays.toNat :=
      UInt64.lt_iff_toNat_lt.1 (replays (UInt64.pos_iff_ne_zero.2 every))
    exact (pushSnapshots_yield config.slices).seq (replaySegments_yield positive _)

end Sweep

/-! ## Sweeps that are cut short -/

/-- Why a sweep that begins on a tape may end without a report: memory runs out; its segments are
more than a list can hold; or, in a program that is built to stop there, a value of one of its steps
leaves its range, or the count of the steps that it checks does, or a counter of the tape in one of
its calls. -/
inductive SweepConfig.CutShort (o : Overflow) (t : Tape) (c : SweepConfig) : Failure → Prop where
  | memory (blocks blockSize : Nat) : CutShort o t c (.outOfMemory blocks blockSize)
  | segments (many : segmentLimit ≤ c.count) : CutShort o t c (.stopped .capacity)
  | values {step : UInt64} {cause : Stop} (stops : o = .stops) (inside : step < c.steps)
    (beyond : StepValues.ofStep .stops step = .error cause) : CutShort o t c (.stopped cause)
  | checks (stops : o = .stops) (beyond : wordLimit ≤ c.checks) : CutShort o t c (.stopped .sum)
  | traffic {cause : Stop} (stops : o = .stops) (halts : t.Halts (Sweep.script c).calls cause) :
    CutShort o t c (.stopped cause)

namespace Sweep

variable {view : Option Scope → List Item → Tape → Prop} [ItemView view] {o : Overflow}
  {config : SweepConfig} {t : Tape}

/-- A sweep leads back to the items that were there before, and has counted its steps, or it is cut
short. -/
lemma undertake_ends (replays : 0 < config.checkpointEvery → 0 < config.replays)
    (fits : config.steps.toNat + config.checkpointEvery.toNat < wordLimit) (start : view none [] t)
    (trace : Trace) :
    (∃ s, undertake o config (.start t trace) = .ok () s ∧ Clean (view none []) s ∧
      s.stepsChecked = .ofNat config.checks ∧ (o = .stops → config.checks < wordLimit)) ∨
    ∃ e s, undertake o config (.start t trace) = .error e s ∧ config.CutShort o t e := by
  obtain few | many := Nat.lt_or_ge config.count SweepConfig.segmentLimit
  case inr => exact .inr ⟨_, _, undertake_of_many many _, .segments many⟩
  have does := perform_does (o := o) replays
  have checks := checks_script replays fits
  rw [undertake_eq few (SweepConfig.reach_lt fits)]
  obtain ⟨s, run, clean⟩ | ⟨e, s, run, broken⟩ :=
    perform_yields (o := o) replays (.start t trace) ⟨start, rfl⟩
  · obtain ⟨count, within⟩ := does.counts run
    rw [checks] at count within
    refine .inl ⟨s, run, clean, count.trans (UInt64.zero_add _), fun stops => ?_⟩
    exact Nat.lt_of_le_of_lt (Nat.le_add_left _ _) (within stops)
  · refine .inr ⟨e, s, run, ?_⟩
    cases broken with
    | memory blocks blockSize => exact .memory blocks blockSize
    | stopped stops cause =>
      cases does.halts stops run with
      | value inside beyond => exact .values stops inside beyond
      | traffic halts => exact .traffic stops halts
      | count beyond =>
        rw [checks] at beyond
        exact .checks stops (beyond.trans (Nat.zero_add _).le)

end Sweep

/-- A sweep is clean. On every reachable tape without open levels, whatever its geometry, its
buffers and the trace: if segments are replayed at least once where there are any, and the step
numbers stay within a word, a sweep reports that every step came back, as often as it was recorded,
and leaves the tape as it found it; or it is cut short, for lack of memory, for a list of segments
that cannot be held, or by a result that leaves its range in a program that is built to stop there.
The steps are counted in a word. -/
theorem sweep_is_clean {t : Tape} (reachable : t.Reachable) (closed : t.depth = 0) (trace : Trace)
    (o : Overflow) {config : SweepConfig}
    (replays : 0 < config.checkpointEvery → 0 < config.replays)
    (fits : config.steps.toNat + config.checkpointEvery.toNat < wordLimit) :
    (∃ e s, Sweep.run o config (.start t trace) = .error e s ∧ config.CutShort o t e) ∨
    ∃ report s, Sweep.run o config (.start t trace) = .ok report s ∧ report.mismatches = [] ∧
      report.balanced = true ∧ report.stepsChecked = .ofNat config.checks ∧
      (o = .stops → config.checks < wordLimit) ∧ t.Alike s.tape := by
  have sound := reachable.sound
  have valid : config.flaw? = none :=
    if_neg fun flaw => UInt64.pos_iff_ne_zero.1 (replays flaw.1) flaw.2
  rw [Sweep.run_eq valid]
  obtain ⟨s, run, clean, steps, within⟩ | ⟨e, s, run, short⟩ :=
    Sweep.undertake_ends (o := o) replays fits (Tape.holds_base sound closed) trace
  · have alike := clean.tape.alike sound closed
    refine .inr ⟨_, s, bind_ok run, ?_, ?_, steps, within, alike⟩
    · exact congrArg List.reverse clean.mismatches
    · have depth : s.tape.depth = 0 := (congrArg List.length alike.marks).trans closed
      simp only [Sweep.report, alike.location, alike.fill, depth, Sweep.start, decide_true,
        Bool.and_true]
  · exact .inl ⟨e, s, bind_error run, short⟩

/-- Three steps in two segments that are replayed twice, on a tape with half-filled buffers. -/
theorem sweep_is_clean_under_replays :
    let config : SweepConfig := ⟨3, 2, 2⟩
    ∃ t : Tape, t.Reachable ∧ t.depth = 0 ∧
      (0 < config.checkpointEvery → 0 < config.replays) ∧
      config.steps.toNat + config.checkpointEvery.toNat < wordLimit ∧
      ∃ report s, Sweep.run .stops config (.start t .off) = .ok report s ∧
        report.mismatches = [] ∧ report.balanced = true ∧ report.stepsChecked = 6 ∧
        t.Alike s.tape := by
  intro config
  have created : Tape.create ⟨8, 2⟩ none = .ok _ := rfl
  have reachable := (Tape.Reachable.create created).run [.pushBytes [1, 2, 3] true,
    .push .character 5, .pushBit true, .startRepeat, .popBytes 1 true, .endRepeat]
  obtain ⟨t, reachable, closed, room⟩ : ∃ t : Tape, t.Reachable ∧ t.depth = 0 ∧
      (outcome (Sweep.run .stops config (.start t .off))).toBool = true :=
    ⟨_, reachable, by decide +kernel, by decide +kernel⟩
  have replays : 0 < config.checkpointEvery → 0 < config.replays := fun _ => by decide
  have fits : config.steps.toNat + config.checkpointEvery.toNat < wordLimit := by decide
  refine ⟨t, reachable, closed, replays, fits, ?_⟩
  obtain ⟨e, s, short, -⟩ | ⟨report, s, run, mismatches, balanced, steps, -, alike⟩ :=
    sweep_is_clean reachable closed .off .stops replays fits
  · obtain ⟨_, _, run⟩ := ok_of_toBool room
    cases run.symm.trans short
  · exact ⟨report, s, run, mismatches, balanced, steps, alike⟩

/-- A sweep over more segments than a list can hold neither reports nor runs out of memory. -/
theorem sweep_may_have_too_many_segments :
    ¬ ∀ (t : Tape) (o : Overflow) (config : SweepConfig), t.Reachable → t.depth = 0 →
      (0 < config.checkpointEvery → 0 < config.replays) →
      config.steps.toNat + config.checkpointEvery.toNat < wordLimit →
      (∃ blocks blockSize s,
        Sweep.run o config (.start t .off) = .error (.outOfMemory blocks blockSize) s) ∨
      ∃ report s, Sweep.run o config (.start t .off) = .ok report s := by
  intro law
  have created : Tape.create ⟨100, 4⟩ (some 3) = .ok _ := rfl
  let config : SweepConfig := ⟨2 ^ 60, 1, 1⟩
  have many : SweepConfig.segmentLimit ≤ config.count := by decide +kernel
  obtain ⟨_, _, _, run⟩ | ⟨_, _, run⟩ := law _ .stops config (.create created) rfl
    (fun _ => by decide) (by decide +kernel)
  · rw [Sweep.run_of_many rfl many] at run
    cases run
  · rw [Sweep.run_of_many rfl many] at run
    cases run

end AdjointTape

import AdjointTape.Proofs.Ledger
import AdjointTape.Proofs.Schedule
import AdjointTape.Proofs.Script
import Mathlib.Algebra.BigOperators.Ring.List

/-!
# The script of a sweep

What a sweep does does not depend on what it finds: its script follows from the configuration.  A
sweep that ends has made the calls of its script, and where they can be made a sweep ends unless it
is stopped.
-/

open AdjointTape.Action

namespace AdjointTape

/-! ## Steps and snapshots as items -/

/-- What a step puts on the tape, the last item first. -/
def StepValues.items (v : StepValues) : List Item :=
  [.array .real8 v.array, .control v.tag tagWidth, .scalar .pointer v.pointer, .bit v.bit,
    .scalar .character v.character, .scalar .complex16 v.complex16, .scalar .complex8 v.complex8,
    .scalar .real8 v.real8, .scalar .real4 v.real4, .scalar .integer8 v.integer8,
    .scalar .integer4 v.integer4]

/-- What a snapshot puts on the tape, the last item first. -/
def Snapshot.items (s : Snapshot) : List Item :=
  [.array .real8 s.state, .scalar .integer8 s.start]

/-- The calls that push items, the last one of the list first on the tape. -/
def Item.pushes (items : List Item) : List Call := items.reverse.map Item.pushCall

/-- The calls that pop items, the first one of the list first. -/
def Item.pops (items : List Item) : List Call := items.map Item.popCall

section Items

variable {o : Overflow}

open Tape in
/-- Pushing the values of a step pushes its items. -/
lemma StepValues.push_makes (v : StepValues) : Makes o (v.push o) (Item.pushes v.items) :=
  (Makes.carryOut _).seq fun _ => (Makes.carryOut _).seq fun _ => (Makes.carryOut _).seq fun _ =>
  (Makes.carryOut _).seq fun _ => (Makes.carryOut _).seq fun _ => (Makes.carryOut _).seq fun _ =>
  (Makes.carryOut _).seq fun _ => (Makes.carryOut _).seq fun _ => (Makes.carryOut _).seq fun _ =>
  (Makes.carryOut _).seq fun _ => .carryOut _

open Tape in
/-- Popping the values of a step pops its items. -/
lemma StepValues.pop_makes (v : StepValues) :
    Makes o (StepValues.pop v.array.length) (Item.pops v.items) :=
  (Makes.call (c := .popArray .real8 _) rfl).seq fun _ =>
  (Makes.call (c := .popControl _) rfl).seq fun _ =>
  (Makes.call (c := .pop .pointer) rfl).seq fun _ =>
  (Makes.call (c := .popBit) rfl).seq fun _ =>
  (Makes.call (c := .pop .character) rfl).seq fun _ =>
  (Makes.call (c := .pop .complex16) rfl).seq fun _ =>
  (Makes.call (c := .pop .complex8) rfl).seq fun _ =>
  (Makes.call (c := .pop .real8) rfl).seq fun _ =>
  (Makes.call (c := .pop .real4) rfl).seq fun _ =>
  (Makes.call (c := .pop .integer8) rfl).seq fun _ =>
  (Makes.call (c := .pop .integer4) rfl).seq fun _ =>
  .ret _

open Tape in
/-- Pushing a snapshot pushes its items. -/
lemma Snapshot.push_makes (s : Snapshot) : Makes o (s.push o) (Item.pushes s.items) :=
  (Makes.carryOut _).seq fun _ => .carryOut _

open Tape in
/-- Popping a snapshot pops its items. -/
lemma Snapshot.pop_makes (s : Snapshot) (length : s.state.length = stateLength) :
    Makes o Snapshot.pop (Item.pops s.items) := by
  have popArray : Makes o (popArray .real8 stateLength) [.popArray .real8 s.state.length] := by
    rw [length]
    exact .call rfl
  exact popArray.seq fun _ => (Makes.call (c := .pop .integer8) rfl).seq fun _ => .ret _

end Items

/-- The steps that a sweep checks, every replay counted. -/
def SweepConfig.checks (c : SweepConfig) : Nat :=
  if c.checkpointEvery = 0 then c.steps.toNat else c.steps.toNat * c.replays.toNat

namespace Sweep

/-! ## What sweeps do -/

/-- What a segment restarts from. -/
def restart (segment : Segment) : List Item := (Snapshot.ofStep segment.first).items

/-- The script of recording a step. -/
def recordScript (step : UInt64) : Script :=
  .ofCalls (Item.pushes (StepValues.reduced step).items) ++ .ofLine (stepLine "+" step)

/-- The script of checking a step. -/
def checkScript (step : UInt64) : Script :=
  .ofCalls (Item.pops (StepValues.reduced step).items) ++ (.ofLine (stepLine "-" step) ++ .counted)

/-- The script of recording the snapshot of a segment. -/
def pushSnapshotScript (segment : Segment) : Script :=
  .ofCalls (Item.pushes (restart segment)) ++ .ofLine (snapshotLine "+s" segment.first)

/-- The script of checking the snapshot of a segment. -/
def popSnapshotScript (segment : Segment) (mark : String) : Script :=
  .ofCalls (Item.pops (restart segment)) ++ .ofLine (snapshotLine mark segment.first)

/-- The script of a pass over a segment. -/
def passScript (segment : Segment) : Script :=
  .each recordScript (stepsFrom segment.first segment.length) ++
    .each checkScript (stepsFrom segment.first segment.length).reverse

/-- The mark of the snapshot in a replay that leaves so many more to do. -/
def replayMark (left : Nat) : String := if left = 0 then "-s" else "Ls"

/-- The script of a single replay. -/
def visitScript (segment : Segment) (left : Nat) : Script :=
  popSnapshotScript segment (replayMark left) ++ passScript segment

/-- The script of the replays that are still to do after another one. -/
def replaysScript (segment : Segment) : (left : Nat) → Script
  | 0 => .empty
  | left + 1 =>
    .ofCalls [.resetRepeat] ++ (visitScript segment left ++ replaysScript segment left)

/-- The script of a segment under its level. -/
def segmentScript (replays : Nat) (segment : Segment) : Script :=
  .ofCalls [.startRepeat] ++
    ((visitScript segment (replays - 1) ++ replaysScript segment (replays - 1)) ++
      .ofCalls [.endRepeat])

/-- The script of a sweep. -/
def script (config : SweepConfig) : Script :=
  if config.checkpointEvery = 0 then passScript ⟨0, config.steps⟩
  else .each pushSnapshotScript config.slices ++
    .each (segmentScript config.replays.toNat) config.slices.reverse

/-! ### Steps that are counted -/

/-- Steps of a segment stay below its end. -/
lemma lt_of_mem_stepsFrom {segment : Segment} {step : UInt64}
    (mem : step ∈ stepsFrom segment.first segment.length) : step < segment.stop := by
  obtain ⟨i, before, rfl⟩ := List.mem_map.1 mem
  exact Segment.step_lt (List.mem_range.1 before)

/-- A pass counts every step of its segment. -/
lemma checks_passScript (segment : Segment) : (passScript segment).checks = segment.length := by
  have recorded :
      (Script.each recordScript (stepsFrom segment.first segment.length)).checks = 0 := by
    rw [Script.checks_each]
    exact List.sum_map_zero
  have checked : (Script.each checkScript
      (stepsFrom segment.first segment.length).reverse).checks = segment.length := by
    rw [Script.checks_each]
    change (List.map (fun _ => 1) _).sum = _
    rw [List.map_const', List.sum_replicate_nat, Nat.mul_one, List.length_reverse, stepsFrom,
      List.length_map, List.length_range]
  change Script.checks _ + Script.checks _ = _
  rw [recorded, checked, Nat.zero_add]

/-- A replay counts every step of its segment. -/
lemma checks_visitScript (segment : Segment) (left : Nat) :
    (visitScript segment left).checks = segment.length := by
  change 0 + Script.checks _ = _
  rw [checks_passScript, Nat.zero_add]

/-- Every replay that is left counts every step of its segment. -/
lemma checks_replaysScript (segment : Segment) (left : Nat) :
    (replaysScript segment left).checks = left * segment.length := by
  induction left with
  | zero => exact (Nat.zero_mul _).symm
  | succ left ih =>
    change 0 + (Script.checks _ + Script.checks _) = _
    rw [checks_visitScript, ih, Nat.zero_add, Nat.succ_mul, Nat.add_comm]

/-- A segment counts each of its steps as often as it is replayed. -/
lemma checks_segmentScript {replays : Nat} (positive : 0 < replays) (segment : Segment) :
    (segmentScript replays segment).checks = replays * segment.length := by
  obtain ⟨left, rfl⟩ := Nat.exists_eq_add_one.2 positive
  change 0 + (Script.checks _ + Script.checks _ + 0) = _
  rw [checks_visitScript, checks_replaysScript, Nat.add_sub_cancel, Nat.zero_add, Nat.add_zero,
    Nat.succ_mul, Nat.add_comm]

/-- A sweep counts every step, or as often as there are replays. -/
lemma checks_script {config : SweepConfig}
    (replays : 0 < config.checkpointEvery → 0 < config.replays)
    (fits : config.steps.toNat + config.checkpointEvery.toNat < wordLimit) :
    (script config).checks = config.checks := by
  rw [script, SweepConfig.checks]
  split
  case isTrue => exact checks_passScript _
  case isFalse every =>
    have positive : 0 < config.replays.toNat :=
      UInt64.lt_iff_toNat_lt.1 (replays (UInt64.pos_iff_ne_zero.2 every))
    have width : config.width = config.checkpointEvery := by rw [SweepConfig.width, if_neg every]
    have snapshots : (Script.each pushSnapshotScript config.slices).checks = 0 := by
      rw [Script.checks_each]
      exact List.sum_map_zero
    change Script.checks _ + Script.checks _ = _
    rw [snapshots, Script.checks_each, Nat.zero_add]
    simp only [checks_segmentScript positive]
    rw [List.sum_map_mul_left, List.map_reverse, List.sum_reverse,
      config.sum_slices (width.symm ▸ fits), Nat.mul_comm]

/-! ### Programs and their scripts -/

/-- The first replay finds the snapshot on the tape; the other ones bring it back before. -/
lemma replay_again (o : Overflow) (segment : Segment) (left : Nat) :
    replay o segment (left + 1) true =
      onTape Tape.resetRepeat >>= fun _ => replay o segment (left + 1) false := rfl

section Programs

variable {o : Overflow} {steps : UInt64}

/-- Recording a step follows its script. -/
lemma record_does {step : UInt64} (inside : step < steps) :
    Does o steps (record o step) (recordScript step) :=
  .values inside ((Does.onTape (StepValues.push_makes _)).seq fun _ => .traceLine _)

/-- Checking a step follows its script. -/
lemma check_does {step : UInt64} (inside : step < steps) :
    Does o steps (check o step) (checkScript step) := by
  have noted : Does o steps (check o step) (.ofCalls (Item.pops (StepValues.reduced step).items) ++
      (.ofLine (stepLine "-" step) ++ (.counted ++ .empty))) :=
    .values inside ((Does.onTape (StepValues.pop_makes _)).seq fun _ =>
      (Does.traceLine _).seq fun _ => Does.countStep.seq fun _ => .noteIf _)
  rw [Script.append_empty] at noted
  exact noted

/-- Recording a snapshot follows its script. -/
lemma pushSnapshot_does (segment : Segment) :
    Does o steps (pushSnapshot o segment) (pushSnapshotScript segment) :=
  (Does.onTape (Snapshot.push_makes _)).seq fun _ => .traceLine _

/-- Checking a snapshot follows its script. -/
lemma popSnapshot_does (segment : Segment) (mark : String) :
    Does o steps (popSnapshot segment mark) (popSnapshotScript segment mark) := by
  have noted : Does o steps (popSnapshot segment mark) (.ofCalls (Item.pops (restart segment)) ++
      (.ofLine (snapshotLine mark segment.first) ++ .empty)) :=
    (Does.onTape (Snapshot.pop_makes _ rfl)).seq fun _ =>
      (Does.traceLine _).seq fun _ => .noteIf _
  rw [Script.append_empty] at noted
  exact noted

variable {segment : Segment}

/-- A pass over a segment follows its script. -/
lemma pass_does (within : segment.stop ≤ steps) :
    Does o steps (pass o segment) (passScript segment) := by
  have inside step (mem : step ∈ stepsFrom segment.first segment.length) : step < steps :=
    UInt64.lt_of_lt_of_le (lt_of_mem_stepsFrom mem) within
  exact (Does.ascending fun step mem => record_does (inside step mem)).seq fun _ =>
    .descending fun step mem => check_does (inside step mem)

/-- A replay, and what comes behind it. -/
lemma replay_first_does (within : segment.stop ≤ steps) {left : Nat} {after : Script}
    (does : Does o steps (replay o segment left true) after) :
    Does o steps (replay o segment (left + 1) false) (visitScript segment left ++ after) := by
  rw [visitScript, Script.append_assoc]
  exact (popSnapshot_does segment _).seq fun _ => (pass_does within).seq fun _ => does

/-- The replays that are left follow their script. -/
lemma replay_again_does (within : segment.stop ≤ steps) (left : Nat) :
    Does o steps (replay o segment left true) (replaysScript segment left) := by
  induction left with
  | zero => exact .ret ()
  | succ left ih =>
    rw [replay_again]
    exact (Does.onTape (.call (c := .resetRepeat) rfl)).seq fun _ => replay_first_does within ih

/-- The replays of a segment under its level follow their script. -/
lemma replaySegment_does {replays : Nat} (positive : 0 < replays) (within : segment.stop ≤ steps) :
    Does o steps (replaySegment o replays segment) (segmentScript replays segment) := by
  obtain ⟨left, rfl⟩ := Nat.exists_eq_add_one.2 positive
  exact (Does.onTape (.call (c := .startRepeat) rfl)).seq fun _ =>
    (replay_first_does within (replay_again_does within left)).seq fun _ =>
      .onTape (.call (c := .endRepeat) rfl)

variable {config : SweepConfig}

/-- A sweep follows its script. -/
lemma perform_does (replays : 0 < config.checkpointEvery → 0 < config.replays) :
    Does o config.steps (perform o config config.slices) (script config) := by
  rw [perform, script]
  split
  case isTrue => exact pass_does (UInt64.le_refl _)
  case isFalse every =>
    have positive : 0 < config.replays.toNat :=
      UInt64.lt_iff_toNat_lt.1 (replays (UInt64.pos_iff_ne_zero.2 every))
    exact (Does.each fun segment _ => pushSnapshot_does segment).seq fun _ =>
      .each fun segment mem =>
        replaySegment_does positive (SweepConfig.stop_le (List.mem_reverse.1 mem))

/-! ### Whole sweeps -/

/-- A sweep that is asked for properly replays its segments if there are any. -/
lemma replays_of_valid (valid : config.flaw? = none) :
    0 < config.checkpointEvery → 0 < config.replays := fun some =>
  UInt64.pos_iff_ne_zero.2 fun zero => by
    rw [SweepConfig.flaw?, if_pos ⟨some, zero⟩] at valid
    cases valid

/-- A sweep without its report. -/
def undertake (o : Overflow) (config : SweepConfig) : Action Sweep Unit :=
  Action.orStop (config.segments o) >>= perform o config

/-- A sweep that is asked for properly reports on where it leads. -/
lemma run_eq (valid : config.flaw? = none) (s : Sweep) :
    run o config s = (undertake o config >>= fun _ =>
      Action.inspect (report s.tape.location s.tape.area.marks)) s := by
  rw [run, valid, undertake, bind_assoc]
  rfl

/-- A sweep over too many segments is stopped at once. -/
lemma undertake_of_many (many : SweepConfig.segmentLimit ≤ config.count) (s : Sweep) :
    undertake o config s = .error (.stopped .capacity) s := by
  rw [undertake, SweepConfig.segments_of_many many]
  rfl

/-- A sweep over too many segments does nothing. -/
lemma run_of_many (valid : config.flaw? = none) (many : SweepConfig.segmentLimit ≤ config.count)
    (s : Sweep) : run o config s = .error (.stopped .capacity) s := by
  rw [run_eq valid, bind_error (undertake_of_many many s)]

/-- A sweep over segments that can be held goes over them. -/
lemma undertake_eq (few : config.count < SweepConfig.segmentLimit)
    (fits : config.reach < wordLimit) : undertake o config = perform o config config.slices := by
  rw [undertake, SweepConfig.segments_of_reach few fits]
  rfl

/-- A sweep over segments that can be held follows its script up to its report. -/
lemma reporting_does (valid : config.flaw? = none) (few : config.count < SweepConfig.segmentLimit)
    (fits : config.reach < wordLimit) (location : Location) (marks : Marks) :
    Does o config.steps
      (undertake o config >>= fun _ => Action.inspect (report location marks)) (script config) := by
  have reported : Does o config.steps (Action.inspect (report location marks)) .empty :=
    .silent (g := id) (fun _ => rfl) (fun _ => rfl) (fun _ _ => rfl) fun _ _ => rfl
  have both := (perform_does (replays_of_valid valid)).seq fun _ => reported
  rw [Script.append_empty] at both
  rw [undertake_eq few fits]
  exact both

variable (o) in
/-- A sweep fails before it does anything, or it is asked for properly and its segments are not too
many. -/
lemma fails_or_starts (config : SweepConfig) : (∃ e, ∀ s, run o config s = .error e s) ∨
    config.flaw? = none ∧ config.count < SweepConfig.segmentLimit := by
  cases valid : config.flaw? with
  | some flaw =>
    refine .inl ⟨.invalidSettings flaw, fun s => ?_⟩
    rw [run, valid]
    rfl
  | none =>
    obtain few | many := Nat.lt_or_ge config.count SweepConfig.segmentLimit
    · exact .inr ⟨rfl, few⟩
    · exact .inl ⟨.stopped .capacity, run_of_many valid many⟩

/-- A sweep that ends was asked for properly and has made the calls of its script. -/
lemma runs_of_ok (fits : config.reach < wordLimit) {s s' : Sweep} {report : SweepReport}
    (ended : run o config s = .ok report s') :
    config.flaw? = none ∧ config.count < SweepConfig.segmentLimit ∧
      Tape.Runs (script config).calls s.tape s'.tape := by
  obtain ⟨e, fails⟩ | ⟨valid, few⟩ := fails_or_starts o config
  · rw [fails] at ended
    cases ended
  · rw [run_eq valid] at ended
    exact ⟨valid, few, ((reporting_does valid few fits _ _).ok ended).1⟩

end Programs

end Sweep

end AdjointTape

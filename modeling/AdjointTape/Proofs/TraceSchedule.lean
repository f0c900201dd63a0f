import AdjointTape.Proofs.Texts
import AdjointTape.Proofs.SweepScript

/-!
# The trace of a sweep

The lines of a trace are those of a schedule that is read off the configuration alone.  A sink that
refuses a line receives what came before it and nothing else.  A sweep does the same with any trace
and without one.
-/

open AdjointTape.Action

namespace AdjointTape

/-! ## Lines on their way to a sink -/

/-- Pieces that make up a line of text, with the only line break in the last one. -/
inductive Trace.Prints : List String → String → Prop where
  | last {text : String} (ends : text.toList.count '\n' = 1) : Prints [text] text
  | piece {pieces : List String} {text rest : String} (within : text.toList.count '\n' = 0)
    (prints : Prints pieces rest) : Prints (text :: pieces) (text ++ rest)

namespace Trace.Prints

variable {pieces : List String} {text received : String} {quota : Nat}

/-- A sink without a quota takes the whole line. -/
lemma taken (prints : Prints pieces text) :
    Sink.writeAll pieces ⟨received, none⟩ = (true, ⟨received ++ text, none⟩) := by
  induction prints generalizing received with
  | last ends => rfl
  | piece within prints ih =>
    rw [← String.append_assoc]
    exact ih

/-- A sink with a quota takes the whole line and counts it. -/
lemma counted (prints : Prints pieces text) :
    Sink.writeAll pieces ⟨received, some (quota + 1)⟩ =
      (true, ⟨received ++ text, some quota⟩) := by
  induction prints generalizing received with
  | last ends =>
    rw [Sink.writeAll, Sink.write, ends]
    rfl
  | piece within prints ih =>
    rw [Sink.writeAll, Sink.write, within, ← String.append_assoc]
    exact ih

/-- A sink with its quota used up takes no part of the line. -/
lemma refused (prints : Prints pieces text) :
    Sink.writeAll pieces ⟨received, some 0⟩ = (false, ⟨received, none⟩) := by
  cases prints <;> rfl

end Trace.Prints

/-- The lines of a text that a sink of a quota receives. -/
def Sink.share (lines : List String) : (quota : Option Nat) → List String
  | none => lines
  | some quota => lines.take quota

namespace Trace

variable {lines : List (List String)} {texts : List String}

/-- A trace that went silent stays so. -/
lemma lines_silent (lines : List (List String)) (sink : Sink) :
    Trace.lines lines ⟨sink, false⟩ = ⟨sink, false⟩ := by
  induction lines with
  | nil => rfl
  | cons pieces rest ih => exact ih

/-- A sink receives as many lines as it takes, and none of the next one. -/
lemma received_lines (prints : List.Forall₂ Prints lines texts) (quota : Option Nat)
    (received : String) :
    (Trace.lines lines ⟨⟨received, quota⟩, true⟩).sink.received =
      received ++ String.join (Sink.share texts quota) := by
  induction prints generalizing received quota with
  | nil => cases quota <;> simp [Trace.lines, Sink.share]
  | @cons pieces text lines texts line _ ih =>
    have next : Trace.lines (pieces :: lines) ⟨⟨received, quota⟩, true⟩ =
        Trace.lines lines (Trace.line pieces ⟨⟨received, quota⟩, true⟩) := rfl
    cases quota with
    | none =>
      rw [next, Trace.line, line.taken, ih, Sink.share, Sink.share, String.join_cons,
        String.append_assoc]
    | some quota =>
      cases quota with
      | zero =>
        rw [next, Trace.line, line.refused, lines_silent]
        exact (String.append_empty).symm
      | succ quota =>
        rw [next, Trace.line, line.counted, ih, Sink.share, Sink.share, List.take_succ_cons,
          String.join_cons, String.append_assoc]

end Trace

/-! ## The schedule -/

namespace Schedule

/-- A mark and a number of at least two digits. -/
def numbered (mark : String) (number : Nat) : String :=
  mark ++ padLeft 2 '0' (toString number) ++ ": "

/-- The line of a step. -/
def stepText (mark : String) (step : Nat) : String :=
  numbered mark step ++ "I4 I8 R4 R8 C8 C16 char bit PTR bit[3]" ++
    (if step % 4 = 0 then "" else " R8[" ++ toString (step % 4) ++ "]") ++ "\n"

/-- The line of a snapshot. -/
def snapshotText (mark : String) (first : Nat) : String := numbered mark first ++ "I8 R8[3]\n"

/-- The lines of the steps from `first` to below `stop`, up and down again. -/
def passTexts (first stop : Nat) : List String :=
  let steps := List.range' first (stop - first)
  steps.map (stepText "+") ++ steps.reverse.map (stepText "-")

/-- The lines of a segment: a pass for each replay, the last one with a mark of its own. -/
def segmentTexts (replays : Nat) (ends : Nat × Nat) : List String :=
  (List.replicate (replays - 1) "Ls" ++ ["-s"]).flatMap fun mark =>
    snapshotText mark ends.1 :: passTexts ends.1 ends.2

/-- The lines of a sweep over `steps` steps in segments of `every` steps, or in a single stretch if
that is zero. -/
def texts (steps every replays : Nat) : List String :=
  if every = 0 then passTexts 0 steps
  else (SweepConfig.stretches every steps).map (fun ends => snapshotText "+s" ends.1) ++
    (SweepConfig.stretches every steps).reverse.flatMap (segmentTexts replays)

end Schedule

/-! ## Scripts print the schedule -/

/-- A script whose lines are these texts. -/
def Script.Shows (p : Script) (texts : List String) : Prop :=
  List.Forall₂ Trace.Prints p.lines texts

namespace Script.Shows

variable {p q : Script} {texts texts' : List String}

/-- Calls show no line. -/
lemma ofCalls (calls : List Call) : Shows (.ofCalls calls) [] := .nil

/-- A line shows its text. -/
lemma ofLine {pieces : List String} {text : String} (prints : Trace.Prints pieces text) :
    Shows (.ofLine pieces) [text] := .cons prints .nil

/-- One script behind another one shows the lines of both. -/
lemma append (hp : Shows p texts) (hq : Shows q texts') : Shows (p ++ q) (texts ++ texts') :=
  List.rel_append hp hq

/-- A script for each element shows the lines of all of them. -/
lemma each {γ : Type} {script : γ → Script} {texts : γ → List String}
    (shows' : ∀ c, Shows (script c) (texts c)) (cs : List γ) :
    Shows (.each script cs) (cs.flatMap texts) := by
  induction cs with
  | nil => exact .nil
  | cons c rest ih => exact (shows' c).append ih

/-- A script of one line for each element shows a line for each. -/
lemma eachLine {γ : Type} {script : γ → Script} {text : γ → String}
    (shows' : ∀ c, Shows (script c) [text c]) (cs : List γ) :
    Shows (.each script cs) (cs.map text) := by
  rw [List.map_eq_flatMap]
  exact each shows' cs

end Script.Shows

namespace Schedule

/-- A text without a line break. -/
def Unbroken (text : String) : Prop := text.toList.count '\n' = 0

/-- Texts without a line break make one without. -/
lemma Unbroken.append {text text' : String} (first : Unbroken text) (next : Unbroken text') :
    Unbroken (text ++ text') := by
  rw [Unbroken, String.toList_append, List.count_append, first, next]

/-- Digits have no line break among them. -/
lemma unbroken_of_digits {text : String} (digits : ∀ c ∈ text.toList, c.isDigit = true) :
    Unbroken text :=
  List.count_eq_zero.2 fun mem => absurd (digits _ mem) (by decide)

/-- A number with a mark has no line break. -/
lemma unbroken_numbered {mark : String} (unbroken : Unbroken mark) (number : Nat) :
    Unbroken (numbered mark number) :=
  (unbroken.append (unbroken_of_digits fun _ => isDigit_of_mem_padded)).append rfl

end Schedule

namespace Sweep

open Schedule

/-- The pieces of the line of a step make up its text. -/
lemma stepLine_prints {mark : String} (unbroken : Unbroken mark) (step : UInt64) :
    Trace.Prints (stepLine mark step) (stepText mark step.toNat) := by
  have kinds : label mark step ++ "I4 I8 R4 R8 C8 C16 char bit PTR bit[" ++ toString tagWidth ++
      "]" = numbered mark step.toNat ++ "I4 I8 R4 R8 C8 C16 char bit PTR bit[3]" := by
    rw [String.append_assoc, String.append_assoc]
    rfl
  have heading : Unbroken (numbered mark step.toNat ++ "I4 I8 R4 R8 C8 C16 char bit PTR bit[3]") :=
    (unbroken_numbered unbroken _).append rfl
  have bracket : Unbroken " R8[" := rfl
  have count : Unbroken (" R8[" ++ toString (step.toNat % 4) ++ "]") :=
    (bracket.append (unbroken_of_digits fun _ => isDigit_of_mem_number)).append rfl
  rw [stepLine, kinds, stepText]
  by_cases none : step.toNat % 4 = 0
  case pos =>
    have single : ¬ StepValues.arrayLength step ≠ 0 := not_not_intro none
    rw [if_neg single, if_pos none, String.append_empty]
    exact .piece heading (.last rfl)
  case neg =>
    have some : StepValues.arrayLength step ≠ 0 := none
    have newline : "\n".toList.count '\n' = 1 := rfl
    have pieces := Trace.Prints.piece heading (.piece count (.last newline))
    rw [← String.append_assoc] at pieces
    rw [if_pos some, if_neg none]
    exact pieces

/-- The pieces of the line of a snapshot make up its text. -/
lemma snapshotLine_prints {mark : String} (unbroken : Unbroken mark) (first : UInt64) :
    Trace.Prints (snapshotLine mark first) (snapshotText mark first.toNat) :=
  .piece (unbroken_numbered unbroken _) (.last rfl)

/-- Recording a step shows its line. -/
lemma recordScript_shows (step : UInt64) :
    (recordScript step).Shows [stepText "+" step.toNat] :=
  have mark : Unbroken "+" := rfl
  (Script.Shows.ofCalls _).append (.ofLine (stepLine_prints mark step))

/-- Checking a step shows its line. -/
lemma checkScript_shows (step : UInt64) : (checkScript step).Shows [stepText "-" step.toNat] :=
  have mark : Unbroken "-" := rfl
  (Script.Shows.ofCalls _).append ((Script.Shows.ofLine (stepLine_prints mark step)).append .nil)

/-- Recording a snapshot shows its line. -/
lemma pushSnapshotScript_shows (segment : Segment) :
    (pushSnapshotScript segment).Shows [snapshotText "+s" segment.first.toNat] :=
  have mark : Unbroken "+s" := rfl
  (Script.Shows.ofCalls _).append (.ofLine (snapshotLine_prints mark _))

/-- Checking a snapshot shows its line. -/
lemma popSnapshotScript_shows {mark : String} (unbroken : Unbroken mark) (segment : Segment) :
    (popSnapshotScript segment mark).Shows [snapshotText mark segment.first.toNat] :=
  (Script.Shows.ofCalls _).append (.ofLine (snapshotLine_prints unbroken _))

/-- As long as no step number wraps around, the steps of a pass are consecutive numbers. -/
lemma toNat_stepsFrom {first : UInt64} {count : Nat} (fits : first.toNat + count ≤ wordLimit) :
    (stepsFrom first count).map UInt64.toNat = List.range' first.toNat count := by
  rw [stepsFrom, List.map_map, List.range'_eq_map_range]
  refine List.map_congr_left fun i mem => ?_
  have within : first.toNat + i < wordLimit :=
    Nat.lt_of_lt_of_le (Nat.add_lt_add_left (List.mem_range.1 mem) _) fits
  have small : (UInt64.ofNat i).toNat = i :=
    UInt64.toNat_ofNat_of_lt' (Nat.lt_of_le_of_lt (Nat.le_add_left _ _) within)
  rw [Function.comp, UInt64.toNat_add, small]
  exact Nat.mod_eq_of_lt within

/-- The steps of a pass stay below its end. -/
lemma toNat_steps (segment : Segment) :
    (stepsFrom segment.first segment.length).map UInt64.toNat =
      List.range' segment.first.toNat (segment.stop.toNat - segment.first.toNat) := by
  refine toNat_stepsFrom ?_
  have first := segment.first.toNat_lt
  have stop := segment.stop.toNat_lt
  rw [Segment.length, wordLimit]
  omega

/-- A pass shows the lines of its steps, up and down again. -/
lemma passScript_shows (segment : Segment) :
    (passScript segment).Shows (passTexts segment.first.toNat segment.stop.toNat) := by
  rw [passTexts, ← toNat_steps, ← List.map_reverse, List.map_map, List.map_map]
  exact (Script.Shows.eachLine recordScript_shows _).append (.eachLine checkScript_shows _)

/-- The replays of a segment, all but the last of them with the same mark. -/
lemma visits_show (segment : Segment) (left : Nat) :
    (visitScript segment left ++ replaysScript segment left).Shows
      ((List.replicate left "Ls" ++ ["-s"]).flatMap fun mark =>
        snapshotText mark segment.first.toNat ::
          passTexts segment.first.toNat segment.stop.toNat) := by
  induction left with
  | zero =>
    have mark : Unbroken "-s" := rfl
    have last : (visitScript segment 0).Shows (snapshotText "-s" segment.first.toNat ::
        passTexts segment.first.toNat segment.stop.toNat) :=
      (popSnapshotScript_shows mark segment).append (passScript_shows segment)
    exact last.append .nil
  | succ left ih =>
    have mark : Unbroken "Ls" := rfl
    have next : (visitScript segment (left + 1)).Shows (snapshotText "Ls" segment.first.toNat ::
        passTexts segment.first.toNat segment.stop.toNat) :=
      (popSnapshotScript_shows mark segment).append (passScript_shows segment)
    rw [List.replicate_succ, List.cons_append, List.flatMap_cons]
    exact next.append ((Script.Shows.ofCalls _).append ih)

/-- The replays of a segment show its lines. -/
lemma segmentScript_shows (replays : Nat) (segment : Segment) :
    (segmentScript replays segment).Shows
      (segmentTexts replays (segment.first.toNat, segment.stop.toNat)) := by
  have shown := (visits_show segment (replays - 1)).append (.ofCalls [.endRepeat])
  rw [List.append_nil] at shown
  exact (Script.Shows.ofCalls _).append shown

/-- A sweep prints its schedule. -/
lemma script_shows {config : SweepConfig}
    (fits : config.steps.toNat + config.checkpointEvery.toNat < wordLimit) :
    (script config).Shows (texts config.steps.toNat config.checkpointEvery.toNat
      config.replays.toNat) := by
  rw [script, texts]
  by_cases every : config.checkpointEvery = 0
  case pos =>
    have single : config.checkpointEvery.toNat = 0 := congrArg UInt64.toNat every
    rw [if_pos every, if_pos single]
    exact passScript_shows _
  case neg =>
    have several : config.checkpointEvery.toNat ≠ 0 := fun zero => every (UInt64.toNat_inj.1 zero)
    have width : config.width = config.checkpointEvery := by rw [SweepConfig.width, if_neg every]
    rw [if_neg every, if_neg several, ← width, ← config.bounds_slices (width.symm ▸ fits),
      ← List.map_reverse, List.flatMap_map, List.map_map]
    exact (Script.Shows.eachLine pushSnapshotScript_shows _).append
      (.each (segmentScript_shows config.replays.toNat) _)

end Sweep

/-! ## The trace is the schedule -/

/-- The trace of a sweep is its schedule, and nobody but its sink can tell whether there is one.  On
every tape, as long as the step numbers stay within a word: when a sweep succeeds without a trace,
it succeeds with one, whatever the sink takes, with the same report and the same tape, and the sink
has received the lines of the schedule that it took and nothing else; when it fails, it fails the
same way and leaves the same tape. -/
theorem trace_is_the_schedule (t : Tape) (o : Overflow) {config : SweepConfig}
    (fits : config.steps.toNat + config.checkpointEvery.toNat < wordLimit)
    (quota : Option Nat) :
    (∀ report s, Sweep.run o config (.start t .off) = .ok report s →
      ∃ s', Sweep.run o config (.start t (.into quota)) = .ok report s' ∧ s'.tape = s.tape ∧
        s'.trace.sink.received = String.join (Sink.share (Schedule.texts config.steps.toNat
          config.checkpointEvery.toNat config.replays.toNat) quota)) ∧
    ∀ e s, Sweep.run o config (.start t .off) = .error e s →
      ∃ s', Sweep.run o config (.start t (.into quota)) = .error e s' ∧ s'.tape = s.tape := by
  obtain ⟨e, fails⟩ | ⟨valid, few⟩ := Sweep.fails_or_starts o config
  case inl =>
    rw [fails, fails]
    refine ⟨fun report s run => ?_, fun e s run => ?_⟩
    · cases run
    · obtain ⟨rfl, rfl⟩ := EStateM.Result.error.inj run
      exact ⟨_, rfl, rfl⟩
  case inr =>
    have does := Sweep.reporting_does (o := o) valid few (SweepConfig.reach_lt fits) t.location
      t.area.marks
    rw [Sweep.run_eq valid, Sweep.run_eq valid]
    refine ⟨fun report s run => ⟨_, (does.ok run).2 (.into quota), rfl, ?_⟩, fun e s run => ?_⟩
    · have received := Trace.received_lines (Sweep.script_shows fits) quota ""
      rw [String.empty_append] at received
      exact received
    · obtain ⟨trace, failed⟩ := does.error run (.into quota)
      exact ⟨_, failed, rfl⟩

/-- Three steps in two segments that are replayed twice, for a sink of six lines: the snapshots of
both segments, a replay of the last one, and what the next replay begins with. -/
theorem trace_is_the_schedule_up_to_a_refusal :
    let config : SweepConfig := ⟨3, 2, 2⟩
    config.steps.toNat + config.checkpointEvery.toNat < wordLimit ∧
      ∃ (t : Tape) (report : SweepReport) (s s' : Sweep),
        Sweep.run .stops config (.start t .off) = .ok report s ∧
        Sweep.run .stops config (.start t (.into (some 6))) = .ok report s' ∧ s'.tape = s.tape ∧
        s'.trace.sink.received =
          "+s00: I8 R8[3]\n+s02: I8 R8[3]\nLs02: I8 R8[3]\n" ++
          "+02: I4 I8 R4 R8 C8 C16 char bit PTR bit[3] R8[2]\n" ++
          "-02: I4 I8 R4 R8 C8 C16 char bit PTR bit[3] R8[2]\n-s02: I8 R8[3]\n" := by
  intro config
  have fits : config.steps.toNat + config.checkpointEvery.toNat < wordLimit := by decide
  have created : Tape.create ⟨8, 2⟩ none = .ok _ := rfl
  obtain ⟨t, -, room⟩ : ∃ t : Tape, Tape.create ⟨8, 2⟩ none = .ok t ∧
      (outcome (Sweep.run .stops config (.start t .off))).toBool = true :=
    ⟨_, created, by decide +kernel⟩
  obtain ⟨succeeds, -⟩ := trace_is_the_schedule t .stops fits (some 6)
  obtain ⟨report, s, run⟩ := ok_of_toBool room
  obtain ⟨s', run', tape, received⟩ := succeeds report s run
  exact ⟨fits, t, report, s, s', run, run', tape, received.trans (by decide +kernel)⟩

end AdjointTape

import AdjointTape.Sweep.Schedule
import AdjointTape.Sweep.Trace
import AdjointTape.Sweep.Values

/-!
# Running a sweep

The forward sweep records every step, or only a snapshot for each segment.  The adjoint sweep pops
the steps in reverse order and compares; a segment is first restored from its snapshot under a
repeat level and recorded again, as many times as there are replays.
-/

namespace AdjointTape

/-- A step whose values did not come back. -/
structure Mismatch where
  step : UInt64
  expected : String
  found : String
  deriving DecidableEq

/-- What a sweep found out. -/
structure SweepReport where
  /-- Steps popped and compared, every replay counted. -/
  stepsChecked : UInt64
  mismatches : List Mismatch
  peakBlocks : Nat
  peakBytes : Nat
  totalTraffic : UInt64
  /-- Whether cursor and buffers are where they were, with no level open. -/
  balanced : Bool

/-- Nothing differed and the tape is where it was. -/
def SweepReport.isClean (r : SweepReport) : Bool := r.mismatches.isEmpty && r.balanced

/-- A sweep in progress. -/
structure Sweep where
  tape : Tape
  trace : Trace
  stepsChecked : UInt64
  /-- The latest mismatch first. -/
  mismatches : List Mismatch

namespace Sweep

/-- A sweep that has done nothing yet. -/
def start (tape : Tape) (trace : Trace) : Sweep :=
  { tape, trace, stepsChecked := 0, mismatches := [] }

/-- Performs a call on the tape. -/
@[inline] def onTape {α : Type} (call : Action Tape α) : Action Sweep α :=
  fun ⟨tape, trace, stepsChecked, mismatches⟩ =>
    match call tape with
    | .ok a tape => .ok a ⟨tape, trace, stepsChecked, mismatches⟩
    | .error e tape => .error e ⟨tape, trace, stepsChecked, mismatches⟩

/-- Traces a line. -/
def traceLine (pieces : List String) (s : Sweep) : Sweep :=
  { s with trace := s.trace.line pieces }

/-- Counts a step that was compared. -/
def countStep (o : Overflow) : Action Sweep Unit := fun s =>
  match o.add s.stepsChecked 1 with
  | .ok stepsChecked => .ok () { s with stepsChecked }
  | .error cause => .error (.stopped cause) s

/-- Notes a mismatch. -/
def note (m : Mismatch) (s : Sweep) : Sweep := { s with mismatches := m :: s.mismatches }

/-- A mark and a number of at least two digits. -/
def label (mark : String) (number : UInt64) : String :=
  mark ++ padLeft 2 '0' (toString number.toNat) ++ ": "

/-- The pieces of the line of a step. -/
def stepLine (mark : String) (step : UInt64) : List String :=
  let count := StepValues.arrayLength step
  (label mark step ++ "I4 I8 R4 R8 C8 C16 char bit PTR bit[" ++ toString tagWidth ++ "]") ::
    (if count ≠ 0 then [" R8[" ++ toString count ++ "]"] else []) ++ ["\n"]

/-- The pieces of the line of a snapshot. -/
def snapshotLine (mark : String) (first : UInt64) : List String :=
  [label mark first, "I8 R8[" ++ toString Snapshot.stateLength ++ "]\n"]

/-- Records a step. -/
def record (o : Overflow) (step : UInt64) : Action Sweep Unit := do
  let values ← Action.orStop (StepValues.ofStep o step)
  onTape (values.push o)
  Action.update (traceLine (stepLine "+" step))

/-- Pops a step and compares it. -/
def check (o : Overflow) (step : UInt64) : Action Sweep Unit := do
  let expected ← Action.orStop (StepValues.ofStep o step)
  let found ← onTape (StepValues.pop expected.array.length)
  Action.update (traceLine (stepLine "-" step))
  countStep o
  if ¬ found.agrees expected then
    Action.update (note { step, expected := expected.text, found := found.text })

/-- Records the snapshot of a segment. -/
def pushSnapshot (o : Overflow) (segment : Segment) : Action Sweep Unit := do
  onTape ((Snapshot.ofStep segment.first).push o)
  Action.update (traceLine (snapshotLine "+s" segment.first))

/-- Pops the snapshot of a segment and compares it. -/
def popSnapshot (segment : Segment) (mark : String) : Action Sweep Unit := do
  let expected := Snapshot.ofStep segment.first
  let found ← onTape Snapshot.pop
  Action.update (traceLine (snapshotLine mark segment.first))
  if ¬ found.agrees expected then
    Action.update
      (note { step := segment.first, expected := expected.text, found := found.text })

/-- Records the steps of a segment and pops them again. -/
def pass (o : Overflow) (segment : Segment) : Action Sweep Unit := do
  Action.ascending (record o) segment.length segment.first
  Action.descending (check o) segment.length segment.first

/-- The replays of a segment that are still to do; all but the very first one restart the level. -/
def replay (o : Overflow) (segment : Segment) :
    (left : Nat) → (again : Bool) → Action Sweep Unit
  | 0, _ => fun s => .ok () s
  | left + 1, again => do
    if again then onTape Tape.resetRepeat
    popSnapshot segment (if left = 0 then "-s" else "Ls")
    pass o segment
    replay o segment left true

/-- Replays a segment under a repeat level of its own. -/
def replaySegment (o : Overflow) (replays : Nat) (segment : Segment) : Action Sweep Unit := do
  onTape Tape.startRepeat
  replay o segment replays false
  onTape Tape.endRepeat

/-- The forward and the adjoint sweep, in these segments if there are to be any. -/
def perform (o : Overflow) (config : SweepConfig) (segments : List Segment) : Action Sweep Unit :=
  if config.checkpointEvery = 0 then
    pass o { first := 0, stop := config.steps }
  else do
    Action.each (pushSnapshot o) segments
    Action.each (replaySegment o config.replays.toNat) segments.reverse

/-- What there is to report after a sweep that began at a location with the given fill indices. -/
def report (location : Location) (marks : Marks) (s : Sweep) : SweepReport where
  stepsChecked := s.stepsChecked
  mismatches := s.mismatches.reverse
  peakBlocks := s.tape.peakBlocks
  peakBytes := s.tape.peakBytes
  totalTraffic := s.tape.totalTraffic
  balanced := s.tape.location = location && s.tape.area.marks = marks && s.tape.depth = 0

/-- Runs a sweep. -/
def run (o : Overflow) (config : SweepConfig) : Action Sweep SweepReport := do
  if let some flaw := config.flaw? then throw (.invalidSettings flaw)
  let location ← Action.inspect (·.tape.location)
  let marks ← Action.inspect (·.tape.area.marks)
  let segments ← Action.orStop (config.segments o)
  perform o config segments
  Action.inspect (report location marks)

end Sweep

end AdjointTape

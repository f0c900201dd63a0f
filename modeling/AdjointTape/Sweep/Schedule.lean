import AdjointTape.Failure

/-!
# Schedule of a sweep

A sweep goes over its steps in one stretch, or in segments that restart from a snapshot each.  Step
numbers are machine words, and the segments are a list that has to be held in memory.
-/

namespace AdjointTape

/-- What a sweep is asked to do. -/
structure SweepConfig where
  steps : UInt64
  /-- Steps per segment; zero records every step up front. -/
  checkpointEvery : UInt64
  /-- Times each segment is recorded again and popped. -/
  replays : UInt64
  deriving DecidableEq

/-- The steps from `first` to below `stop`. -/
structure Segment where
  first : UInt64
  stop : UInt64
  deriving DecidableEq

namespace Segment

/-- The number of steps. -/
def length (s : Segment) : Nat := s.stop.toNat - s.first.toNat

end Segment

namespace SweepConfig

/-- Segments that are never replayed would never be recorded. -/
def flaw? (c : SweepConfig) : Option SettingsFlaw :=
  if 0 < c.checkpointEvery ∧ c.replays = 0 then some .noReplays else none

/-- The steps of a full segment. -/
def width (c : SweepConfig) : UInt64 :=
  if c.checkpointEvery = 0 then (if c.steps = 0 then 1 else c.steps) else c.checkpointEvery

/-- The number of segments. -/
def count (c : SweepConfig) : Nat := (c.steps.toNat + c.width.toNat - 1) / c.width.toNat

/-- As many segments, of two words each, are more than memory can address. -/
def segmentLimit : Nat := 576460752303423488

/-- The segment between two steps, cut off at the end. -/
def cutOff (c : SweepConfig) (first stop : UInt64) : Segment :=
  { first, stop := if stop < c.steps then stop else c.steps }

/-- The segment with `i` others before it.  Its end is computed before it is cut off. -/
def segment (o : Overflow) (c : SweepConfig) (i : Nat) : Except Stop Segment := do
  let first := UInt64.ofNat (i * c.width.toNat)
  let stop ← o.add first c.width
  return c.cutOff first stop

/-- The steps in segments of the full width, the last one cut off at the end. -/
def segments (o : Overflow) (c : SweepConfig) : Except Stop (List Segment) :=
  if segmentLimit ≤ c.count then .error .capacity
  else (List.range c.count).mapM (c.segment o)

end SweepConfig

namespace Action

/-- Performs a call for `count` steps in ascending order. -/
def ascending {σ : Type} (call : UInt64 → Action σ Unit) :
    (count : Nat) → (first : UInt64) → Action σ Unit
  | 0, _ => fun s => .ok () s
  | count + 1, first => fun s =>
    match call first s with
    | .ok _ s => ascending call count (first + 1) s
    | .error e s => .error e s

/-- Performs a call for `count` steps in descending order, down to `first`. -/
def descending {σ : Type} (call : UInt64 → Action σ Unit) :
    (count : Nat) → (first : UInt64) → Action σ Unit
  | 0, _ => fun s => .ok () s
  | count + 1, first => fun s =>
    match call (first + UInt64.ofNat count) s with
    | .ok _ s => descending call count first s
    | .error e s => .error e s

/-- Performs a call for every element of a list. -/
def each {σ α : Type} (call : α → Action σ Unit) : List α → Action σ Unit
  | [] => fun s => .ok () s
  | a :: rest => fun s =>
    match call a s with
    | .ok _ s => each call rest s
    | .error e s => .error e s

end Action

end AdjointTape

import AdjointTape.Proofs.TraceSchedule
import Mathlib.Data.List.Range

/-!
# How segments share out the steps

The first segment starts at zero, each next one where the one before it ends, all are of the full
width but the last, and the last ends with the steps.  The end of a segment is computed as a word
before it is cut off at the last step.  Where the steps, rounded up to whole segments, go past a
word, the end of the last segment leaves its range.  A program that is built to stop is stopped
there; in one that goes on, the end wraps around to a place before the start: the segment is empty,
and the steps behind its start belong to none.
-/

namespace AdjointTape

/-- The steps that a pass over a segment records, in this order, and checks, in the opposite one. -/
def Segment.steps (s : Segment) : List UInt64 := Sweep.stepsFrom s.first s.length

namespace SweepConfig

/-- Segments that share out the steps of a sweep. -/
structure SharesOut (c : SweepConfig) (segments : List Segment) : Prop where
  begins : ∀ s ∈ segments.head?, s.first = 0
  ends : ∀ s ∈ segments.getLast?, s.stop = c.steps
  adjoin : segments.IsChain fun s s' => s'.first = s.stop
  nonempty : ∀ s ∈ segments, s.first < s.stop
  none : segments = [] ↔ c.steps = 0
  single : c.checkpointEvery = 0 → c.steps ≠ 0 → segments = [⟨0, c.steps⟩]
  full : c.checkpointEvery ≠ 0 → ∀ s ∈ segments.dropLast, s.length = c.checkpointEvery.toNat
  last : c.checkpointEvery ≠ 0 → ∀ s ∈ segments.getLast?, s.length ≤ c.checkpointEvery.toNat
  once : (segments.flatMap Segment.steps).map UInt64.toNat = List.range c.steps.toNat

variable {c : SweepConfig} {i : Nat}

/-- The segments are numbered from zero on. -/
lemma mem_slices {s : Segment} : s ∈ c.slices ↔ ∃ i < c.count, c.slice i = s := by
  rw [slices, List.mem_map]
  exact exists_congr fun i => and_congr_left fun _ => List.mem_range

/-- Every segment starts before the last step. -/
lemma start_lt (inside : i < c.count) : i * c.width.toNat < c.steps.toNat := by
  have few := c.reach_bounds.2
  have within : (i + 1) * c.width.toNat ≤ c.reach := Nat.mul_le_mul_right _ inside
  rw [Nat.succ_mul] at within
  exact Nat.lt_of_add_lt_add_right (Nat.lt_of_le_of_lt within few)

/-- Without steps there are no segments. -/
lemma count_eq_zero : c.count = 0 ↔ c.steps = 0 := by
  rw [← UInt64.toNat_inj, UInt64.toNat_zero]
  constructor
  · intro zero
    have enough := c.reach_bounds.1
    rw [reach, zero, Nat.zero_mul] at enough
    exact Nat.le_zero.1 enough
  · intro none
    refine Nat.eq_zero_of_not_pos fun some => ?_
    have before := start_lt some
    rw [none] at before
    exact Nat.not_lt_zero _ before

/-! ## Single segments -/

/-- A segment starts behind as many full ones as come before it. -/
lemma first_slice (inside : i < c.count) : (c.slice i).first.toNat = i * c.width.toNat :=
  UInt64.toNat_ofNat_of_lt' ((start_lt inside).trans c.steps.toNat_lt)

/-- A segment with another one behind it is of the full width. -/
lemma stop_slice (inside : i + 1 < c.count) :
    (c.slice i).stop.toNat = (i + 1) * c.width.toNat := by
  have before := start_lt inside
  rw [Nat.succ_mul] at before ⊢
  have stop := (c.bounds_slice (i * c.width.toNat) (before.trans c.steps.toNat_lt)).2
  exact stop.trans (Nat.min_eq_left (Nat.le_of_lt before))

/-- Where another segment comes after it the end of a segment stays in range. -/
lemma end_lt (inside : i + 1 < c.count) :
    (c.slice i).first.toNat + c.width.toNat < wordLimit := by
  rw [first_slice (Nat.lt_of_succ_lt inside), ← Nat.succ_mul]
  exact (start_lt inside).trans c.steps.toNat_lt

/-- The last segment ends with the steps if its full width does not wrap around. -/
lemma stop_last (last : c.count = i + 1) (fits : c.reach < wordLimit) :
    (c.slice i).stop = c.steps := by
  have enough := c.reach_bounds.1
  rw [reach, last, Nat.succ_mul] at fits enough
  have stop := (c.bounds_slice (i * c.width.toNat) fits).2
  exact UInt64.toNat_inj.1 (stop.trans (Nat.min_eq_right enough))

/-- An end that wraps around comes before the start of its segment. -/
lemma stop_wraps (last : c.count = i + 1) (wraps : wordLimit ≤ c.reach) :
    (c.slice i).stop.toNat = c.reach - wordLimit ∧ (c.slice i).stop < (c.slice i).first := by
  have inside : i < c.count := last ▸ Nat.lt_succ_self i
  have start := start_lt inside
  have first := first_slice inside
  have steps := c.steps.toNat_lt
  have width := c.width.toNat_lt
  rw [reach, last, Nat.succ_mul, wordLimit] at wraps ⊢
  have sum : ((c.slice i).first + c.width).toNat =
      i * c.width.toNat + c.width.toNat - 18446744073709551616 := by
    rw [UInt64.toNat_add, first]
    omega
  have early : (c.slice i).first + c.width < (c.slice i).first := by
    rw [UInt64.lt_iff_toNat_lt, sum, first]
    omega
  have stop : (c.slice i).stop = (c.slice i).first + c.width := by
    refine if_pos (UInt64.lt_trans early ?_)
    rw [UInt64.lt_iff_toNat_lt, first]
    exact start
  rw [stop]
  exact ⟨sum, early⟩

/-! ## All segments -/

/-- The last one of the segments. -/
lemma slices_succ (last : c.count = i + 1) :
    c.slices = (List.range i).map c.slice ++ [c.slice i] := by
  rw [slices, last, List.range_succ, List.map_append, List.map_singleton]

/-- Each segment starts where the one before it ends. -/
lemma adjoin_slices (c : SweepConfig) : c.slices.IsChain fun s s' => s'.first = s.stop := by
  rw [slices, List.isChain_map, List.isChain_range]
  intro i before
  have inside : i + 1 < c.count := Nat.add_lt_of_lt_sub before
  rw [← UInt64.toNat_inj, first_slice inside, stop_slice inside]

/-- As long as no end wraps around, every segment has a step. -/
lemma nonempty_slices (fits : c.reach < wordLimit) : ∀ s ∈ c.slices, s.first < s.stop := by
  intro s mem
  obtain ⟨i, inside, rfl⟩ := mem_slices.1 mem
  rw [UInt64.lt_iff_toNat_lt, first_slice inside]
  obtain before | last := Nat.lt_or_eq_of_le (Nat.succ_le_of_lt inside)
  · rw [stop_slice before, Nat.succ_mul]
    exact Nat.lt_add_of_pos_right c.width_pos
  · rw [stop_last last.symm fits]
    exact start_lt inside

/-- Segments with another one behind them have all the steps before the start of that one. -/
lemma steps_before (inside : i < c.count) :
    (((List.range i).map c.slice).flatMap Segment.steps).map UInt64.toNat =
      List.range (i * c.width.toNat) := by
  induction i with
  | zero =>
    rw [Nat.zero_mul]
    rfl
  | succ i ih =>
    have next : (c.slice i).steps.map UInt64.toNat =
        List.range' (i * c.width.toNat) c.width.toNat := by
      rw [Segment.steps, Sweep.toNat_steps, first_slice (Nat.lt_of_succ_lt inside),
        stop_slice inside, Nat.succ_mul, Nat.add_sub_cancel_left]
    rw [List.range_succ, List.map_append, List.flatMap_append, List.map_append,
      ih (Nat.lt_of_succ_lt inside), List.map_singleton, List.flatMap_singleton, next,
      List.range_eq_range', List.range_eq_range', Nat.succ_mul, ← List.range'_append_1,
      Nat.zero_add]

/-- As long as no end wraps around, the segments have all the steps. -/
lemma steps_slices (fits : c.reach < wordLimit) :
    (c.slices.flatMap Segment.steps).map UInt64.toNat = List.range c.steps.toNat := by
  cases last : c.count with
  | zero =>
    rw [slices, last, count_eq_zero.1 last]
    rfl
  | succ i =>
    have inside : i < c.count := last ▸ Nat.lt_succ_self i
    have start := start_lt inside
    rw [slices_succ last, List.flatMap_append, List.map_append, steps_before inside,
      List.flatMap_singleton, Segment.steps, Sweep.toNat_steps, first_slice inside,
      stop_last last fits, List.range_eq_range', List.range_eq_range']
    have split := List.range'_append_1 (s := 0) (m := i * c.width.toNat)
      (n := c.steps.toNat - i * c.width.toNat)
    rw [Nat.zero_add, Nat.add_sub_cancel' (Nat.le_of_lt start)] at split
    exact split

/-- The first segment. -/
lemma of_mem_head? {s : Segment} (mem : s ∈ c.slices.head?) : 0 < c.count ∧ s = c.slice 0 := by
  cases more : c.count with
  | zero =>
    rw [slices, more] at mem
    cases mem
  | succ n =>
    rw [slices, more, List.range_succ_eq_map] at mem
    exact ⟨Nat.succ_pos n, (Option.some.inj mem).symm⟩

/-- The last segment. -/
lemma of_mem_getLast? {s : Segment} (mem : s ∈ c.slices.getLast?) :
    ∃ i, c.count = i + 1 ∧ s = c.slice i := by
  cases more : c.count with
  | zero =>
    rw [slices, more] at mem
    cases mem
  | succ n =>
    rw [slices_succ more, List.getLast?_concat] at mem
    exact ⟨n, rfl, (Option.some.inj mem).symm⟩

/-- A segment that another one comes after. -/
lemma of_mem_dropLast {s : Segment} (mem : s ∈ c.slices.dropLast) :
    ∃ i, i + 1 < c.count ∧ s = c.slice i := by
  cases more : c.count with
  | zero =>
    rw [slices, more] at mem
    cases mem
  | succ n =>
    rw [slices_succ more, List.dropLast_concat] at mem
    obtain ⟨i, before, rfl⟩ := List.mem_map.1 mem
    exact ⟨i, Nat.succ_lt_succ (List.mem_range.1 before), rfl⟩

/-- There are no segments exactly where there are no steps. -/
lemma slices_eq_nil : c.slices = [] ↔ c.steps = 0 := by
  rw [slices, List.map_eq_nil_iff, List.range_eq_nil, count_eq_zero]

/-- A segment that another one comes after is of the full width. -/
lemma length_slice (inside : i + 1 < c.count) : (c.slice i).length = c.width.toNat := by
  rw [Segment.length, first_slice (Nat.lt_of_succ_lt inside), stop_slice inside, Nat.succ_mul,
    Nat.add_sub_cancel_left]

/-- The last segment is of the full width at most. -/
lemma length_last (last : c.count = i + 1) (fits : c.reach < wordLimit) :
    (c.slice i).length ≤ c.width.toNat := by
  have inside : i < c.count := last ▸ Nat.lt_succ_self i
  have enough := c.reach_bounds.1
  rw [reach, last, Nat.succ_mul] at enough
  rw [Segment.length, first_slice inside, stop_last last fits]
  exact Nat.sub_le_of_le_add (Nat.add_comm .. ▸ enough)

/-- Steps that are recorded up front are a single segment. -/
lemma slices_single (single : c.checkpointEvery = 0) (some : c.steps ≠ 0) :
    c.slices = [⟨0, c.steps⟩] := by
  have width : c.width = c.steps := by rw [width, if_pos single, if_neg some]
  have few : ¬ 1 < c.count := fun more => by
    have start := start_lt more
    rw [width, Nat.one_mul] at start
    exact Nat.lt_irrefl _ start
  have last : c.count = 0 + 1 :=
    Nat.le_antisymm (Nat.le_of_not_lt few) (Nat.pos_of_ne_zero (some ∘ count_eq_zero.1))
  have fits : c.reach < wordLimit := by
    rw [reach, last, width, Nat.zero_add, Nat.one_mul]
    exact c.steps.toNat_lt
  have first : (c.slice 0).first = 0 := by
    rw [← UInt64.toNat_inj, first_slice (last ▸ Nat.zero_lt_one), Nat.zero_mul]
    rfl
  rw [slices_succ last, ← stop_last last fits, ← first]
  rfl

/-- As long as no end wraps around, the segments share out the steps. -/
lemma sharesOut_slices (fits : c.reach < wordLimit) : c.SharesOut c.slices := by
  refine ⟨fun s mem => ?begins, fun s mem => ?ends, c.adjoin_slices, nonempty_slices fits,
    slices_eq_nil, slices_single, fun every s mem => ?full, fun every s mem => ?last,
    steps_slices fits⟩
  case begins =>
    obtain ⟨some, rfl⟩ := of_mem_head? mem
    rw [← UInt64.toNat_inj, first_slice some, Nat.zero_mul]
    rfl
  case ends =>
    obtain ⟨i, last, rfl⟩ := of_mem_getLast? mem
    exact stop_last last fits
  case full =>
    obtain ⟨i, inside, rfl⟩ := of_mem_dropLast mem
    rw [length_slice inside, width, if_neg every]
  case last =>
    obtain ⟨i, last, rfl⟩ := of_mem_getLast? mem
    have le := length_last last fits
    rw [width, if_neg every] at le
    exact le

/-- Where the end of the last segment wraps around, the segments have the steps before its start. -/
lemma steps_wrapped (last : c.count = i + 1) (wraps : wordLimit ≤ c.reach) :
    (c.slices.flatMap Segment.steps).map UInt64.toNat = List.range (i * c.width.toNat) := by
  have inside : i < c.count := last ▸ Nat.lt_succ_self i
  have back := UInt64.lt_iff_toNat_lt.1 (stop_wraps last wraps).2
  have none : (c.slice i).steps = [] := by
    rw [Segment.steps, Segment.length, Nat.sub_eq_zero_of_le (Nat.le_of_lt back)]
    rfl
  rw [slices_succ last, List.flatMap_append, List.map_append, steps_before inside,
    List.flatMap_singleton, none]
  exact List.append_nil _

/-- Where the end of the last segment leaves its range, a program that is built to stop does so. -/
lemma segments_stopped (few : c.count < segmentLimit) (beyond : wordLimit ≤ c.reach) :
    c.segments .stops = .error .sum := by
  cases last : c.count with
  | zero =>
    rw [reach, last, Nat.zero_mul] at beyond
    cases beyond
  | succ i =>
    have inside : i < c.count := last ▸ Nat.lt_succ_self i
    have first := first_slice inside
    rw [segments, if_neg (Nat.not_le_of_lt few), last, List.range_succ]
    refine Overflow.mapM_append_error (g := c.slice) (fun j mem => ?_) ?_ []
    · have more : j + 1 < c.count := last ▸ Nat.succ_lt_succ (List.mem_range.1 mem)
      have sum : Overflow.stops.add (.ofNat (j * c.width.toNat)) c.width = .ok _ :=
        Overflow.add_of_lt (end_lt more)
      rw [segment, sum]
      rfl
    · rw [reach, last, Nat.succ_mul, ← first] at beyond
      have sum : Overflow.stops.add (.ofNat (i * c.width.toNat)) c.width = .error .sum :=
        Overflow.add_of_le beyond
      rw [segment, sum]
      rfl

/-- In a program that goes on, the segments are these. -/
lemma segments_wrapped (few : c.count < segmentLimit) : c.segments .wraps = .ok c.slices :=
  (segments_settle few).wraps

end SweepConfig

/-- Segments share out the steps of a sweep.  For every number of steps and every width, unless they
are more than a list can hold: if the steps rounded up to whole segments stay within a word, the
segments are stretches of the full width, the last one cut off, that lead from zero to the number of
steps and have every step once.  Otherwise the end of the last segment, and of no other one, leaves
its range.  A program that is built to stop is stopped there; in one that goes on, the end comes
before the start of the last segment, and from there on the segments have no step. -/
theorem segments_share_out_the_steps (config : SweepConfig) :
    (SweepConfig.segmentLimit ≤ config.count → ∀ o, config.segments o = .error .capacity) ∧
    (config.count < SweepConfig.segmentLimit → config.reach < wordLimit →
      ∃ segments, (∀ o, config.segments o = .ok segments) ∧ config.SharesOut segments) ∧
    (config.count < SweepConfig.segmentLimit → wordLimit ≤ config.reach →
      config.segments .stops = .error .sum ∧
      ∃ whole last, config.segments .wraps = .ok (whole ++ [last]) ∧
        (∀ s ∈ whole, s.first.toNat + config.width.toNat < wordLimit) ∧
        last.stop.toNat = config.reach - wordLimit ∧ last.stop < last.first ∧
        last.first < config.steps ∧
        ((whole ++ [last]).flatMap Segment.steps).map UInt64.toNat =
          List.range last.first.toNat) := by
  refine ⟨fun many o => SweepConfig.segments_of_many many, fun few fits => ?within,
    fun few beyond => ⟨SweepConfig.segments_stopped few beyond, ?beyond⟩⟩
  case within =>
    exact ⟨config.slices, fun o => SweepConfig.segments_of_reach few fits,
      SweepConfig.sharesOut_slices fits⟩
  case beyond =>
    cases count : config.count with
    | zero =>
      rw [SweepConfig.reach, count, Nat.zero_mul] at beyond
      cases beyond
    | succ i =>
      have inside : i < config.count := count ▸ Nat.lt_succ_self i
      have first := SweepConfig.first_slice inside
      have slices := SweepConfig.slices_succ count
      obtain ⟨stop, back⟩ := SweepConfig.stop_wraps count beyond
      have given := SweepConfig.segments_wrapped few
      have steps := SweepConfig.steps_wrapped count beyond
      rw [slices] at given steps
      refine ⟨_, config.slice i, given, fun s mem => ?_, stop, back, ?_, first ▸ steps⟩
      · obtain ⟨j, before, rfl⟩ := List.mem_map.1 mem
        exact SweepConfig.end_lt (count ▸ Nat.succ_lt_succ (List.mem_range.1 before))
      · rw [UInt64.lt_iff_toNat_lt, first]
        exact SweepConfig.start_lt inside

/-- Twenty-three steps in segments of ten. -/
theorem segments_share_out_the_steps_by_tens :
    let config : SweepConfig := ⟨23, 10, 1⟩
    let segments : List Segment := [⟨0, 10⟩, ⟨10, 20⟩, ⟨20, 23⟩]
    config.count < SweepConfig.segmentLimit ∧ config.reach < wordLimit ∧
      (∀ o, config.segments o = .ok segments) ∧ config.SharesOut segments := by
  intro config segments
  have few : config.count < SweepConfig.segmentLimit := by decide
  have fits : config.reach < wordLimit := by decide
  obtain ⟨-, within, -⟩ := segments_share_out_the_steps config
  obtain ⟨found, given, sharesOut⟩ := within few fits
  have wrapped : config.slices = segments := by decide
  have same : found = segments :=
    (Except.ok.inj ((given .wraps).symm.trans (SweepConfig.segments_wrapped few))).trans wrapped
  rw [same] at given sharesOut
  exact ⟨few, fits, given, sharesOut⟩

/-- One step more than half of all words, in segments of half of them: the end of the second segment
leaves its range.  A program that is built to stop has no segments; in one that goes on, the end
wraps around to zero, and the last step is in no segment. -/
theorem segments_may_lose_the_last_step :
    let config : SweepConfig := ⟨9223372036854775809, 9223372036854775808, 1⟩
    let segments : List Segment := [⟨0, 9223372036854775808⟩, ⟨9223372036854775808, 0⟩]
    config.segments .stops = .error .sum ∧ config.segments .wraps = .ok segments ∧
      ¬ config.SharesOut segments := by
  intro config segments
  have few : config.count < SweepConfig.segmentLimit := by decide +kernel
  have beyond : wordLimit ≤ config.reach := by decide +kernel
  have wrapped : config.slices = segments := by decide +kernel
  refine ⟨SweepConfig.segments_stopped few beyond,
    wrapped ▸ SweepConfig.segments_wrapped few, fun sharesOut => ?_⟩
  have second := sharesOut.nonempty ⟨9223372036854775808, 0⟩ (.tail _ (.head _))
  exact absurd second (by decide)

end AdjointTape

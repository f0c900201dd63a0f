import AdjointTape.Proofs.Overflow
import AdjointTape.Sweep.Schedule
import Mathlib.Algebra.BigOperators.Group.List.Basic
import Mathlib.Algebra.Ring.Nat
import Mathlib.Tactic.Common

/-!
# The segments of a schedule

Segments are computed with words.  As long as the number of steps and the width of a segment add up
to a word, nothing leaves its range, and the segments share out the steps.
-/

namespace AdjointTape

/-- The steps of a segment are before its end. -/
lemma Segment.step_lt {s : Segment} {i : Nat} (inside : i < s.length) :
    s.first + .ofNat i < s.stop := by
  have first := s.first.toNat_lt
  have stop := s.stop.toNat_lt
  rw [length] at inside
  rw [UInt64.lt_iff_toNat_lt, UInt64.toNat_add, UInt64.toNat_ofNat']
  omega

namespace SweepConfig

/-! ## Segments that are not stopped at -/

variable {o : Overflow} {c : SweepConfig}

/-- The segment with `i` others before it, computed from what is left where its end leaves the
range. -/
def slice (c : SweepConfig) (i : Nat) : Segment :=
  c.cutOff (.ofNat (i * c.width.toNat)) (.ofNat (i * c.width.toNat) + c.width)

/-- The segments, computed from what is left where an end leaves the range. -/
def slices (c : SweepConfig) : List Segment := (List.range c.count).map c.slice

/-- There are as many segments as are counted. -/
@[simp]
lemma length_slices (c : SweepConfig) : c.slices.length = c.count := by
  rw [slices, List.length_map, List.length_range]

/-- A segment is this one, unless the program is stopped. -/
lemma segment_settles (o : Overflow) (c : SweepConfig) (i : Nat) :
    o.Settles (c.segment o i) (c.slice i) := (o.add_settles _ _).bind (.ret _)

/-- The segments are these, unless the program is stopped. -/
lemma segments_settle (few : c.count < segmentLimit) : o.Settles (c.segments o) c.slices := by
  rw [segments, if_neg (Nat.not_le_of_lt few)]
  exact .mapM fun i _ => c.segment_settles o i

/-- A list of too many segments cannot be held. -/
lemma segments_of_many (many : segmentLimit ≤ c.count) : c.segments o = .error .capacity :=
  if_pos many

/-- No segment goes past the last step. -/
lemma stop_le {s : Segment} (mem : s ∈ c.slices) : s.stop ≤ c.steps := by
  obtain ⟨i, -, rfl⟩ := List.mem_map.1 mem
  rw [slice, cutOff]
  split
  case isTrue before => exact UInt64.le_of_lt before
  case isFalse => exact UInt64.le_refl _

/-! ## The segments and the steps -/

/-- The ends of stretches of the same width that cover a length, the last one cut off. -/
def stretches (width total : Nat) : List (Nat × Nat) :=
  (List.range ((total + width - 1) / width)).map fun i => (i * width, min (i * width + width) total)

/-- Stretches of the same width share out a length. -/
lemma sum_stretches (width total count : Nat) :
    ((List.range count).map fun i => min (i * width + width) total - i * width).sum =
      min (count * width) total := by
  induction count with
  | zero => rw [List.range_zero, List.map_nil, List.sum_nil, Nat.zero_mul, Nat.zero_min]
  | succ count ih =>
    rw [List.range_succ, List.map_append, List.sum_append, ih, List.map_singleton,
      List.sum_singleton, Nat.succ_mul]
    omega

/-- Every segment has a width. -/
lemma width_pos (config : SweepConfig) : 0 < config.width.toNat := by
  refine Nat.pos_of_ne_zero fun zero => ?_
  have none : config.width = 0 := UInt64.toNat_inj.1 zero
  rw [width] at none
  split at none
  case isTrue =>
    split at none
    case isTrue => exact absurd none (by decide)
    case isFalse some => exact some none
  case isFalse some => exact some none

/-- The number of steps rounded up to whole segments. -/
def reach (c : SweepConfig) : Nat := c.count * c.width.toNat

/-- Rounding up adds less than a segment. -/
lemma reach_bounds (c : SweepConfig) :
    c.steps.toNat ≤ c.reach ∧ c.reach < c.steps.toNat + c.width.toNat := by
  have positive := c.width_pos
  have division := Nat.div_add_mod (c.steps.toNat + c.width.toNat - 1) c.width.toNat
  have small := Nat.mod_lt (c.steps.toNat + c.width.toNat - 1) positive
  rw [Nat.mul_comm] at division
  rw [reach, count]
  lia

/-- Steps that leave room for a segment are rounded up to a word. -/
lemma reach_lt (fits : c.steps.toNat + c.checkpointEvery.toNat < wordLimit) :
    c.reach < wordLimit := by
  have rounded := c.reach_bounds.2
  rw [width] at rounded
  split at rounded
  case isFalse => exact rounded.trans fits
  case isTrue single =>
    -- all steps are a single segment
    split at rounded
    case isTrue none =>
      rw [none] at rounded
      exact Nat.lt_trans rounded (by decide)
    case isFalse some =>
      have width : c.width = c.steps := by rw [width, if_pos single, if_neg some]
      rw [reach, width, ← Nat.two_mul] at rounded
      have one : c.count ≤ 1 := Nat.le_of_lt_succ (Nat.lt_of_mul_lt_mul_right rounded)
      rw [reach, width]
      exact Nat.lt_of_le_of_lt (Nat.mul_le_mul_right _ one)
        (Nat.lt_of_le_of_lt (Nat.one_mul _).le c.steps.toNat_lt)

/-- A segment that is counted ends within the steps rounded up. -/
lemma end_le {i : Nat} (inside : i < c.count) :
    i * c.width.toNat + c.width.toNat ≤ c.reach := by
  rw [← Nat.succ_mul]
  exact Nat.mul_le_mul_right _ inside

/-- Where its end stays in range, a segment is a stretch of full width or what is left. -/
lemma bounds_slice (config : SweepConfig) (start : Nat)
    (fits : start + config.width.toNat < wordLimit) :
    let first := UInt64.ofNat start
    first.toNat = start ∧ (config.cutOff first (first + config.width)).stop.toNat =
      min (start + config.width.toNat) config.steps.toNat := by
  intro first
  have low : first.toNat = start :=
    UInt64.toNat_ofNat_of_lt' (Nat.lt_of_le_of_lt (Nat.le_add_right _ _) fits)
  have high : (first + config.width).toNat = start + config.width.toNat := by
    rw [UInt64.toNat_add, low]
    exact Nat.mod_eq_of_lt fits
  refine ⟨low, ?_⟩
  simp only [cutOff, UInt64.lt_iff_toNat_lt, high]
  split
  case isTrue before => rw [high, Nat.min_eq_left (Nat.le_of_lt before)]
  case isFalse beyond => rw [Nat.min_eq_right (Nat.le_of_not_lt beyond)]

/-- Where the steps rounded up stay in range, a program is not stopped at a segment. -/
lemma segment_of_reach (fits : c.reach < wordLimit) {i : Nat} (inside : i < c.count) :
    c.segment o i = .ok (c.slice i) := by
  have within := Nat.lt_of_le_of_lt (end_le inside) fits
  have first : (UInt64.ofNat (i * c.width.toNat)).toNat = i * c.width.toNat :=
    UInt64.toNat_ofNat_of_lt' (Nat.lt_of_le_of_lt (Nat.le_add_right _ _) within)
  rw [segment, Overflow.add_of_lt (first.symm ▸ within)]
  rfl

/-- Where the steps rounded up stay in range, the segments are the same however the program is
built. -/
lemma segments_of_reach (few : c.count < segmentLimit) (fits : c.reach < wordLimit) :
    c.segments o = .ok c.slices := by
  rw [segments, if_neg (Nat.not_le_of_lt few)]
  exact Overflow.mapM_ok fun i mem => segment_of_reach fits (List.mem_range.1 mem)

/-- The segments are the stretches that cover the steps. -/
lemma bounds_slices (config : SweepConfig)
    (fits : config.steps.toNat + config.width.toNat < wordLimit) :
    config.slices.map (fun segment => (segment.first.toNat, segment.stop.toNat)) =
      stretches config.width.toNat config.steps.toNat := by
  rw [slices, stretches, List.map_map]
  refine List.map_congr_left fun i mem => ?_
  obtain ⟨low, high⟩ := config.bounds_slice (i * config.width.toNat)
    (Nat.lt_of_le_of_lt (end_le (List.mem_range.1 mem)) (config.reach_bounds.2.trans fits))
  exact Prod.ext low high

/-- The lengths of the segments add up to the number of steps. -/
lemma sum_slices (config : SweepConfig)
    (fits : config.steps.toNat + config.width.toNat < wordLimit) :
    (config.slices.map Segment.length).sum = config.steps.toNat := by
  have lengths := congrArg (List.map fun ends : Nat × Nat => ends.2 - ends.1)
    (config.bounds_slices fits)
  rw [List.map_map, stretches, List.map_map] at lengths
  have sum := sum_stretches config.width.toNat config.steps.toNat config.count
  exact (congrArg List.sum lengths).trans (sum.trans (Nat.min_eq_right config.reach_bounds.1))

end SweepConfig

end AdjointTape

import AdjointTape.Proofs.Chain
import AdjointTape.Proofs.FlatStack

/-!
# The byte stack on its chain

A byte stack is well formed when its chain is, its cursor is on a block, and its levels lie within
the blocks.  Its flat view forgets the blocks: a seek assigns the cursor, whichever of the two ways
it is held in, and the copies that go block by block are one write and one read.
-/

namespace AdjointTape

/-- A level whose locations lie within `capacity` bytes. -/
structure RepeatLevel.Within (capacity : Nat) (level : RepeatLevel) : Prop where
  resume : level.resume ≤ capacity
  freePush : level.freePush ≤ capacity
  backPop : ∀ l, level.backPop = some l → l ≤ capacity

namespace ByteStack

/-- The chain is well formed, the cursor is on one of its blocks, and all levels lie within it. -/
structure WellFormed (s : ByteStack) : Prop where
  chain : s.chain.WellFormed
  current : s.current < s.chain.size
  top : s.top ≤ s.chain.blockSize
  levels : ∀ level ∈ s.levels, level.Within s.chain.capacity

/-- The stack without its blocks. -/
def flat (s : ByteStack) : FlatStack where
  bytes := s.chain.bytes
  cursor := s.location
  levels := s.levels
  traffic := s.traffic
  blockSize := s.chain.blockSize
  blocks := s.chain.size
  memory := s.chain.memory

/-- The flat view has the bytes of the chain. -/
@[simp]
lemma flat_bytes (s : ByteStack) : s.flat.bytes = s.chain.bytes := rfl

/-- The flat view has the cursor at its location. -/
@[simp]
lemma flat_cursor (s : ByteStack) : s.flat.cursor = s.location := rfl

/-- The flat view has the same levels. -/
@[simp]
lemma flat_levels (s : ByteStack) : s.flat.levels = s.levels := rfl

namespace WellFormed

variable {s : ByteStack} (wf : s.WellFormed)
include wf

/-- A location is spelled by the number of the block and the place in it. -/
lemma location_eq : s.location = s.current * s.chain.blockSize + s.top := by
  rw [location, rank, wf.chain.rank_eq wf.current, blockSize]

/-- A stack stays well formed when its cursor moves within the chain. -/
lemma move {id top : Nat} (hid : id < s.chain.size) (htop : top ≤ s.chain.blockSize) :
    WellFormed { s with current := id, top := top } :=
  ⟨wf.chain, hid, htop, wf.levels⟩

/-- A move of the cursor is one of the location. -/
lemma flat_move {id top : Nat} (hid : id < s.chain.size) (htop : top ≤ s.chain.blockSize) :
    flat { s with current := id, top := top } =
      s.flat.seek (id * s.chain.blockSize + top) := by
  have e := (wf.move hid htop).location_eq
  simp only [flat, FlatStack.seek, e]

/-- The cursor lies within the chain. -/
lemma location_le : s.location ≤ s.chain.capacity := by
  have h : (s.current + 1) * s.chain.blockSize ≤ s.chain.size * s.chain.blockSize :=
    Nat.mul_le_mul_right _ wf.current
  have top := wf.top
  rw [Nat.add_mul] at h
  rw [wf.location_eq, Chain.capacity]
  lia

end WellFormed

/-! ## Seeking -/

/-- Block and offset spell the location again. -/
lemma seat_spells (blockSize : Nat) (l : Location) :
    (seat blockSize l).1 * blockSize + (seat blockSize l).2 = l := by
  have split := Nat.div_add_mod l blockSize
  rw [Nat.mul_comm] at split
  simp only [seat]
  split
  case isTrue zero => simp [zero]
  case isFalse nonzero =>
    split
    case isTrue boundary =>
      have pos : 0 < l / blockSize := by
        refine Nat.pos_of_ne_zero fun e => nonzero ?_
        rw [e, boundary] at split
        lia
      obtain ⟨q, e⟩ := Nat.exists_eq_succ_of_ne_zero (Nat.ne_of_gt pos)
      simp only [e, Nat.succ_sub_one]
      rw [e, Nat.succ_mul] at split
      lia
    case isFalse => exact split

/-- The cursor sits within its block. -/
lemma seat_top {blockSize : Nat} (l : Location) (positive : 0 < blockSize) :
    (seat blockSize l).2 ≤ blockSize := by
  simp only [seat]
  split
  case isTrue => exact Nat.zero_le _
  case isFalse =>
    split
    case isTrue => exact Nat.le_refl _
    case isFalse => exact Nat.le_of_lt (Nat.mod_lt _ positive)

/-- The seat of a location within the blocks is on one of them, also at the very end. -/
lemma seat_rank {blockSize blocks : Nat} {l : Location} (inhabited : 0 < blocks)
    (h : l ≤ blocks * blockSize) : (seat blockSize l).1 < blocks := by
  have split := Nat.div_add_mod l blockSize
  have le : l / blockSize ≤ blocks := Nat.div_le_of_le_mul (by rwa [Nat.mul_comm])
  simp only [seat]
  split
  case isTrue => exact inhabited
  case isFalse =>
    split
    case isTrue => exact Nat.lt_of_le_of_lt (Nat.sub_le_sub_right le 1) (by lia)
    case isFalse inside =>
      refine Nat.lt_of_le_of_ne le fun (e : l / blockSize = blocks) => inside ?_
      rw [e, Nat.mul_comm] at split
      lia

/-- The stack with its cursor at a location. -/
def seated (l : Location) (s : ByteStack) : ByteStack :=
  { s with current := (seat s.blockSize l).1, top := (seat s.blockSize l).2 }

section Seek

variable {s : ByteStack} (wf : s.WellFormed) {l : Location} (h : l ≤ s.chain.capacity)
include wf h

/-- A seek within the chain succeeds and moves the cursor to the location. -/
lemma WellFormed.seek_eq : seek l s = .ok () (s.seated l) := by
  have reach : s.chain.travel s.current (seat s.blockSize l).1 = some (seat s.blockSize l).1 :=
    wf.chain.travel_eq wf.current (seat_rank wf.chain.inhabited h)
  simp only [seek, reach]
  rfl

/-- A seek keeps a stack well formed. -/
lemma WellFormed.seated : (s.seated l).WellFormed :=
  wf.move (seat_rank wf.chain.inhabited h) (seat_top l wf.chain.positive)

/-- A seek is one on flat memory. -/
lemma WellFormed.flat_seated : (s.seated l).flat = s.flat.seek l := by
  have e := wf.flat_move (seat_rank wf.chain.inhabited h)
    (seat_top l wf.chain.positive)
  rw [seat_spells] at e
  exact e

end Seek

/-! ## Copies -/

/-- The stack after a chunk was written into the current block. -/
def wrote (chunk : List UInt8) (s : ByteStack) : ByteStack :=
  { s with chain := s.chain.write s.current s.top chunk, top := s.top + chunk.length }

section Boundary

variable {s : ByteStack} (wf : s.WellFormed)
include wf

/-- A chunk that fits into the block is put on the flat stack. -/
lemma WellFormed.flat_wrote {chunk : List UInt8}
    (fits : s.top + chunk.length ≤ s.chain.blockSize) :
    (s.wrote chunk).WellFormed ∧ (s.wrote chunk).flat = s.flat.put chunk := by
  have wf' : (s.wrote chunk).WellFormed := by
    refine ⟨wf.chain.write _ _ _, ?_, fits, ?_⟩
    · simpa only [wrote, Chain.size_write] using wf.current
    · simpa only [wrote, Chain.capacity, Chain.size_write, Chain.blockSize_write] using wf.levels
  refine ⟨wf', ?_⟩
  have loc : (s.wrote chunk).location = s.location + chunk.length := by
    rw [wf'.location_eq, wf.location_eq, Nat.add_assoc]
    rfl
  simp only [flat, FlatStack.put, loc]
  simp only [wrote, Chain.size_write, Chain.blockSize_write, wf.chain.bytes_write wf.current fits,
    wf.location_eq]
  rfl

/-- The end of a block is the start of the next one. -/
lemma WellFormed.flat_forward (full : s.top = s.chain.blockSize)
    (more : s.current + 1 < s.chain.size) :
    WellFormed { s with current := s.current + 1, top := 0 } ∧
      flat { s with current := s.current + 1, top := 0 } = s.flat := by
  have e : (s.current + 1) * s.chain.blockSize + 0 = s.location := by
    rw [wf.location_eq, full]
    lia
  refine ⟨wf.move more (Nat.zero_le _), ?_⟩
  rw [wf.flat_move more (Nat.zero_le _), e]
  rfl

/-- The start of a block is the end of the one before. -/
lemma WellFormed.flat_backward {before : Nat} (empty : s.top = 0) (e : s.current = before + 1) :
    WellFormed { s with current := before, top := s.blockSize } ∧
      flat { s with current := before, top := s.blockSize } = s.flat := by
  have hbefore : before < s.chain.size := by
    have := wf.current
    lia
  have loc : before * s.chain.blockSize + s.chain.blockSize = s.location := by
    rw [wf.location_eq, empty, e]
    lia
  refine ⟨wf.move hbefore (Nat.le_refl _), ?_⟩
  rw [show s.blockSize = s.chain.blockSize from rfl, wf.flat_move hbefore (Nat.le_refl _), loc]
  rfl

end Boundary

/-- Copying in is one write. -/
lemma copyIn_spec (hops : Nat) {data : List UInt8} {s : ByteStack} (wf : s.WellFormed)
    (room : s.location + data.length ≤ s.chain.capacity)
    (enough : s.chain.size ≤ s.current + hops) :
    ∃ s', copyIn hops data s = .ok () s' ∧ s'.WellFormed ∧ s'.flat = s.flat.put data := by
  induction hops generalizing data s with
  -- one hop a block: the hops reach from the cursor to the last block, so they never run out
  | zero =>
    have := wf.current
    lia
  | succ hops ih =>
    have top := wf.top
    have length := List.length_take (i := s.chain.blockSize - s.top) (l := data)
    have fits : s.top + (data.take (s.chain.blockSize - s.top)).length ≤ s.chain.blockSize := by lia
    obtain ⟨wf1, view1⟩ := wf.flat_wrote fits
    have holds := wf.chain.holds_eq wf.current fits
    by_cases done : data.length ≤ s.chain.blockSize - s.top
    · -- the chunk is all of the data
      have rest : data.drop (s.chain.blockSize - s.top) = [] := List.drop_eq_nil_iff.2 done
      refine ⟨_, ?_, wf1, view1.trans (by rw [List.take_of_length_le done])⟩
      simp only [copyIn, List.splitAt_eq, holds, rest, List.isEmpty_nil, if_true]
      rfl
    · -- the block is full now, and there is one behind it
      have ne : (data.drop (s.chain.blockSize - s.top)).isEmpty = false := by
        rw [List.isEmpty_eq_false_iff, ne_eq, List.drop_eq_nil_iff]
        exact done
      have full : (s.wrote (data.take (s.chain.blockSize - s.top))).top = s.chain.blockSize := by
        simp only [wrote]
        lia
      have more : s.current + 1 < s.chain.size := by
        refine Nat.lt_of_le_of_ne wf.current fun e => ?_
        have : (s.current + 1) * s.chain.blockSize = s.chain.capacity := by
          rw [show s.current + 1 = s.chain.size from e, Chain.capacity]
        rw [wf.location_eq] at room
        lia
      have size : (s.wrote (data.take (s.chain.blockSize - s.top))).chain.size = s.chain.size :=
        Chain.size_write _ _ _ _
      have next := wf1.chain.next?_eq (i := s.current) (size ▸ more)
      obtain ⟨wf2, view2⟩ := wf1.flat_forward full (size ▸ more)
      have loc2 := (congrArg FlatStack.cursor (view2.trans view1))
      obtain ⟨s', e, wf', view⟩ := @ih (data.drop (s.chain.blockSize - s.top)) _ wf2
        (by
          simp only [flat_cursor, FlatStack.put] at loc2
          rw [loc2, List.length_drop]
          simp only [wrote, Chain.capacity, Chain.size_write, Chain.blockSize_write] at room ⊢
          lia)
        (by
          simp only [wrote, Chain.size_write]
          lia)
      refine ⟨s', ?_, wf', ?_⟩
      · simp only [copyIn, List.splitAt_eq, holds, ne, if_true, Bool.false_eq_true, if_false]
        simp only [wrote] at next e
        simp only [next]
        exact e
      · rw [view, view2, view1, FlatStack.put_put, List.take_append_drop]

/-- Copying out is one read. -/
lemma copyOut_spec (hops : Nat) {count : Nat} (above : List UInt8) {s : ByteStack}
    (wf : s.WellFormed) (room : count ≤ s.location) (enough : s.current < hops) :
    ∃ s', copyOut hops count above s = .ok (s.flat.top count ++ above) s' ∧ s'.WellFormed ∧
      s'.flat = s.flat.seek (s.location - count) := by
  induction hops generalizing count above s with
  | zero => lia
  | succ hops ih =>
    have loc := wf.location_eq
    have top := wf.top
    have fits : s.top - min s.top count + min s.top count ≤ s.chain.blockSize := by lia
    have holds := wf.chain.holds_eq wf.current fits
    have wf1 : WellFormed { s with top := s.top - min s.top count } := wf.move wf.current (by lia)
    have view1 := wf.flat_move wf.current (show s.top - min s.top count ≤ s.chain.blockSize by lia)
    have start : s.current * s.chain.blockSize + (s.top - min s.top count) =
        s.location - min s.top count := by lia
    have bytes := wf.chain.read_eq wf.current fits
    rw [start] at bytes view1
    -- either the block holds all the bytes, or it is used up and one lies before it
    by_cases done : min s.top count = count
    · refine ⟨_, ?_, wf1, view1.trans (by rw [done])⟩
      rw [done] at holds bytes
      simp only [copyOut, holds, bytes, done, if_true]
      rfl
    · obtain ⟨before, e⟩ : ∃ before, s.current = before + 1 := by
        refine Nat.exists_eq_succ_of_ne_zero fun e => ?_
        rw [e] at loc
        lia
      have prev : s.chain.prev? s.current = some before := by
        rw [e]
        exact wf.chain.prev?_eq (e ▸ wf.current)
      obtain ⟨wf2, view2⟩ : WellFormed { s with current := before, top := s.blockSize } ∧
          flat { s with current := before, top := s.blockSize } = _ :=
        wf1.flat_backward (show s.top - min s.top count = 0 by lia) e
      have view := view2.trans view1
      generalize hs2 : ({ s with current := before, top := s.blockSize } : ByteStack) = s2 at *
      have loc2 : s2.location = s.location - min s.top count := congrArg FlatStack.cursor view
      have e1 : s.location - min s.top count - (count - min s.top count) = s.location - count := by
        lia
      have room2 : count - min s.top count ≤ s2.location := by
        rw [loc2]
        lia
      obtain ⟨s', e', wf', view'⟩ :=
        ih (s.chain.bytes.read (s.location - min s.top count) (min s.top count) ++ above)
          wf2 room2 (by rw [← hs2]; simp only; lia)
      refine ⟨s', ?_, wf', ?_⟩
      · simp only [copyOut, holds, bytes, if_neg done, prev, if_true, hs2]
        refine e'.trans ?_
        have glue := ByteMap.read_append s.chain.bytes (s.location - count)
          (count - min s.top count) (min s.top count)
        have back : s.location - count + (count - min s.top count) =
            s.location - min s.top count := by lia
        rw [back, show count - min s.top count + min s.top count = count by lia] at glue
        rw [view, FlatStack.top, FlatStack.top, ← List.append_assoc]
        simp only [FlatStack.seek, flat_cursor, flat_bytes, e1, glue]
      · rw [view', view, loc2, e1]
        rfl

end ByteStack

end AdjointTape

import AdjointTape.Proofs.ByteMap
import AdjointTape.Store.Chain

/-!
# The chain as flat memory

A well-formed chain has its blocks in order of rank, linked to their neighbours and all of one size.
Its bytes, read block after block, are a flat memory that is zero behind the last block: following
links is arithmetic on ranks, a transfer inside one block is a transfer in the flat memory, and
growth cannot be seen in it.
-/

namespace AdjointTape

/-- An overwritten array has the new values from their start on, and the old ones elsewhere. -/
lemma getElem?_overwrite {α : Type} (items : Array α) (start i : Nat) (values : List α) :
    (overwrite items start values)[i]? =
      items[i]?.map fun old => if start ≤ i then values[i - start]?.getD old else old := by
  induction values generalizing items start with
  | nil => simp [overwrite]
  | cons value rest ih =>
    rw [overwrite, ih, Array.getElem?_setIfInBounds]
    obtain lt | rfl | gt := Nat.lt_trichotomy start i
    · have e : i - start = i - (start + 1) + 1 := by omega
      rw [if_neg (Nat.ne_of_lt lt), e]
      simp only [Nat.le_of_lt lt, Nat.succ_le_of_lt lt, if_true, List.getElem?_cons_succ]
    · have above : ¬ start + 1 ≤ start := by omega
      by_cases h : start < items.size
      · simp [h, above]
      · simp [h, above]
    · have e1 : ¬ start ≤ i := by omega
      have e2 : ¬ start + 1 ≤ i := by omega
      simp only [if_neg (Nat.ne_of_gt gt), e1, e2, if_false]

/-- A block with the rank, the links and the size that a chain of `size` blocks gives its place. -/
structure Block.InPlace (blockSize size place : Nat) (b : Block) : Prop where
  rank : b.rank = place
  prev : b.prev = if place = 0 then none else some (place - 1)
  next : b.next = if place + 1 < size then some (place + 1) else none
  contents : b.contents.size = blockSize

namespace Chain

/-- Every block is in its place, and there is at least one. -/
structure WellFormed (c : Chain) : Prop where
  positive : 0 < c.blockSize
  inhabited : 0 < c.size
  inPlace : ∀ (i : Nat) (b : Block), c.blocks[i]? = some b → b.InPlace c.blockSize c.size i

/-- The bytes of all blocks, the first block lowest. -/
def bytes (c : Chain) : ByteMap := fun l =>
  (c.blocks[l / c.blockSize]?).elim 0 fun b => b.contents[l % c.blockSize]?.getD 0

/-- Every number below the size of a chain is that of a block in its place. -/
lemma WellFormed.block {c : Chain} (wf : c.WellFormed) {i : Nat} (h : i < c.size) :
    ∃ b, c.blocks[i]? = some b ∧ b.InPlace c.blockSize c.size i := by
  have e := Array.getElem?_eq_getElem h
  exact ⟨_, e, wf.inPlace _ _ e⟩

/-! ## Links -/

section Links

variable {c : Chain} (wf : c.WellFormed)
include wf

/-- The rank of a block is its number. -/
lemma WellFormed.rank_eq {i : Nat} (h : i < c.size) : c.rank i = i := by
  obtain ⟨b, e, place⟩ := wf.block h
  simp [rank, e, place.rank]

/-- The link forward leads to the next number. -/
lemma WellFormed.next?_eq {i : Nat} (h : i + 1 < c.size) : c.next? i = some (i + 1) := by
  obtain ⟨b, e, place⟩ := wf.block (Nat.lt_of_succ_lt h)
  simp [next?, e, place.next, h]

/-- The link back leads to the number before. -/
lemma WellFormed.prev?_eq {i : Nat} (h : i + 1 < c.size) : c.prev? (i + 1) = some i := by
  obtain ⟨b, e, place⟩ := wf.block h
  simp [prev?, e, place.prev]

/-- As many links forward add as much to the number. -/
lemma WellFormed.forward_eq {i steps : Nat} (h : i + steps < c.size) :
    c.forward steps i = some (i + steps) := by
  induction steps generalizing i with
  | zero => rfl
  | succ steps ih =>
    have e : i + 1 + steps = i + (steps + 1) := by omega
    rw [forward, wf.next?_eq (by omega), Option.bind_some, ih (by omega), e]

/-- As many links back take as much from the number. -/
lemma WellFormed.backward_eq {i steps : Nat} (h : i + steps < c.size) :
    c.backward steps (i + steps) = some i := by
  induction steps generalizing i with
  | zero => rfl
  | succ steps ih =>
    have e : i + (steps + 1) = i + steps + 1 := by omega
    rw [backward, e, wf.prev?_eq (by omega), Option.bind_some, ih (by omega)]

/-- Links lead from any block to the block of any rank. -/
lemma WellFormed.travel_eq {i r : Nat} (hi : i < c.size) (hr : r < c.size) :
    c.travel i r = some r := by
  rw [travel, wf.rank_eq hi]
  by_cases h : i ≤ r
  · have e : i + (r - i) = r := by omega
    rw [if_pos h, wf.forward_eq (by omega), e]
  · have e : i = r + (i - r) := by omega
    rw [if_neg h]
    -- `i` is also in the number of steps, which stays as it is
    conv_lhs => arg 3; rw [e]
    exact wf.backward_eq (by omega)

end Links

/-! ## Transfers inside a block -/

/-- The bytes of a block lie one after the other from the place of the block on. -/
lemma WellFormed.bytes_at {c : Chain} (wf : c.WellFormed) {id offset : Nat} {b : Block}
    (e : c.blocks[id]? = some b) (lt : offset < c.blockSize) :
    c.bytes (id * c.blockSize + offset) = b.contents[offset]?.getD 0 := by
  have e1 : (id * c.blockSize + offset) / c.blockSize = id := by
    rw [Nat.mul_comm, Nat.mul_add_div wf.positive, Nat.div_eq_of_lt lt, Nat.add_zero]
  have e2 : (id * c.blockSize + offset) % c.blockSize = offset := by
    rw [Nat.mul_comm, Nat.mul_add_mod, Nat.mod_eq_of_lt lt]
  simp [bytes, e1, e2, e]

/-- Writing leaves the number of blocks as it is. -/
@[simp]
lemma size_write (c : Chain) (id start : Nat) (data : List UInt8) :
    (c.write id start data).size = c.size := by
  simp [write, size]

/-- Writing leaves the size of the blocks as it is. -/
@[simp]
lemma blockSize_write (c : Chain) (id start : Nat) (data : List UInt8) :
    (c.write id start data).blockSize = c.blockSize := rfl

/-- Writing keeps a chain well formed. -/
lemma WellFormed.write {c : Chain} (wf : c.WellFormed) (id start : Nat) (data : List UInt8) :
    (c.write id start data).WellFormed := by
  refine ⟨wf.positive, (size_write c id start data).symm ▸ wf.inhabited, fun i b e => ?_⟩
  rw [size_write]
  simp only [Chain.write, Array.getElem?_modify] at e
  split at e
  case isTrue eq =>
    obtain ⟨b0, e0, rfl⟩ := Option.map_eq_some_iff.1 e
    have place := wf.inPlace i b0 e0
    exact ⟨place.rank, place.prev, place.next, (size_overwrite _ _ _).trans place.contents⟩
  case isFalse => exact wf.inPlace i b e

section Transfers

variable {c : Chain} (wf : c.WellFormed) {id start : Nat} (h : id < c.size)
include wf h

/-- A block holds what ends within it. -/
lemma WellFormed.holds_eq {count : Nat} (room : start + count ≤ c.blockSize) :
    c.holds id start count = true := by
  obtain ⟨b, e, place⟩ := wf.block h
  simp [holds, e, place.contents, room]

/-- Reading inside a block reads the flat memory. -/
lemma WellFormed.read_eq {count : Nat} (room : start + count ≤ c.blockSize) :
    c.read id start count = c.bytes.read (id * c.blockSize + start) count := by
  obtain ⟨b, e, place⟩ := wf.block h
  have size := place.contents
  have list : c.read id start count = (b.contents.toList.drop start).take count := by
    simp [read, e, Block.read]
  rw [list]
  apply List.ext_getElem?
  intro i
  by_cases lt : i < count
  · have inside : start + i < b.contents.size := by omega
    rw [ByteMap.getElem?_read _ lt, Nat.add_assoc, wf.bytes_at e (by omega),
      List.getElem?_take_of_lt lt, List.getElem?_drop, Array.getElem?_toList,
      Array.getElem?_eq_getElem inside, Option.getD_some]
  · rw [List.getElem?_eq_none (by simp only [List.length_take]; omega),
      List.getElem?_eq_none (by simp only [ByteMap.length_read]; omega)]

/-- What is written into a block is written at the place of the block. -/
lemma WellFormed.bytes_write {data : List UInt8} (room : start + data.length ≤ c.blockSize) :
    (c.write id start data).bytes = c.bytes.write (id * c.blockSize + start) data := by
  obtain ⟨b, e, place⟩ := wf.block h
  have size := place.contents
  funext l
  by_cases at' : l / c.blockSize = id
  · have split : l = id * c.blockSize + l % c.blockSize := by
      rw [← at', Nat.mul_comm]
      exact (Nat.div_add_mod l c.blockSize).symm
    have lt : l % c.blockSize < c.blockSize := Nat.mod_lt _ wf.positive
    generalize l % c.blockSize = offset at split lt
    subst split
    have written : (c.write id start data).blocks[id]? = some (Block.write start data b) := by
      rw [Chain.write, Array.getElem?_modify, if_pos rfl, e]
      rfl
    have left : (c.write id start data).bytes (id * c.blockSize + offset) =
        (overwrite b.contents start data)[offset]?.getD 0 :=
      (wf.write id start data).bytes_at written lt
    rw [left, getElem?_overwrite]
    by_cases le : start ≤ offset
    · have le' : id * c.blockSize + start ≤ id * c.blockSize + offset := by omega
      have e3 : id * c.blockSize + offset - (id * c.blockSize + start) = offset - start := by omega
      simp [ByteMap.write, le, e3, wf.bytes_at e lt,
        Array.getElem?_eq_getElem (show offset < b.contents.size by omega)]
    · simp [ByteMap.write, le, wf.bytes_at e lt,
        Array.getElem?_eq_getElem (show offset < b.contents.size by omega)]
  · have same : (c.write id start data).bytes l = c.bytes l := by
      have e1 : (c.blocks.modify id (Block.write start data))[l / c.blockSize]? =
          c.blocks[l / c.blockSize]? := by
        rw [Array.getElem?_modify, if_neg (Ne.symm at')]
      simp only [bytes, Chain.write, e1]
    rw [same]
    by_cases below : l < id * c.blockSize
    · rw [ByteMap.write_below _ _ (by omega)]
    · have above : (id + 1) * c.blockSize ≤ l := by
        have le : id ≤ l / c.blockSize := (Nat.le_div_iff_mul_le wf.positive).2 (by omega)
        exact (Nat.le_div_iff_mul_le wf.positive).1 (by omega)
      rw [Nat.add_mul] at above
      rw [ByteMap.write_above _ (by omega)]

end Transfers

/-! ## Growth -/

/-- Linking leaves the size of the blocks as it is. -/
@[simp]
lemma blockSize_link (c : Chain) : c.link.blockSize = c.blockSize := rfl

/-- Extending a chain leaves the size of the blocks as it is. -/
@[simp]
lemma blockSize_extend (c : Chain) (count : Nat) : (c.extend count).blockSize = c.blockSize := by
  induction count generalizing c with
  | zero => rfl
  | succ count ih => rw [extend, ih, blockSize_link]

/-- A linked block is the one that was there, pointed forward if it was the last, or the new one. -/
lemma getElem?_blocks_link (c : Chain) (i : Nat) :
    c.link.blocks[i]? =
      if i = c.size then some (.zeroed (c.rank (c.size - 1) + 1) (some (c.size - 1)) c.blockSize)
      else if i + 1 = c.size then c.blocks[i]?.map fun b => { b with next := some c.size }
      else c.blocks[i]? := by
  simp only [link, Array.getElem?_push, Array.size_modify, Array.getElem?_modify]
  by_cases new : i = c.size
  · simp [new, size, rank]
  · by_cases last : i + 1 = c.size
    · have e : c.size - 1 = i := by omega
      simp [new, last, e, show ¬ i = c.blocks.size from new]
    · have e : ¬ c.size - 1 = i ∨ c.blocks[i]? = none := by
        by_cases lt : i < c.size
        · exact .inl (by omega)
        · exact .inr (Array.getElem?_eq_none (Nat.le_of_not_lt lt))
      obtain e | e := e
      · simp [new, last, e, show ¬ i = c.blocks.size from new]
      · simp [new, last, e, show ¬ i = c.blocks.size from new]

/-- A linked block does not show in the flat memory. -/
lemma WellFormed.bytes_link {c : Chain} (wf : c.WellFormed) : c.link.bytes = c.bytes := by
  funext l
  simp only [bytes, blockSize_link, getElem?_blocks_link]
  split
  case isTrue new =>
    have none : c.blocks[l / c.blockSize]? = none :=
      Array.getElem?_eq_none (Nat.le_of_eq new.symm)
    have lt : l % c.blockSize < c.blockSize := Nat.mod_lt _ wf.positive
    simp [none, Block.zeroed, lt]
  case isFalse =>
    split
    case isTrue => cases c.blocks[l / c.blockSize]? <;> rfl
    case isFalse => rfl

/-- Linking a block keeps a chain well formed. -/
lemma WellFormed.link {c : Chain} (wf : c.WellFormed) : c.link.WellFormed := by
  have pos := wf.inhabited
  refine ⟨wf.positive, (size_link c).symm ▸ Nat.succ_pos _, fun i b e => ?_⟩
  rw [size_link, blockSize_link]
  rw [getElem?_blocks_link] at e
  split at e
  case isTrue new =>
    cases e
    refine ⟨?_, ?_, ?_, ?_⟩
    · simp only [Block.zeroed, wf.rank_eq (show c.size - 1 < c.size by omega)]
      omega
    · simp [Block.zeroed, new, Nat.ne_of_gt pos]
    · simp [Block.zeroed, new]
    · simp [Block.zeroed]
  case isFalse old =>
    split at e
    case isTrue last =>
      obtain ⟨b0, e0, rfl⟩ := Option.map_eq_some_iff.1 e
      have place := wf.inPlace i b0 e0
      refine ⟨place.rank, place.prev, ?_, place.contents⟩
      simp [last]
    case isFalse =>
      have place := wf.inPlace i b e
      have lt : i < c.size := by
        by_contra h
        rw [Array.getElem?_eq_none (Nat.le_of_not_lt h)] at e
        cases e
      refine ⟨place.rank, place.prev, place.next.trans ?_, place.contents⟩
      rw [if_pos (by omega), if_pos (by omega)]

/-- Extending a chain keeps it well formed. -/
lemma WellFormed.extend {c : Chain} (wf : c.WellFormed) (count : Nat) :
    (c.extend count).WellFormed := by
  induction count generalizing c with
  | zero => exact wf
  | succ count ih => exact ih wf.link

/-- New blocks are zero, so the bytes of a chain stay as they are. -/
lemma WellFormed.bytes_extend {c : Chain} (wf : c.WellFormed) (count : Nat) :
    (c.extend count).bytes = c.bytes := by
  induction count generalizing c with
  | zero => rfl
  | succ count ih => exact (ih wf.link).trans wf.bytes_link

/-- A new chain has one block of zeros, taken from fresh memory. -/
lemma create_spec {blockSize : Nat} {limit : Option Nat} {c : Chain}
    (created : create blockSize limit = .ok c) (positive : 0 < blockSize) :
    c.WellFormed ∧ c.blockSize = blockSize ∧ c.size = 1 ∧ c.bytes = ByteMap.zeros ∧
      c.memory = (Memory.fresh limit).take 1 := by
  simp only [create] at created
  split at created
  case isFalse => cases created
  case isTrue =>
    cases created
    refine ⟨⟨positive, Nat.one_pos, fun i b e => ?_⟩, rfl, rfl, ?_, rfl⟩
    · obtain rfl | i := i
      · cases e
        exact ⟨rfl, rfl, rfl, by simp [Block.zeroed]⟩
      · cases e
    · funext l
      have lt : l % blockSize < blockSize := Nat.mod_lt _ positive
      obtain e | ⟨i, e⟩ : l / blockSize = 0 ∨ ∃ i, l / blockSize = i + 1 := by
        cases l / blockSize
        · exact .inl rfl
        · exact .inr ⟨_, rfl⟩
      · simp [bytes, e, Block.zeroed, lt, ByteMap.zeros]
      · simp [bytes, e, ByteMap.zeros]

end Chain

end AdjointTape

import AdjointTape.Proofs.Cursor

/-!
# The block chain is invisible

Every operation of a byte stack commutes with the same operation on flat memory: it answers the
same, fails the same, and leaves a stack whose flat view is what the flat operation leaves.  Each
operation keeps the stack well formed, so the same holds of every run, whatever levels are pending
and in whatever order they are resolved.
-/

open AdjointTape.Action

namespace AdjointTape

/-- A level lies within more bytes as well. -/
lemma RepeatLevel.Within.mono {capacity capacity' : Nat} {level : RepeatLevel}
    (within : level.Within capacity) (le : capacity ≤ capacity') : level.Within capacity' :=
  ⟨Nat.le_trans within.resume le, Nat.le_trans within.freePush le,
    fun l h => Nat.le_trans (within.backPop l h) le⟩

namespace ByteStack

/-! ## Growth -/

/-- The blocks that a location asks for reach up to it. -/
lemma le_blocksBelow {blockSize : Nat} (l : Location) (positive : 0 < blockSize) :
    l ≤ blocksBelow blockSize l * blockSize := by
  have split := Nat.div_add_mod (l + blockSize - 1) blockSize
  have lt := Nat.mod_lt (l + blockSize - 1) positive
  have le : (l + blockSize - 1) / blockSize * blockSize ≤ blocksBelow blockSize l * blockSize :=
    Nat.mul_le_mul_right _ (Nat.le_max_left _ _)
  rw [Nat.mul_comm] at split
  lia

/-- Blocks that reach up to a location are enough for it. -/
lemma blocksBelow_le {blockSize blocks : Nat} {l : Location} (positive : 0 < blockSize)
    (some : 1 ≤ blocks) (le : l ≤ blocks * blockSize) : blocksBelow blockSize l ≤ blocks := by
  refine Nat.max_le.2 ⟨Nat.le_of_lt_succ ((Nat.div_lt_iff_lt_mul positive).2 ?_), some⟩
  rw [Nat.succ_mul]
  lia

/-- More bytes take no fewer blocks. -/
lemma blocksBelow_mono (blockSize : Nat) {l l' : Location} (le : l ≤ l') :
    blocksBelow blockSize l ≤ blocksBelow blockSize l' := by
  have fewer : (l + blockSize - 1) / blockSize ≤ (l' + blockSize - 1) / blockSize :=
    Nat.div_le_div_right (by lia)
  exact Nat.max_le.2 ⟨Nat.le_trans fewer (Nat.le_max_left _ _), Nat.le_max_right _ _⟩

/-- Blocks that are added are taken from the memory. -/
lemma memory_extend (c : Chain) (count : Nat) :
    (c.extend count).memory = c.memory.take count := by
  induction count generalizing c with
  | zero => rfl
  | succ count ih =>
    rw [Chain.extend, ih]
    simp only [Chain.link, Memory.take]
    congr 1
    lia

/-- A chain is extended as far as it has to be, or not at all. -/
lemma ensure_eq (c : Chain) (count : Nat) :
    Chain.ensure count c =
      if count ≤ c.size ∨ c.admits count then .ok () (c.extend (count - c.size))
      else .error c.outOfMemory c := by
  by_cases enough : count ≤ c.size
  · have none : count - c.size = 0 := Nat.sub_eq_zero_of_le enough
    rw [Chain.ensure, if_pos enough, if_pos (.inl enough), none, Chain.extend]
  · simp only [Chain.ensure, enough, if_false, false_or]

/-- Blocks that are added show in the view as such. -/
lemma WellFormed.flat_extend {s : ByteStack} (wf : s.WellFormed) (l : Location) :
    let s' := { s with chain := s.chain.extend (blocksBelow s.chain.blockSize l - s.chain.size) }
    s'.WellFormed ∧ s'.flat = s.flat.grown l ∧ l ≤ s'.chain.capacity := by
  have below := le_blocksBelow l wf.chain.positive
  have hcur := wf.current
  generalize needed : blocksBelow s.chain.blockSize l = count at *
  have size : (s.chain.extend (count - s.chain.size)).size = max s.chain.size count := by
    rw [Chain.size_extend]
    lia
  have blockSize := Chain.blockSize_extend s.chain (count - s.chain.size)
  have capacity : (s.chain.extend (count - s.chain.size)).capacity =
      max s.chain.size count * s.chain.blockSize := by
    rw [Chain.capacity, size, blockSize]
  have wider : s.chain.capacity ≤ (s.chain.extend (count - s.chain.size)).capacity := by
    rw [capacity]
    exact Nat.mul_le_mul_right _ (Nat.le_max_left _ _)
  have wf' : WellFormed { s with chain := s.chain.extend (count - s.chain.size) } := by
    refine ⟨wf.chain.extend _, ?_, ?_, fun level mem => (wf.levels level mem).mono wider⟩
    · simp only [size]
      lia
    · simp only [blockSize]
      exact wf.top
  refine ⟨wf', ?_, ?_⟩
  · have loc := wf'.location_eq
    simp only [blockSize, ← wf.location_eq] at loc
    simp only [flat, FlatStack.grown, loc, size, blockSize, memory_extend, wf.chain.bytes_extend,
      needed]
  · rw [capacity]
    exact Nat.le_trans below (Nat.mul_le_mul_right _ (Nat.le_max_right _ _))

/-- Making room grows the flat stack, or fails and changes nothing. -/
lemma reserve_spec {s : ByteStack} (wf : s.WellFormed) (l : Location) :
    if s.flat.hasRoom l then
      ∃ s', reserve l s = .ok () s' ∧ s'.WellFormed ∧ s'.flat = s.flat.grown l ∧
        l ≤ s'.chain.capacity
    else reserve l s = .error (.outOfMemory s.flat.blocks s.flat.blockSize) s := by
  have room : s.flat.hasRoom l ↔ blocksBelow s.chain.blockSize l ≤ s.chain.size ∨
      s.chain.admits (blocksBelow s.chain.blockSize l) :=
    decide_eq_true_iff.trans (or_congr_right decide_eq_true_iff.symm)
  have run : reserve l s = onChain (Chain.ensure (blocksBelow s.chain.blockSize l)) s := rfl
  rw [run]
  by_cases h : s.flat.hasRoom l
  · rw [if_pos h]
    refine ⟨_, ?_, wf.flat_extend l⟩
    simp only [onChain, ensure_eq, if_pos (room.1 h)]
  · rw [if_neg h]
    simp only [onChain, ensure_eq, if_neg (mt room.2 h)]
    rfl

/-! ## Transfers -/

section Transfers

variable {s : ByteStack} (wf : s.WellFormed)
include wf

/-- The active level lies within the chain. -/
lemma WellFormed.active {level : RepeatLevel} {outer : List RepeatLevel}
    (e : s.levels = level :: outer) : level.Within s.chain.capacity :=
  wf.levels level (e ▸ List.mem_cons_self)

/-- A stack stays well formed with other levels within its chain. -/
lemma WellFormed.relevel {levels : List RepeatLevel}
    (within : ∀ level ∈ levels, level.Within s.chain.capacity) :
    WellFormed { s with levels := levels } :=
  ⟨wf.chain, wf.current, wf.top, within⟩

/-- The active level may come back to any location within the blocks. -/
lemma WellFormed.rebound {level : RepeatLevel} {outer : List RepeatLevel}
    (e : s.levels = level :: outer) (backPop : Option Location)
    (target : ∀ l, backPop = some l → l ≤ s.chain.capacity) :
    WellFormed { s with levels := { level with backPop := backPop } :: outer } := by
  have within := wf.active e
  refine wf.relevel fun x mem => ?_
  obtain rfl | mem := List.mem_cons.1 mem
  · exact ⟨within.resume, within.freePush, target⟩
  · exact wf.levels x (e ▸ List.mem_cons_of_mem _ mem)

/-- A jump to the active `freePush` is one on flat memory. -/
lemma redirect_spec :
    ∃ s', redirect s = .ok () s' ∧ s'.WellFormed ∧ s'.flat = s.flat.redirected ∧
      s'.chain = s.chain := by
  cases e : s.levels with
  | nil =>
    refine ⟨s, ?_, wf, ?_, rfl⟩
    · simp only [redirect, inspect_bind, redirectTarget?, e]
      rfl
    · simp only [FlatStack.redirected, flat, e]
  | cons level outer =>
    by_cases below : s.location < level.freePush
    · have within := wf.active e
      have wf1 := wf.rebound e (some s.location) fun l h => by
        cases h
        exact wf.location_le
      have opened : s.openRedirect =
          { s with levels := { level with backPop := some s.location } :: outer } := by
        simp only [openRedirect, e]
      refine ⟨_, ?_, wf1.seated within.freePush, ?_, rfl⟩
      · simp only [redirect, inspect_bind, redirectTarget?, e, below, if_true, update_bind, opened]
        exact wf1.seek_eq within.freePush
      · rw [wf1.flat_seated within.freePush]
        simp only [FlatStack.redirected, flat, e]
        rw [if_pos below]
        rfl
    · refine ⟨s, ?_, wf, ?_, rfl⟩
      · simp only [redirect, inspect_bind, redirectTarget?, e, below, if_false]
        rfl
      · simp only [FlatStack.redirected, flat, e]
        rw [if_neg below]

/-- A jump to the active `backPop` is one on flat memory. -/
lemma rejoin_spec :
    ∃ s', rejoin s = .ok () s' ∧ s'.WellFormed ∧ s'.flat = s.flat.rejoined := by
  -- in all cases but one the cursor stays where it is
  have stay (h : s.rejoinTarget? = none) (h' : s.flat.rejoined = s.flat) :
      ∃ s', rejoin s = .ok () s' ∧ s'.WellFormed ∧ s'.flat = s.flat.rejoined := by
    refine ⟨s, ?_, wf, h'.symm⟩
    simp only [rejoin, inspect_bind, h]
    rfl
  cases e : s.levels with
  | nil =>
    apply stay
    · simp only [rejoinTarget?, e]
    · simp only [FlatStack.rejoined, flat, e]
  | cons level outer =>
    cases b : level.backPop with
    | none =>
      apply stay
      · simp only [rejoinTarget?, e, b, ite_self]
      · simp only [FlatStack.rejoined, flat, e, b]
    | some backPop =>
      by_cases on : s.location = level.freePush
      · have within := wf.active e
        have target := within.backPop _ b
        have wf1 := wf.rebound e none fun l some => by cases some
        have closed : s.closeRedirect =
            { s with levels := { level with backPop := none } :: outer } := by
          simp only [closeRedirect, e]
        refine ⟨_, ?_, wf1.seated target, ?_⟩
        · simp only [rejoin, inspect_bind, rejoinTarget?, e, on, if_true, b, update_bind, closed]
          exact wf1.seek_eq target
        · rw [wf1.flat_seated target]
          simp only [FlatStack.rejoined, flat, e, b]
          rw [if_pos on]
          rfl
      · apply stay
        · simp only [rejoinTarget?, e, on, if_false]
        · simp only [FlatStack.rejoined, flat, e, b]
          rw [if_neg on]

end Transfers

/-! ## Operations -/

/-- A push starts where it does on flat memory. -/
lemma writeStart_eq (s : ByteStack) (isProtected : Bool) :
    s.writeStart isProtected = (s.flat.start isProtected).cursor := by
  cases isProtected with
  | false => rfl
  | true =>
    simp only [writeStart, FlatStack.start, if_true, redirectTarget?, FlatStack.redirected, flat]
    cases e : s.levels with
    | nil => rfl
    | cons level outer =>
      by_cases below : s.location < level.freePush
      · simp only [below, if_true, Option.getD_some]
      · simp only [below, if_false, Option.getD_none]

/-- Counting traffic keeps a stack well formed. -/
lemma WellFormed.countTraffic {s : ByteStack} (wf : s.WellFormed) (bytes : Nat) :
    (s.countTraffic bytes).WellFormed :=
  ⟨wf.chain, wf.current, wf.top, wf.levels⟩

/-- Pushing a byte string commutes with the view. -/
lemma pushBytes_commutes (data : List UInt8) (isProtected : Bool) :
    Commutes WellFormed flat (pushBytes data isProtected) (FlatStack.push data isProtected) := by
  intro s wf
  have room := reserve_spec wf ((s.flat.start isProtected).cursor + data.length)
  simp only [pushBytes, inspect_bind, writeStart_eq, FlatStack.push]
  split at room
  case isFalse full =>
    rw [bind_error room, if_neg full]
    exact ⟨wf, rfl⟩
  case isTrue hroom =>
    obtain ⟨s1, e1, wf1, view1, le⟩ := room
    rw [bind_ok e1, if_pos hroom]
    cases isProtected with
    | false =>
      have room1 : s1.location + data.length ≤ s1.chain.capacity := by
        rw [show s1.location = s.location from congrArg FlatStack.cursor view1]
        exact le
      obtain ⟨s2, e2, wf2, view2⟩ :=
        copyIn_spec s1.chain.size wf1 room1 (Nat.le_add_left _ _)
      rw [if_neg Bool.false_ne_true, inspect_bind, e2]
      refine ⟨wf2, ?_⟩
      rw [through_ok, view2, view1]
      rfl
    | true =>
      obtain ⟨s2, e2, wf2, view2, chain2⟩ := redirect_spec wf1
      have wf3 := wf2.countTraffic data.length
      -- the redirect goes to the place that the room was reserved for
      have cursor2 : s2.location = s.flat.redirected.cursor := by
        have e := congrArg FlatStack.cursor view2
        rw [view1, FlatStack.redirected_grown] at e
        exact e
      have room2 : (s2.countTraffic data.length).location + data.length ≤
          (s2.countTraffic data.length).chain.capacity := by
        rw [show (s2.countTraffic data.length).location = s2.location from rfl, cursor2,
          show (s2.countTraffic data.length).chain = s2.chain from rfl, chain2]
        exact le
      obtain ⟨s3, e3, wf3, view3⟩ :=
        copyIn_spec s2.chain.size wf3 room2 (Nat.le_add_left _ _)
      have e3' : copyIn (s2.countTraffic data.length).chain.size data
          (s2.countTraffic data.length) = .ok () s3 := e3
      rw [if_pos rfl, bind_ok e2, update_bind, inspect_bind, e3']
      refine ⟨wf3, ?_⟩
      rw [through_ok, view3]
      have counted : (s2.countTraffic data.length).flat =
          { s2.flat with traffic := s2.flat.traffic + UInt64.ofNat data.length } := rfl
      rw [counted, view2, view1, FlatStack.redirected_grown]
      rfl

/-- Popping a byte string commutes with the view. -/
lemma popBytes_commutes (count : Nat) (isProtected : Bool) :
    Commutes WellFormed flat (popBytes count isProtected) (FlatStack.pop count isProtected) := by
  intro s wf
  simp only [popBytes, inspect_bind, FlatStack.pop]
  by_cases few : s.location < count
  · rw [if_pos few, if_pos (show s.flat.cursor < count from few)]
    exact ⟨wf, rfl⟩
  · rw [if_neg few, if_neg (show ¬ s.flat.cursor < count from few)]
    obtain ⟨s1, e1, wf1, view1⟩ := copyOut_spec s.chain.size [] wf
      (Nat.le_of_not_lt few) wf.current
    rw [List.append_nil] at e1
    rw [inspect_bind, bind_ok e1]
    cases isProtected with
    | false =>
      refine ⟨wf1, ?_⟩
      simp only [Bool.false_eq_true, if_false, pure_apply, through_ok, view1]
      rfl
    | true =>
      obtain ⟨s2, e2, wf2, view2⟩ := rejoin_spec wf1
      rw [if_pos rfl, bind_ok e2]
      refine ⟨wf2, ?_⟩
      simp only [pure_apply, through_ok, view2, view1]
      rfl

/-- Moving the cursor commutes with the view. -/
lemma setLocation_commutes (l : Location) :
    Commutes WellFormed flat (setLocation l) (FlatStack.setLocation l) := by
  intro s wf
  have capacity : s.chain.capacity = s.flat.blocks * s.flat.blockSize := rfl
  simp only [setLocation, inspect_bind, FlatStack.setLocation, ← capacity]
  by_cases beyond : s.chain.capacity < l
  · rw [if_pos beyond, if_pos beyond]
    exact ⟨wf, rfl⟩
  · have within := Nat.le_of_not_lt beyond
    rw [if_neg beyond, if_neg beyond, wf.seek_eq within]
    exact ⟨wf.seated within, by rw [through_ok, wf.flat_seated within]⟩

/-- Beginning a level commutes with the view. -/
lemma beginRepeat_commutes : Commutes WellFormed flat beginRepeat FlatStack.beginRepeat := by
  intro s wf
  simp only [beginRepeat, inspect_bind, FlatStack.beginRepeat, flat_cursor]
  cases e : s.levels with
  | nil =>
    simp only [redirectTarget?, e]
    refine ⟨wf, ?_⟩
    have same : s.flat.begun = s.flat := by
      simp only [FlatStack.begun, FlatStack.floor, flat_levels, e, Nat.max_zero]
      rfl
    rw [same]
    rfl
  | cons level outer =>
    by_cases below : s.location < level.freePush
    · have within := (wf.active e).freePush
      have target : s.flat.begun = s.flat.seek level.freePush := by
        simp only [FlatStack.begun, FlatStack.floor, flat_levels, e, flat_cursor,
          Nat.max_eq_right (Nat.le_of_lt below)]
      simp only [redirectTarget?, e, below, if_true]
      rw [bind_ok (wf.seek_eq within)]
      exact ⟨wf.seated within, by rw [pure_apply, through_ok, wf.flat_seated within, target]⟩
    · have same : s.flat.begun = s.flat := by
        simp only [FlatStack.begun, FlatStack.floor, flat_levels, e, flat_cursor,
          Nat.max_eq_left (Nat.le_of_not_lt below)]
        rfl
      simp only [redirectTarget?, e, below, if_false]
      refine ⟨wf, ?_⟩
      rw [same]
      rfl

/-- Opening a level that was begun commutes with the view. -/
lemma commitRepeat_commutes {s : ByteStack} (wf : s.WellFormed) {pending : PendingLevel}
    (within : pending.resume ≤ s.chain.capacity) :
    (after (commitRepeat pending s)).WellFormed ∧
      through flat (commitRepeat pending s) = FlatStack.commitRepeat pending s.flat := by
  simp only [commitRepeat, inspect_bind, FlatStack.commitRepeat]
  rw [bind_ok (wf.seek_eq within)]
  have wf1 := wf.seated within
  refine ⟨?_, ?_⟩
  · refine wf1.relevel ?_
    intro x mem
    obtain rfl | mem := List.mem_cons.1 mem
    · exact ⟨within, wf.location_le, nofun⟩
    · exact wf1.levels x mem
  · have view := wf.flat_seated within
    have opened : (openLevel { resume := pending.resume, freePush := s.location, backPop := none }
        (s.seated pending.resume)).flat =
          { (s.seated pending.resume).flat with
            levels := { resume := pending.resume, freePush := s.location, backPop := none } ::
              s.levels } := rfl
    rw [update, through_ok, opened, view]
    rfl

/-- Dropping a level that was begun commutes with the view. -/
lemma abandonRepeat_commutes {s : ByteStack} (wf : s.WellFormed) {pending : PendingLevel}
    (within : pending.resume ≤ s.chain.capacity) :
    (after (abandonRepeat pending s)).WellFormed ∧
      through flat (abandonRepeat pending s) = FlatStack.abandonRepeat pending s.flat := by
  rw [abandonRepeat, wf.seek_eq within]
  exact ⟨wf.seated within, by rw [through_ok, wf.flat_seated within]; rfl⟩

/-- Beginning a restart commutes with the view. -/
lemma beginReset_commutes : Commutes WellFormed flat beginReset FlatStack.beginReset := by
  intro s wf
  simp only [beginReset, inspect_bind, FlatStack.beginReset, active?, flat_levels]
  cases e : s.levels with
  | nil => exact ⟨wf, rfl⟩
  | cons level outer =>
    have within := wf.active e
    have closed :
        s.closeRedirect = { s with levels := { level with backPop := none } :: outer } := by
      simp only [closeRedirect, e]
    have wf1 := wf.rebound e none fun l some => by cases some
    simp only [List.head?_cons, update_bind, closed]
    rw [wf1.seek_eq within.freePush]
    refine ⟨wf1.seated within.freePush, ?_⟩
    rw [through_ok, wf1.flat_seated within.freePush]
    rfl

/-- Finishing a restart commutes with the view. -/
lemma finishReset_commutes : Commutes WellFormed flat finishReset FlatStack.finishReset := by
  intro s wf
  simp only [finishReset, inspect_bind, FlatStack.finishReset, active?, flat_levels]
  cases e : s.levels with
  | nil => exact ⟨wf, rfl⟩
  | cons level outer =>
    have within := (wf.active e).resume
    simp only [List.head?_cons]
    rw [wf.seek_eq within]
    exact ⟨wf.seated within, by rw [through_ok, wf.flat_seated within]⟩

/-- Closing a level commutes with the view. -/
lemma endRepeat_commutes : Commutes WellFormed flat endRepeat FlatStack.endRepeat := by
  intro s wf
  simp only [endRepeat, inspect_bind, FlatStack.endRepeat, active?, flat_levels]
  cases e : s.levels with
  | nil => exact ⟨wf, rfl⟩
  | cons level outer =>
    have dropped : s.dropLevel = { s with levels := outer } := by
      simp only [dropLevel, e, List.tail_cons]
    have wf1 : WellFormed { s with levels := outer } :=
      wf.relevel fun x mem => wf.levels x (e ▸ List.mem_cons_of_mem _ mem)
    simp only [List.head?_cons, update_bind, dropped]
    cases b : level.backPop with
    | none =>
      obtain ⟨s2, e2, wf2, view2⟩ := rejoin_spec wf1
      dsimp only
      rw [bind_ok e2]
      refine ⟨wf2, ?_⟩
      rw [pure_apply, through_ok, view2, FlatStack.ended, b]
      rfl
    | some backPop =>
      have within := (wf.active e).backPop _ b
      obtain ⟨s2, e2, wf2, view2⟩ := rejoin_spec (wf1.seated within)
      dsimp only
      rw [bind_ok (wf1.seek_eq within), bind_ok e2]
      refine ⟨wf2, ?_⟩
      rw [pure_apply, through_ok, view2, wf1.flat_seated within, FlatStack.ended, b]
      rfl

end ByteStack

end AdjointTape

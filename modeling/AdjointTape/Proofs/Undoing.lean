import AdjointTape.Proofs.Placement
import AdjointTape.Proofs.Agreement
import AdjointTape.Proofs.Bits

/-!
# Pops undo pushes

A tape carries a stage when its buffers are those of the stage and its byte stack carries the
segments. A push that finds room leaves a tape that carries the stage with one more atom, and the
pop that asks for this atom answers it and leaves a tape that carries the stage as it was before.
-/

open AdjointTape.Action AdjointTape.FlatStack

namespace AdjointTape

namespace FlatStack.Carries

variable {s : FlatStack} {sinces : List Nat} {segments : List ByteSegment}

/-- A push puts a segment on top, or there is no room for it. -/
lemma push (carries : s.Carries sinces segments) (x : ByteSegment)
    (nested : ∀ level ∈ s.redirected.levels, level.freePush ≤ floor s.levels)
    (recent : ∀ since ∈ sinces, since ≤ x.serial) :
    (∃ s', FlatStack.push x.data true s = .ok () s' ∧ s'.Carries sinces (x :: segments)) ∨
      ∃ blocks blockSize,
        FlatStack.push x.data true s = .error (.outOfMemory blocks blockSize) s := by
  obtain run | full := push_cases x.data true s
  · exact .inl ⟨_, run, carries.pushed x nested recent⟩
  · exact .inr full

/-- A pop takes a segment off that is due. -/
lemma pop {x : ByteSegment} (carries : s.Carries sinces (x :: segments))
    (due : Due s.levels.tail sinces.tail x.serial) :
    ∃ s', FlatStack.pop x.data.length true s = .ok x.data s' ∧ s'.Carries sinces segments := by
  obtain ⟨enough, top, popped⟩ := carries.popped due
  refine ⟨_, ?_, popped⟩
  rw [FlatStack.pop, if_neg (Nat.not_lt.2 enough), top]

end FlatStack.Carries

namespace FlatTape

/-- A tape with the buffers of a stage and its segments. -/
structure Carries (f : FlatTape) (sinces : List Nat) (stage : Stage) : Prop where
  stack : f.stack.Carries sinces stage.segments
  valid : f.valid = stage.valid
  bits : f.bits.valid = stage.bits.valid

/-- No level protects more than the active one. -/
lemma Nested.freePush_le {capacity : Nat} {levels : List RepeatLevel} {marks : List Marks}
    (nested : Nested capacity levels marks) : ∀ level ∈ levels, level.freePush ≤ floor levels := by
  induction nested with
  | outermost => exact nofun
  | inner freePush backPop within nested ih =>
    refine List.forall_mem_cons.2 ⟨Nat.le_refl _, fun level mem => Nat.le_trans (ih level mem) ?_⟩
    exact (Nested.inner freePush backPop within nested).floor_le

/-- Every level protects up to the active `freePush` or less, after a redirect too. -/
lemma Sound.freePush_le {f : FlatTape} (sound : f.Sound) :
    ∀ level ∈ f.stack.redirected.levels, level.freePush ≤ floor f.stack.levels := by
  have redirects := (guarded_redirected f.stack).levels
  have nested := sound.nested.redirects redirects
  rw [← redirects.floor_eq]
  exact nested.freePush_le

variable {f : FlatTape} {sinces : List Nat} {base stage : Stage} {serial : Nat}

/-! ## Bytes -/

/-- A byte string that is pushed is put on the stage. -/
lemma carries_pushBytes (carries : f.Carries sinces stage) (sound : f.Sound)
    (recent : ∀ since ∈ sinces, since ≤ serial) {data : List UInt8}
    (room : ranOut (outcome (onStack (FlatStack.push data true) f)) = false) :
    ∃ f', onStack (FlatStack.push data true) f = .ok () f' ∧
      f'.Carries sinces (stage.put f.capacity serial (.bulk data)) := by
  obtain ⟨stack, valid, bits⟩ := carries
  obtain ⟨s', run, carries⟩ | ⟨blocks, blockSize, full⟩ :=
    stack.push ⟨serial, data⟩ sound.freePush_le recent
  case inr =>
    rw [onStack_error full] at room
    cases room
  exact ⟨_, onStack_ok run, carries, valid, bits⟩

/-- A byte string that is due comes back from the stage. -/
lemma carries_popBytes (stage : Stage) {data : List UInt8}
    (carries : f.Carries sinces { stage with segments := ⟨serial, data⟩ :: stage.segments })
    (due : Due f.stack.levels.tail sinces.tail serial) :
    ∃ f', onStack (FlatStack.pop data.length true) f = .ok data f' ∧ f'.capacity = f.capacity ∧
      f'.Carries sinces stage := by
  obtain ⟨stack, valid, bits⟩ := carries
  obtain ⟨s', run, carries⟩ := stack.pop due
  exact ⟨_, onStack_ok run, rfl, carries, valid, bits⟩

/-! ## Scalars -/

/-- A tape carries a stage with the same buffer set. -/
lemma Carries.hold (carries : f.Carries sinces stage) (k : ScalarKind) (values : List k.Carrier) :
    (f.hold k values).Carries sinces (stage.hold k values) := by
  obtain ⟨stack, valid, bits⟩ := carries
  refine ⟨stack, ?_, bits⟩
  rw [FlatTape.hold, Stage.hold, valid]

/-- A buffer that is set back gives the stage back. -/
lemma Carries.hold_back {k : ScalarKind} {values : List k.Carrier}
    (carries : f.Carries sinces (stage.hold k values)) :
    (f.hold k (stage.valid k)).Carries sinces stage := by
  have held := carries.hold k (stage.valid k)
  rw [Stage.hold_hold] at held
  exact held

/-- A scalar that is pushed is put on the stage. -/
lemma carries_push (carries : f.Carries sinces stage) (sound : f.Sound)
    (recent : ∀ since ∈ sinces, since ≤ serial) {k : ScalarKind} {value : k.Carrier}
    (room : ranOut (outcome (push k value f)) = false) :
    ∃ f', push k value f = .ok () f' ∧
      f'.Carries sinces (stage.put f.capacity serial (.scalar k value)) := by
  have held : f.valid k = stage.valid k := congrFun carries.valid k
  rw [Stage.put, ← held]
  by_cases few : (f.valid k).length + 1 < f.capacity
  case pos =>
    rw [if_pos few]
    have longer := carries.hold k (value :: f.valid k)
    exact ⟨_, push_room few, longer.stack, longer.valid, longer.bits⟩
  case neg =>
    rw [push_spill few] at room ⊢
    rw [if_neg few]
    obtain ⟨f', run, carries⟩ := carries_pushBytes carries sound recent (ranOut_first room)
    have empty := carries.hold k []
    exact ⟨f'.emptied k, bind_ok run, empty.stack, empty.valid, empty.bits⟩

/-- A buffer that was spilled comes back from its bytes. -/
lemma refill_eq {k : ScalarKind} {value : k.Carrier} {rest : List k.Carrier}
    (full : (value :: rest).length = f.capacity) :
    refill k (k.encodeAll (value :: rest).reverse) f = .ok value (f.hold k rest) := by
  have spelt := k.decodeAll_encodeAll (value :: rest).reverse
  rw [List.length_reverse, full] at spelt
  simp only [refill, spelt, List.reverse_reverse, List.headD_cons, List.tail_cons]

/-- A scalar that is due comes back from the stage. -/
lemma carries_pop (tidy : stage.Tidy f.capacity) {k : ScalarKind} {value : k.Carrier}
    (carries : f.Carries sinces (stage.put f.capacity serial (.scalar k value)))
    (due : Due f.stack.levels.tail sinces.tail serial) :
    ∃ f', pop k f = .ok value f' ∧ f'.Carries sinces stage := by
  rw [Stage.put] at carries
  by_cases few : (stage.valid k).length + 1 < f.capacity
  case pos =>
    rw [if_pos few] at carries
    have held : f.valid k = value :: stage.valid k := by rw [carries.valid, Stage.valid_hold]
    exact ⟨_, pop_held held, carries.hold_back⟩
  case neg =>
    rw [if_neg few] at carries
    have empty : f.valid k = [] := by rw [carries.valid, Stage.valid_hold]
    have full : (value :: stage.valid k).length = f.capacity := by
      have room := tidy.valid k
      rw [List.length_cons]
      omega
    have length : (k.encodeAll (value :: stage.valid k).reverse).length = f.capacity * k.width := by
      rw [k.length_encodeAll, List.length_reverse, full]
    obtain ⟨f', run, capacity, back⟩ :=
      carries_popBytes (stage.hold k []) carries due
    rw [length] at run
    refine ⟨_, ?_, back.hold_back⟩
    rw [pop_refill empty, bind_ok run]
    exact refill_eq (full.trans capacity.symm)

/-! ## Bits -/

/-- A bit that is pushed is put on the stage. -/
lemma carries_pushBit (carries : f.Carries sinces stage) (sound : f.Sound)
    (recent : ∀ since ∈ sinces, since ≤ serial) {bit : Bool}
    (room : ranOut (outcome (pushBit bit f)) = false) :
    ∃ f', pushBit bit f = .ok () f' ∧
      f'.Carries sinces (stage.put f.capacity serial (.bit bit)) := by
  have index : f.bits.index = stage.bits.index := BitBuffer.index_congr carries.bits
  have few := sound.roomy.bits
  have longer : BitBuffer.valid ⟨BitBuffer.append f.bits.word bit, f.bits.index + 1⟩ =
      BitBuffer.valid ⟨BitBuffer.append stage.bits.word bit, stage.bits.index + 1⟩ := by
    rw [BitBuffer.valid_append bit few, BitBuffer.valid_append bit (index ▸ few), carries.bits]
  rw [Stage.put, ← index]
  by_cases full : BitBuffer.wordBits ≤ f.bits.index + 1
  case pos =>
    -- a full word has no room for stray bits
    have last : f.bits.index + 1 = BitBuffer.wordBits := Nat.le_antisymm few full
    rw [← index, last] at longer
    rw [pushBit_spill full] at room ⊢
    rw [if_pos full, ← BitBuffer.word_congr longer]
    obtain ⟨f', run, carries⟩ := carries_pushBytes carries sound recent (ranOut_first room)
    exact ⟨_, bind_ok run, carries.stack, carries.valid, rfl⟩
  case neg =>
    rw [if_neg full, index]
    exact ⟨_, pushBit_room full, carries.stack, carries.valid, longer⟩

/-- A bit that is due comes back from the stage. -/
lemma carries_popBit (tidy : stage.Tidy f.capacity) {bit : Bool}
    (carries : f.Carries sinces (stage.put f.capacity serial (.bit bit)))
    (due : Due f.stack.levels.tail sinces.tail serial) :
    ∃ f', popBit f = .ok bit f' ∧ f'.Carries sinces stage := by
  have longer := BitBuffer.valid_append bit tidy.index
  rw [Stage.put] at carries
  by_cases full : BitBuffer.wordBits ≤ stage.bits.index + 1
  case pos =>
    rw [if_pos full] at carries
    obtain ⟨rest, last, same⟩ := BitBuffer.takeLast_of_valid longer
    have index : stage.bits.index = BitBuffer.wordBits - 1 :=
      Nat.le_antisymm (Nat.le_sub_one_of_lt tidy.index) (Nat.sub_le_of_le_add full)
    obtain ⟨f', run, -, back⟩ :=
      carries_popBytes { stage with bits := .empty } carries due
    have length : (BitBuffer.encode (BitBuffer.append stage.bits.word bit)).length = 4 :=
      LittleEndian.length_encode 4 _
    rw [length] at run
    refine ⟨{ f' with bits := rest }, ?_, back.stack, back.valid, same⟩
    rw [popBit_refill (BitBuffer.index_congr carries.bits), bind_ok run]
    rw [refillBits, decode_encode, ← index, last]
  case neg =>
    rw [if_neg full] at carries
    have index : f.bits.index = stage.bits.index + 1 := BitBuffer.index_congr carries.bits
    have held : BitBuffer.valid ⟨f.bits.word, stage.bits.index + 1⟩ = bit :: stage.bits.valid := by
      rw [← longer, ← carries.bits, ← index]
    obtain ⟨rest, last, same⟩ := BitBuffer.takeLast_of_valid held
    refine ⟨{ f with bits := rest }, ?_, carries.stack, carries.valid, same⟩
    rw [popBit_held index, last]

/-- The atoms of bits, all with one serial number. -/
def bitAtoms (serial : Nat) (bits : List Bool) : List (Nat × Atom) :=
  bits.map fun bit => (serial, .bit bit)

/-- Bits that are pushed are put on the stage. -/
lemma carries_pushBits {atoms : List (Nat × Atom)}
    (carries : f.Carries sinces (.of f.capacity base atoms)) (sound : f.Sound)
    (recent : ∀ since ∈ sinces, since ≤ serial) {bits : List Bool}
    (room : ranOut (outcome (pushBits bits f)) = false) :
    ∃ f', pushBits bits f = .ok () f' ∧
      f'.Carries sinces (.of f.capacity base (bitAtoms serial bits.reverse ++ atoms)) := by
  induction bits generalizing f atoms with
  | nil => exact ⟨f, rfl, carries⟩
  | cons bit rest ih =>
    rw [pushBits] at room ⊢
    obtain ⟨f', run, carries⟩ := carries_pushBit carries sound recent (ranOut_first room)
    have step := steps_pushBit bit f
    rw [run] at step
    rw [bind_ok run] at room ⊢
    rw [← step.capacity] at carries ⊢
    obtain ⟨f'', run, carries⟩ :=
      @ih f' ((serial, .bit bit) :: atoms) carries (step.sound sound) room
    refine ⟨f'', run, ?_⟩
    rw [List.reverse_cons, bitAtoms, List.map_append, List.append_assoc]
    exact carries

/-- Bits that are due come back from the stage. -/
lemma carries_popBits {atoms : List (Nat × Atom)} (tidy : base.Tidy f.capacity) {bits : List Bool}
    (carries : f.Carries sinces (.of f.capacity base (bitAtoms serial bits ++ atoms)))
    (due : Due f.stack.levels.tail sinces.tail serial) (value : Nat) :
    ∃ f', popBits bits.length value f =
        .ok (bits.foldl (fun value bit => 2 * value + bit.toNat) value) f' ∧
      f'.Carries sinces (.of f.capacity base atoms) := by
  induction bits generalizing f value with
  | nil => exact ⟨f, rfl, carries⟩
  | cons bit rest ih =>
    obtain ⟨f', run, carries⟩ := carries_popBit (tidy.of _) carries due
    have step := steps_popBit f
    rw [run] at step
    rw [List.length_cons, popBits, bind_ok run]
    rw [← step.capacity] at tidy carries ⊢
    rw [← step.stack.levels.tail_eq] at due
    exact ih tidy carries due _

/-- The bits of a control tag that fits spell it. -/
lemma foldl_controlBits (width : Nat) {value : Nat} (fits : value < 2 ^ (width + 1)) :
    (Tape.controlBits width value).reverse.foldl (fun value bit => 2 * value + bit.toNat) 0 =
      value := by
  rw [List.foldl_reverse]
  induction width generalizing value with
  | zero =>
    have : value = 0 ∨ value = 1 := by omega
    obtain rfl | rfl := this <;> rfl
  | succ width ih =>
    rw [Tape.controlBits, List.foldr_cons, ih (by omega)]
    by_cases odd : value % 2 = 1 <;> simp [odd] <;> omega

/-- A control tag of `width + 1` bits has as many. -/
lemma length_controlBits (width value : Nat) :
    (Tape.controlBits width value).length = width + 1 := by
  induction width generalizing value with
  | zero => rfl
  | succ width ih => rw [Tape.controlBits, List.length_cons, ih]

end FlatTape

/-! ## Items -/

/-- The atoms of an item, the last one first. -/
def Item.atoms (serial : Nat) : Item → List (Nat × Atom)
  | .scalar k value => [(serial, .scalar k value)]
  | .bit value => [(serial, .bit value)]
  | .control value width => FlatTape.bitAtoms serial (Tape.controlBits (width - 1) value).reverse
  | .array k values => [(serial, .bulk (k.encodeAll values))]
  | .bytes data => [(serial, .bulk data)]

namespace FlatTape

variable {f : FlatTape} {sinces : List Nat} {base : Stage} {serial : Nat}
  {atoms : List (Nat × Atom)}

/-- An item that is pushed is put on the stage. -/
lemma carries_pushItem (carries : f.Carries sinces (.of f.capacity base atoms)) (sound : f.Sound)
    (recent : ∀ since ∈ sinces, since ≤ serial) {item : Item} (fits : item.Fits)
    (room : ranOut (outcome (item.pushCall.performFlat f)) = false) :
    ∃ f', item.pushCall.performFlat f = .ok .unit f' ∧
      f'.Carries sinces (.of f.capacity base (item.atoms serial ++ atoms)) := by
  cases item with
  | scalar k value =>
    obtain ⟨f', run, carries⟩ := carries_push carries sound recent (ranOut_first room)
    exact ⟨f', bind_ok run, carries⟩
  | bit value =>
    obtain ⟨f', run, carries⟩ := carries_pushBit carries sound recent (ranOut_first room)
    exact ⟨f', bind_ok run, carries⟩
  | control value width =>
    obtain ⟨low, high, -⟩ := fits
    simp only [Item.pushCall, Call.performFlat, if_pos (And.intro low high)] at room ⊢
    obtain ⟨f', run, carries⟩ := carries_pushBits carries sound recent (ranOut_first room)
    exact ⟨f', bind_ok run, carries⟩
  | array k values =>
    obtain ⟨f', run, carries⟩ := carries_pushBytes carries sound recent (ranOut_first room)
    exact ⟨f', bind_ok run, carries⟩
  | bytes data =>
    obtain ⟨f', run, carries⟩ := carries_pushBytes carries sound recent (ranOut_first room)
    exact ⟨f', bind_ok run, carries⟩

/-- An item that is due comes back from the stage. -/
lemma carries_popItem (tidy : base.Tidy f.capacity) {item : Item} (fits : item.Fits)
    (carries : f.Carries sinces (.of f.capacity base (item.atoms serial ++ atoms)))
    (due : Due f.stack.levels.tail sinces.tail serial) :
    ∃ f', item.popCall.performFlat f = .ok item.answer f' ∧
      f'.Carries sinces (.of f.capacity base atoms) := by
  cases item with
  | scalar k value =>
    obtain ⟨f', run, carries⟩ := carries_pop (tidy.of atoms) carries due
    exact ⟨f', bind_ok run, carries⟩
  | bit value =>
    obtain ⟨f', run, carries⟩ := carries_popBit (tidy.of atoms) carries due
    exact ⟨f', bind_ok run, carries⟩
  | control value width =>
    obtain ⟨low, high, small⟩ := fits
    have pred : width - 1 + 1 = width := Nat.sub_add_cancel low
    obtain ⟨f', run, carries⟩ := carries_popBits tidy carries due 0
    rw [List.length_reverse, length_controlBits, pred,
      foldl_controlBits _ (pred.symm ▸ small)] at run
    simp only [Item.popCall, Call.performFlat, if_pos (And.intro low high)]
    exact ⟨f', bind_ok run, carries⟩
  | array k values =>
    obtain ⟨f', run, -, carries⟩ := carries_popBytes _ carries due
    rw [k.length_encodeAll] at run
    refine ⟨f', (bind_ok run).trans ?_, carries⟩
    rw [pure_apply, k.decodeAll_encodeAll]
    rfl
  | bytes data =>
    obtain ⟨f', run, -, carries⟩ := carries_popBytes _ carries due
    exact ⟨f', bind_ok run, carries⟩

/-! ## Levels -/

variable {g : FlatTape} {since : Nat} {stage : Stage}

/-- Tapes that agree but for stray bits carry the same. -/
lemma Carries.agrees (carries : f.Carries sinces stage) (stack : f.stack.Agrees g.stack)
    (valid : g.valid = f.valid) (bits : g.bits.valid = f.bits.valid) : g.Carries sinces stage := by
  obtain ⟨⟨lies, settled, sorted, timed⟩, held, buffered⟩ := carries
  refine ⟨⟨?_, ?_, sorted, ?_⟩, valid.trans held, bits.trans buffered⟩
  · rw [stack.levels, stack.cursor]
    exact lies.congr fun l below =>
      stack.bytes l (Nat.lt_of_lt_of_le below (Nat.le_max_left _ _))
  · rw [stack.levels]
    exact settled
  · rw [stack.levels]
    exact timed

/-- A level that is opened goes over what is there. -/
lemma Carries.opened (carries : f.Carries sinces stage) (opened : Opened f g)
    (old : ∀ x ∈ stage.segments, x.serial < since)
    (sorted : (since :: sinces).Pairwise (· ≥ ·)) : g.Carries (since :: sinces) stage := by
  obtain ⟨stack, valid, bits⟩ := carries
  refine ⟨.coveredBy opened.levels rfl old ?_ sorted, opened.valid.trans valid, ?_⟩
  · rw [opened.cursor, opened.bytes]
    exact stack.lies.congr fun l below =>
      ByteMap.write_below _ _ (Nat.lt_of_lt_of_le below (Nat.le_max_left _ _))
  · rw [opened.bits]
    exact bits

/-- A level is closed with nothing left that was pushed since it was opened or restarted. -/
lemma Carries.ended (carries : f.Carries (since :: sinces) stage) {level : RepeatLevel}
    {outer : List RepeatLevel} (levels : f.stack.levels = level :: outer)
    (old : ∀ x ∈ stage.segments, x.serial < since) (timed : sinces = [] → outer = []) :
    ({ f with stack := f.stack.ended level outer, marks := f.marks.tail } : FlatTape).Carries
      sinces stage := by
  obtain ⟨stack, valid, bits⟩ := carries
  -- with nothing left of the level its redirect is not open, and the cursor stays
  obtain ⟨none, lies⟩ := stack.under levels old
  have ended : f.stack.ended level outer = { f.stack with levels := outer }.rejoined := by
    rw [FlatStack.ended, none]
    rfl
  refine ⟨?_, valid, bits⟩
  change FlatStack.Carries (f.stack.ended level outer) _ _
  rw [ended]
  exact carries_rejoined (s := { f.stack with levels := outer }) lies
    (List.pairwise_cons.1 stack.sorted).2 timed

end FlatTape

end AdjointTape

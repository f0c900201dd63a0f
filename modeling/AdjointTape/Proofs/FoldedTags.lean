import AdjointTape.Proofs.Bracketed

/-!
# Control tags of any value

A control tag keeps the low bits of its value but for the top one, which is set when the value has a
bit there or above.  So the tag that comes back is the value folded into the width, and a value that
fits is its own folding.  Tags that are pushed one after the other come back folded, the last one
first, wherever in a word the first of them begins.
-/

open AdjointTape.Action AdjointTape.FlatStack

namespace AdjointTape

/-- A value and the number of bits it is pushed with. -/
structure Tag where
  value : Nat
  width : Nat

namespace Tag

/-- A value that is folded into a number of bits and one more bit on top, which stands for all
others. -/
def fold (low value : Nat) : Nat := value % 2 ^ low + if 2 ^ low ≤ value then 2 ^ low else 0

/-- What a tag answers when it comes back. -/
def folded (tag : Tag) : Nat := fold (tag.width - 1) tag.value

/-- The call that pushes a tag. -/
def pushCall (tag : Tag) : Call := .pushControl tag.value tag.width

/-- The call that pops a tag of this width. -/
def popCall (tag : Tag) : Call := .popControl tag.width

/-- A folded value fits into its bits. -/
lemma fold_lt (low value : Nat) : fold low value < 2 ^ (low + 1) := by
  have small : value % 2 ^ low < 2 ^ low := Nat.mod_lt _ (Nat.two_pow_pos low)
  rw [fold, Nat.pow_succ]
  split <;> lia

/-- A value that fits is its own folding. -/
lemma fold_of_lt {low value : Nat} (fits : value < 2 ^ (low + 1)) : fold low value = value := by
  rw [Nat.pow_succ] at fits
  rw [fold]
  split
  case isTrue high =>
    rw [Nat.mod_eq_sub_mod high, Nat.mod_eq_of_lt (by lia), Nat.sub_add_cancel high]
  case isFalse small => rw [Nat.mod_eq_of_lt (Nat.lt_of_not_le small), Nat.add_zero]

/-- Folding keeps the last bit and folds the others. -/
lemma fold_succ (low value : Nat) :
    fold (low + 1) value = value % 2 + 2 * fold low (value / 2) := by
  have half : 2 * 2 ^ low ≤ value ↔ 2 ^ low ≤ value / 2 := by lia
  rw [fold, fold, Nat.pow_succ', Nat.mod_mul, if_congr half rfl rfl]
  split <;> lia

/-- A value has the bits of its folding. -/
lemma controlBits_fold (low value : Nat) :
    Tape.controlBits low (fold low value) = Tape.controlBits low value := by
  induction low generalizing value with
  | zero =>
    have some : fold 0 value ≠ 0 ↔ value ≠ 0 := by
      rw [fold, Nat.pow_zero, Nat.mod_one]
      split <;> lia
    simp only [Tape.controlBits, some]
  | succ low ih =>
    have last : (value % 2 + 2 * fold low (value / 2)) % 2 = value % 2 := by lia
    have others : (value % 2 + 2 * fold low (value / 2)) / 2 = fold low (value / 2) := by lia
    rw [fold_succ, Tape.controlBits, Tape.controlBits, last, others, ih]

/-- The item that a tag of any value puts on the tape. -/
def item (tag : Tag) : Item := .control tag.folded tag.width

variable {tag : Tag}

/-- The item of a tag of an allowed width fits. -/
lemma item_fits (low : 1 ≤ tag.width) (high : tag.width ≤ 8) : tag.item.Fits := by
  have small := fold_lt (tag.width - 1) tag.value
  rw [Nat.sub_add_cancel low] at small
  exact ⟨low, high, small⟩

/-- Pushing a tag pushes its item. -/
lemma performFlat_pushCall (tag : Tag) :
    tag.pushCall.performFlat = tag.item.pushCall.performFlat := by
  simp only [pushCall, item, Item.pushCall, Call.performFlat, folded, controlBits_fold]

end Tag

namespace FlatTape

/-- Tags that are pushed lie on the stage they were pushed on, and pops of their widths, the last
one first, answer their foldings and bring the stage back. -/
lemma run_tags {tags : List Tag} (widths : ∀ tag ∈ tags, 1 ≤ tag.width ∧ tag.width ≤ 8)
    {f : FlatTape} {base : Stage} {sinces : List Nat} {serial capacity : Nat}
    {atoms : List (Nat × Atom)} (sound : f.Sound) (same : f.capacity = capacity)
    (tidy : base.Tidy capacity) (carries : f.Carries sinces (.of capacity base atoms))
    (recent : ∀ since ∈ sinces, since ≤ serial)
    (room : ∀ o ∈ (runAll Call.performFlat (tags.map Tag.pushCall) f).1, ranOut o = false) :
    ∃ g h, runAll Call.performFlat (tags.map Tag.pushCall) f =
        (tags.map fun _ => .ok .unit, g) ∧
      runAll Call.performFlat (tags.reverse.map Tag.popCall) g =
        (tags.reverse.map fun tag => .ok (.control tag.folded), h) ∧
      Guarded f h ∧ h.Carries sinces (.of capacity base atoms) := by
  induction tags generalizing f atoms with
  | nil => exact ⟨f, f, rfl, rfl, .refl f, carries⟩
  | cons tag rest ih =>
    subst same
    obtain ⟨low, high⟩ := widths tag List.mem_cons_self
    have fits := Tag.item_fits low high
    rw [List.map_cons, runAll_cons, tag.performFlat_pushCall] at room
    obtain ⟨f1, push, carries1⟩ :=
      carries_pushItem carries sound recent fits (room _ List.mem_cons_self)
    rw [after_ok push] at room
    have step1 : Guarded f f1 := after_ok push ▸ guarded_pushItem tag.item sound
    obtain ⟨g, f2, pushes, pops, step2, carries2⟩ :=
      ih (fun tag mem => widths tag (List.mem_cons_of_mem _ mem)) (step1.sound sound)
        step1.capacity carries1 fun o mem => room o (List.mem_cons_of_mem _ mem)
    -- the tag is what is left when those after it are popped
    have guarded := step1.trans step2
    obtain ⟨h, pop, carries3⟩ := carries_popItem (guarded.capacity ▸ tidy) fits
      (guarded.capacity ▸ carries2)
      (due_of_recent fun since mem => recent since (List.mem_of_mem_tail mem))
    have step3 : Guarded f2 h := after_ok pop ▸ guarded_popItem tag.item (guarded.sound sound)
    refine ⟨g, h, ?_, ?_, guarded.trans step3, guarded.capacity ▸ carries3⟩
    · rw [List.map_cons, runAll_cons_ok (tag.performFlat_pushCall ▸ push), pushes]
      rfl
    · have last : tag.popCall.performFlat f2 = .ok (.control tag.folded) h := pop
      rw [List.reverse_cons, List.map_append, runAll_append, pops, List.map_singleton,
        runAll_cons_ok last, List.map_append]
      rfl

end FlatTape

/-- Control tags come back folded. On every reachable tape, whatever its buffers hold and however
many levels are open, unless the active redirect is open and the cursor is on its `freePush`: tags
of one to eight bits and of any value, in range or not, are pushed, and pops of their widths in the
opposite order answer their foldings, which are the values themselves where they fit. In the end the
cursor, the levels with their redirects, the marks, all that is buffered, the bits among it, and the
bytes up to the cursor or the active `freePush` are the same as in the beginning. This is asked only
where memory does not run out. -/
theorem control_tags_come_back_folded {t : Tape} (reachable : t.Reachable)
    (off : ∀ level ∈ t.stack.levels.head?, level.backPop = none ∨ level.freePush < t.location)
    {tags : List Tag} (widths : ∀ tag ∈ tags, 1 ≤ tag.width ∧ tag.width ≤ 8)
    (room : ∀ o ∈ (Call.performAll (tags.map Tag.pushCall) t).1, ranOut o = false) :
    ∃ u v : Tape, Call.performAll (tags.map Tag.pushCall) t = (tags.map fun _ => .ok .unit, u) ∧
      Call.performAll (tags.reverse.map Tag.popCall) u =
        (tags.reverse.map fun tag => .ok (.control tag.folded), v) ∧
      (∀ tag ∈ tags, tag.value < 2 ^ tag.width → tag.folded = tag.value) ∧ t.Alike v := by
  have sound := reachable.sound
  simp only [Tape.performAll_eq] at room ⊢
  obtain ⟨times, segments, carries, recent, back⟩ :=
    FlatStack.exists_determined sound.levels.back off
  let base : Stage := ⟨segments, t.flat.valid, t.flat.bits⟩
  have tidy : base.Tidy t.flat.capacity := ⟨sound.levels.roomy.valid, sound.levels.roomy.bits⟩
  have start : t.flat.Carries times (.of t.flat.capacity base []) := ⟨carries, rfl, rfl⟩
  rw [(Commutes.all Tape.perform_commutes (tags.map Tag.pushCall) sound).2.1] at room
  obtain ⟨g, h, pushes, pops, guarded, last⟩ :=
    FlatTape.run_tags widths sound.levels rfl tidy start recent room
  obtain ⟨u, pushed, sound', view⟩ := Commutes.back_all Tape.perform_commutes sound pushes
  obtain ⟨v, popped, sound'', view'⟩ :=
    Commutes.back_all Tape.perform_commutes sound' ((congrArg _ view).trans pops)
  refine ⟨u, v, pushed, popped, ?_, ?_⟩
  · intro tag mem fits
    rw [← Nat.sub_add_cancel (widths tag mem).1] at fits
    exact Tag.fold_of_lt fits
  · subst view'
    exact Tape.alike_of_flat sound sound'' (back guarded.stack last.stack) last.valid last.bits
      guarded.marks

/-- Tags that are too large, behind an open redirect, over the end of a word that holds bits
already. -/
theorem control_tags_come_back_folded_behind_a_redirect :
    let tags : List Tag := [⟨1000, 3⟩, ⟨5, 8⟩, ⟨4294967295, 8⟩, ⟨16, 5⟩, ⟨2, 1⟩, ⟨300, 8⟩]
    tags.map Tag.folded = [4, 5, 255, 16, 1, 172] ∧ ∃ t u v : Tape, t.Reachable ∧
      (∀ level ∈ t.stack.levels.head?, level.backPop = none ∨ level.freePush < t.location) ∧
      (∀ tag ∈ tags, 1 ≤ tag.width ∧ tag.width ≤ 8) ∧ t.area.bits.index = 1 ∧
      (∀ o ∈ (Call.performAll (tags.map Tag.pushCall) t).1, ranOut o = false) ∧
      Call.performAll (tags.map Tag.pushCall) t = (tags.map fun _ => .ok .unit, u) ∧
      Call.performAll (tags.reverse.map Tag.popCall) u =
        (tags.reverse.map fun tag => .ok (.control tag.folded), v) ∧ t.Alike v := by
  intro tags
  have created : Tape.create ⟨2, 2⟩ none = .ok _ := rfl
  have reachable := (Tape.Reachable.create created).run [.pushBytes [1, 2, 3] true, .pushBit true,
    .startRepeat, .popBytes 1 true, .pushBytes [9] true]
  obtain ⟨t, reachable, off, index, room⟩ : ∃ t : Tape, t.Reachable ∧
      (∀ level ∈ t.stack.levels.head?, level.backPop = none ∨ level.freePush < t.location) ∧
      t.area.bits.index = 1 ∧
        ∀ o ∈ (Call.performAll (tags.map Tag.pushCall) t).1, ranOut o = false :=
    ⟨_, reachable, by decide +kernel, by decide +kernel, by decide +kernel⟩
  have widths : ∀ tag ∈ tags, 1 ≤ tag.width ∧ tag.width ≤ 8 := by decide
  obtain ⟨u, v, pushes, pops, -, same⟩ :=
    control_tags_come_back_folded reachable off widths room
  exact ⟨by decide, t, u, v, reachable, off, widths, index, room, pushes, pops, same⟩

end AdjointTape

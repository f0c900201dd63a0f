import AdjointTape.Proofs.Restoring

/-!
# The geometry of open levels

The levels and the marks they saved are two stacks in step.  A level reaches from where it resumes,
or from the end of what the enclosing level protects if that is higher, over as many bytes as its
marks say, so the protected regions grow inwards and a restart finds the bytes of every buffer.
Unprotected pushes may change those bytes and seeks may leave the cursor anywhere; neither touches
the geometry.
-/

open AdjointTape.Action AdjointTape.FlatStack

namespace AdjointTape

/-- A level in its place over the levels that enclose it and behind what its marks say it saved, on
a tape with `bytes` bytes whose buffers spill at `capacity` values. -/
structure RepeatLevel.Placed (capacity bytes : Nat) (outer : List RepeatLevel) (marks : Marks)
    (level : RepeatLevel) : Prop where
  freePush : level.freePush = max level.resume (floor outer) + marks.savedBytes
  inward : floor outer ≤ level.freePush
  resume : level.resume ≤ level.freePush
  backPop : ∀ l, level.backPop = some l → l < level.freePush
  allocated : level.Within bytes
  marks : marks.Within capacity

namespace FlatTape

/-- Every level of nested levels is in its place. -/
lemma Nested.placed {capacity bytes : Nat} {levels : List RepeatLevel} {marks : List Marks}
    (nested : Nested capacity levels marks) (allocated : ∀ level ∈ levels, level.Within bytes)
    {i : Nat} {level : RepeatLevel} {m : Marks} (at' : levels[i]? = some level)
    (marked : marks[i]? = some m) : level.Placed capacity bytes (levels.drop (i + 1)) m := by
  induction nested generalizing i with
  | outermost => cases at'
  | inner freePush backPop within nested ih =>
    cases i with
    | zero =>
      cases at'
      cases marked
      have inward := (Nested.inner freePush backPop within nested).floor_le
      have resume := Nat.le_trans (Nat.le_max_left _ _) (freePush ▸ Nat.le_add_right _ _)
      exact ⟨freePush, inward, resume, backPop, allocated _ List.mem_cons_self, within⟩
    | succ i => exact ih (fun x mem => allocated x (List.mem_cons_of_mem _ mem)) at' marked

/-! ## Fill indices after a restart -/

/-- Fill indices do not depend on the stack. -/
lemma index_stack (f : FlatTape) (stack : FlatStack) (kind : Kind) :
    index { f with stack } kind = f.index kind := rfl

/-- A kind is filled as far as it was taken back. -/
lemma index_takeBack (f : FlatTape) (kind : Kind) (count : Nat) :
    (f.takeBack kind count).index kind = count := by
  rw [index, takeBack]
  cases kind.scalar? with
  | some k =>
    dsimp only
    rw [valid_hold, List.length_reverse, Array.length_toList, k.size_decodeAll]
  | none =>
    dsimp only
    split
    case isTrue empty => exact empty.symm
    case isFalse => rfl

/-- Taking back a kind leaves the other ones alone. -/
lemma index_takeBack_of_ne (f : FlatTape) {j kind : Kind} (count : Nat) (h : j ≠ kind) :
    (f.takeBack kind count).index j = f.index j := by
  rw [index, index, takeBack]
  cases e : kind.scalar? with
  | some k =>
    cases e' : j.scalar? with
    | some k' =>
      have ne : k' ≠ k := by
        rintro rfl
        exact h ((eq_toKind e').trans (eq_toKind e).symm)
      exact congrArg List.length (valid_hold_of_ne _ _ ne)
    | none => rfl
  | none =>
    cases e' : j.scalar? with
    | some k' =>
      dsimp only
      split <;> rfl
    | none => exact absurd ((scalar?_eq_none e').trans (scalar?_eq_none e).symm) h

/-- Every kind is filled as far as it was taken back, or as it was before. -/
lemma index_takeBackEach {f : FlatTape} {marks : Marks} {kinds : List Kind} {j : Kind}
    (h : j ∈ kinds ∨ f.index j = marks.get j) :
    (f.takeBackEach marks kinds).index j = marks.get j := by
  induction kinds generalizing f with
  | nil => exact h.resolve_left List.not_mem_nil
  | cons kind rest ih =>
    apply ih
    by_cases e : j = kind
    · subst e
      exact .inr (index_takeBack f j (marks.get j))
    · refine h.imp (fun mem => (List.mem_cons.1 mem).resolve_left e) fun same => ?_
      exact (index_takeBack_of_ne f _ e).trans same

/-- A restart takes back as much as the marks say, whatever the bytes are. -/
lemma fill_restarted (level : RepeatLevel) (outer : List RepeatLevel) (marks : Marks)
    (f : FlatTape) : (f.restarted level outer marks).fill = marks := by
  have index (kind : Kind) : (f.restarted level outer marks).index kind = marks.get kind := by
    have mem : kind ∈ Kind.all.reverse := by cases kind <;> decide
    exact (index_stack _ _ kind).trans (index_takeBackEach (.inl mem))
  simp only [fill, index, Marks.get]

end FlatTape

namespace Tape

/-- Levels in step with their marks and each in its place, under buffers that are not full. A call
on the active level fails where no level is open, and only there; a restart leaves the cursor where
the level resumes, and the fill indices that it saved. -/
structure LevelsInPlace (t : Tape) : Prop where
  lockstep : t.marks.length = t.stack.levels.length
  placed : ∀ (i : Nat) (level : RepeatLevel) (marks : Marks),
    t.stack.levels[i]? = some level → t.marks[i]? = some marks →
    level.Placed t.geometry.capacity t.stack.chain.capacity (t.stack.levels.drop (i + 1)) marks
  fill : t.area.marks.Within t.geometry.capacity
  idle : t.stack.levels = [] →
    resetRepeat t = .error (.noActiveRepeat .resetRepeat) t ∧
      endRepeat t = .error (.noActiveRepeat .endRepeat) t
  active : ∀ level ∈ t.stack.levels.head?, ∃ restarted ended,
    resetRepeat t = .ok () restarted ∧ restarted.location = level.resume ∧
      t.marks.head? = some restarted.area.marks ∧ endRepeat t = .ok () ended

/-- Where no level is open, a restart and a closing call find none. -/
lemma resetRepeat_none {t : Tape} (none : t.stack.levels = []) :
    resetRepeat t = .error (.noActiveRepeat .resetRepeat) t ∧
      endRepeat t = .error (.noActiveRepeat .endRepeat) t := by
  obtain ⟨geometry, ⟨chain, current, top, levels, traffic⟩, area, marks, buffered⟩ := t
  obtain rfl : levels = [] := none
  exact ⟨rfl, rfl⟩

/-- The active level of a sound tape restarts over the fill indices that it saved. -/
lemma Sound.resetRepeat_ok {t : Tape} (sound : t.Sound) {level : RepeatLevel}
    {outer : List RepeatLevel} (levels : t.stack.levels = level :: outer) :
    ∃ t', resetRepeat t = .ok () t' ∧ t'.location = level.resume ∧
      t.marks.head? = some t'.area.marks := by
  obtain ⟨sound', e⟩ := Sound.resetRepeat_commutes t sound
  have nested : FlatTape.Nested t.geometry.capacity t.stack.levels t.marks := sound.levels.nested
  rw [levels] at nested
  cases marked : t.marks with
  | nil =>
    rw [marked] at nested
    cases nested
  | cons marks rest =>
    rw [FlatTape.resetRepeat_eq levels marked] at e
    obtain ⟨t', run, view⟩ := of_through_ok e
    rw [run] at sound'
    refine ⟨t', run, congrArg (·.stack.cursor) view, congrArg some ?_⟩
    have fill : t'.flat.fill = marks := view ▸ FlatTape.fill_restarted level outer marks t.flat
    exact fill.symm.trans sound'.blocks.fill

/-- An open level can be closed. -/
lemma Sound.endRepeat_ok {t : Tape} (sound : t.Sound) {level : RepeatLevel}
    {outer : List RepeatLevel} (levels : t.stack.levels = level :: outer) :
    ∃ t', endRepeat t = .ok () t' := by
  obtain ⟨-, e⟩ := endRepeat_commutes t sound.blocks
  obtain ⟨none, -⟩ | ⟨_, _, _, -, run, -⟩ := FlatTape.endRepeat_spec t.flat
  · cases levels.symm.trans none
  · obtain ⟨t', run', -⟩ := of_through_ok (e.trans run)
    exact ⟨t', run'⟩

end Tape

/-- The levels of a tape keep their geometry. On every reachable tape, whatever was pushed past
protection, wherever the cursor was set and whatever failed: levels and marks are in step; each
level protects what the enclosing ones protect and, behind that or behind where it resumes, the
bytes that its marks count; its redirect comes back below its `freePush`; all of it lies within the
blocks, and no buffer is full. So a restart never misses its marks, and brings back the cursor and
the fill indices. -/
theorem levels_keep_their_geometry {t : Tape} (reachable : t.Reachable) : t.LevelsInPlace := by
  have sound := reachable.sound
  have nested : FlatTape.Nested t.geometry.capacity t.stack.levels t.marks := sound.levels.nested
  refine ⟨nested.length_eq.symm, ?_, ?_, Tape.resetRepeat_none, ?_⟩
  · intro i level marks at' marked
    exact nested.placed sound.blocks.stack.levels at' marked
  · exact sound.blocks.fill ▸ sound.levels.roomy.within_fill
  · intro level mem
    cases levels : t.stack.levels with
    | nil =>
      rw [levels] at mem
      cases mem
    | cons active outer =>
      rw [levels] at mem
      obtain rfl := Option.some.inj mem
      obtain ⟨restarted, resets, resume, fill⟩ := sound.resetRepeat_ok levels
      obtain ⟨ended, ends⟩ := sound.endRepeat_ok levels
      exact ⟨restarted, ended, resets, resume, fill, ends⟩

/-- Two levels, the inner one opened behind a redirect of the outer one, after a push past
protection, a seek and a call that failed. -/
theorem levels_keep_their_geometry_after_a_bypass :
    ∃ t : Tape, t.Reachable ∧ t.depth = 2 ∧ t.LevelsInPlace := by
  have created : Tape.create ⟨2, 4⟩ none = .ok _ := rfl
  have reachable := (Tape.Reachable.create created).run [.pushBytes [1, 2, 3] true, .pushBit true,
    .push .integer4 7, .startRepeat, .popBytes 1 true, .pushBytes [9] true, .push .character 5,
    .startRepeat, .setLocation 1, .pushBytes [8, 8, 8, 8] false, .popBytes 99 true]
  obtain ⟨t, reachable, depth⟩ : ∃ t : Tape, t.Reachable ∧ t.depth = 2 :=
    ⟨_, reachable, by decide +kernel⟩
  exact ⟨t, reachable, depth, levels_keep_their_geometry reachable⟩

end AdjointTape

import AdjointTape.Proofs.TapeView

/-!
# What a repeat level protects

From the moment it is opened until it is closed, a repeat level keeps every byte below its
`freePush`. Only the active level is ever asked where a push may write, but the levels are nested,
so what the active level protects contains what the enclosing ones do; and a level that is opened
inside saves its buffers behind all of it.
-/

open AdjointTape.Action AdjointTape.FlatStack

namespace AdjointTape

namespace FlatTape

/-- A tape that has kept the levels of another one, but for the redirect of the active one, and the
bytes they protect.  It may have further levels inside. -/
structure Shelters (f f' : FlatTape) : Prop where
  levels : ∃ inner kept saved, f'.stack.levels = inner ++ kept ∧ f'.marks = saved ++ f.marks ∧
    saved.length = inner.length ∧ ActiveRedirects f.stack.levels kept
  capacity : f'.capacity = f.capacity
  bytes : ∀ l < floor f.stack.levels, f'.stack.bytes l = f.stack.bytes l

/-- Inner levels protect at least what the outer ones do. -/
lemma Nested.floor_append_le {capacity : Nat} {inner outer : List RepeatLevel} {marks : List Marks}
    (nested : Nested capacity (inner ++ outer) marks) : floor outer ≤ floor (inner ++ outer) := by
  induction inner generalizing marks with
  | nil => exact Nat.le_refl _
  | cons level inner ih =>
    have le := nested.floor_le
    obtain _ | ⟨-, -, -, nested⟩ := nested
    exact Nat.le_trans (ih nested) le

namespace Shelters

/-- A tape shelters what its own levels protect. -/
lemma refl (f : FlatTape) : Shelters f f :=
  ⟨⟨[], _, [], rfl, rfl, rfl, .refl _⟩, rfl, fun _ _ => rfl⟩

variable {f g g' : FlatTape} (shelters : Shelters f g)
include shelters

/-- What the kept levels protect is protected by the active level. -/
lemma floor_le (sound : g.Sound) : floor f.stack.levels ≤ floor g.stack.levels := by
  obtain ⟨inner, kept, -, levels, -, -, redirects⟩ := shelters.levels
  have nested := sound.nested
  rw [levels] at nested ⊢
  exact redirects.floor_eq ▸ nested.floor_append_le

/-- A guarded step keeps what is sheltered. -/
lemma guarded (sound : g.Sound) (step : Guarded g g') : Shelters f g' := by
  refine ⟨?_, step.capacity.trans shelters.capacity, fun l below => ?_⟩
  · obtain ⟨inner, kept, saved, levels, marks, length, redirects⟩ := shelters.levels
    have active := step.stack.levels
    rw [levels] at active
    obtain ⟨inner', kept', levels', length', redirects'⟩ := active.of_append
    exact ⟨inner', kept', saved, levels', step.marks.trans marks, length.trans length'.symm,
      redirects.trans redirects'⟩
  · rw [step.stack.bytes l (Nat.lt_of_lt_of_le below (shelters.floor_le sound)),
      shelters.bytes l below]

/-- Opening a further level keeps what is sheltered. -/
lemma opened (sound : g.Sound) (opened : Opened g g') : Shelters f g' := by
  refine ⟨?_, opened.capacity.trans shelters.capacity, fun l below => ?_⟩
  · obtain ⟨inner, kept, saved, levels, marks, length, redirects⟩ := shelters.levels
    refine ⟨g.newLevel :: inner, kept, g.fill :: saved, ?_, ?_, ?_, redirects⟩
    · rw [opened.levels, levels, List.cons_append]
    · rw [opened.marks, marks, List.cons_append]
    · rw [List.length_cons, List.length_cons, length]
  · have above : l < g.stack.frontier :=
      Nat.lt_of_lt_of_le below (Nat.le_trans (shelters.floor_le sound) (Nat.le_max_right _ _))
    rw [opened.bytes, ByteMap.write_below _ _ above, shelters.bytes l below]

/-- Closing a further level keeps what is sheltered. -/
lemma closed {level : RepeatLevel} {outer : List RepeatLevel}
    (open' : g.stack.levels = level :: outer) (closed : Closed outer g g')
    (still : f.stack.levels.length ≤ g'.stack.levels.length) : Shelters f g' := by
  refine ⟨?_, closed.capacity.trans shelters.capacity, fun l below => ?_⟩
  · obtain ⟨inner, kept, saved, levels, marks, length, redirects⟩ := shelters.levels
    cases inner with
    | nil =>
      -- the level that was closed would be the innermost one that has to stay open
      have more := congrArg List.length (open'.symm.trans levels)
      rw [List.length_cons, List.nil_append, redirects.length_eq] at more
      have fewer := closed.levels.length_eq
      omega
    | cons x inner =>
      obtain ⟨-, rfl⟩ := List.cons.inj (open'.symm.trans levels)
      obtain ⟨inner', kept', levels', length', redirects'⟩ := closed.levels.of_append
      cases saved with
      | nil => cases length
      | cons m saved =>
        refine ⟨inner', kept', saved, levels', ?_, ?_, redirects.trans redirects'⟩
        · rw [closed.marks, marks, List.cons_append, List.tail_cons]
        · rw [length']
          exact Nat.succ.inj length
  · rw [closed.bytes, shelters.bytes l below]

end Shelters

/-- A call that does not bypass the levels, and does not close one of those that are kept. -/
lemma Shelters.performFlat {f g : FlatTape} (shelters : Shelters f g) (sound : g.Sound) {c : Call}
    (heeds : c.bypasses = false)
    (still : f.stack.levels.length ≤ (after (c.performFlat g)).stack.levels.length) :
    Shelters f (after (c.performFlat g)) := by
  by_cases opens : c = .startRepeat
  · subst opens
    have same : after (Call.startRepeat.performFlat g) = after (startRepeat g) := after_answer _ _ g
    rw [same]
    obtain ⟨g', run, opened⟩ | ⟨_, _, g', run, step, -⟩ := startRepeat_spec g
    · rw [run]
      exact shelters.opened sound opened
    · rw [run]
      exact shelters.guarded sound step
  by_cases closes : c = .endRepeat
  · subst closes
    have same : after (Call.endRepeat.performFlat g) = after (endRepeat g) := after_answer _ _ g
    rw [same] at still ⊢
    obtain ⟨-, run⟩ | ⟨level, outer, g', levels, run, closed⟩ := endRepeat_spec g
    · rw [run]
      exact shelters
    · rw [run] at still ⊢
      exact shelters.closed levels closed still
  exact shelters.guarded sound (guarded_performFlat opens closes heeds sound)

end FlatTape

namespace Tape

/-- The byte at a location. -/
def byteAt (t : Tape) (l : Location) : UInt8 := t.stack.chain.bytes l

/-- Tapes that calls lead to from `t` while the levels of `t` stay open and no call bypasses them.
In between the memory that blocks are taken from may change in any way. -/
inductive Inside (t : Tape) : Tape → Prop where
  | start : Inside t t
  | call {u : Tape} (c : Call) (inside : Inside t u) (heeds : c.bypasses = false)
    (still : t.depth ≤ (after (c.perform u)).depth) : Inside t (after (c.perform u))
  | memory {u : Tape} (m : Memory) (inside : Inside t u) : Inside t (u.withMemory m)

/-- The depth of a sound tape is the number of its levels. -/
lemma Sound.depth_eq {t : Tape} (sound : t.Sound) : t.flat.stack.levels.length = t.depth :=
  sound.levels.nested.length_eq

/-- A run inside the levels of a tape keeps them and what they protect. -/
lemma Inside.shelters {t u : Tape} (inside : Inside t u) (sound : t.Sound) :
    u.Sound ∧ FlatTape.Shelters t.flat u.flat := by
  induction inside with
  | start => exact ⟨sound, .refl _⟩
  | @call u c _ heeds still ih =>
    obtain ⟨sound', shelters⟩ := ih
    obtain ⟨sound'', e⟩ := perform_commutes c u sound'
    have same : flat (after (c.perform u)) = after (c.performFlat u.flat) := by
      rw [← e, after_through]
    refine ⟨sound'', same ▸ shelters.performFlat sound'.levels heeds ?_⟩
    rw [← same, sound.depth_eq, sound''.depth_eq]
    exact still
  | memory m _ ih => exact ⟨ih.1.withMemory m, ih.2.levels, ih.2.capacity, ih.2.bytes⟩

end Tape

/-- A repeat level protects the bytes below its `freePush`. Whatever is done inside it without
bypassing the levels, deeper levels opened, restarted and closed and calls that fail included: as
long as the level is open it keeps its place, and every byte below its `freePush` is the one that
was there when it was opened. -/
theorem open_level_protects {t opened u : Tape} (reachable : t.Reachable)
    (opens : Tape.startRepeat t = .ok () opened) (inside : opened.Inside u) :
    ∃ level now, opened.stack.levels = level :: t.stack.levels ∧
      u.stack.levels[u.depth - opened.depth]? = some now ∧ now.freePush = level.freePush ∧
      ∀ l < level.freePush, u.byteAt l = opened.byteAt l := by
  have sound := reachable.sound
  obtain ⟨wf, e⟩ := Tape.startRepeat_commutes t sound.blocks
  rw [opens] at wf e
  obtain ⟨f, run, step⟩ | ⟨_, _, f, run, -⟩ := FlatTape.startRepeat_spec t.flat
  · rw [run] at e
    obtain ⟨-, rfl⟩ := EStateM.Result.ok.inj e
    have sound' : opened.Sound := ⟨wf, step.sound sound.levels⟩
    obtain ⟨sound'', shelters⟩ := inside.shelters sound'
    have levels : opened.stack.levels = t.flat.newLevel :: t.stack.levels := step.levels
    obtain ⟨inner, kept, -, levels', -, -, redirects⟩ := shelters.levels
    have length := redirects.length_eq
    rw [show opened.flat.stack.levels = opened.stack.levels from rfl, levels] at redirects
    obtain _ | first := redirects
    refine ⟨_, _, levels, ?_, first.freePush, fun l below => shelters.bytes l ?_⟩
    · have depth : u.depth - opened.depth = inner.length := by
        rw [← sound'.depth_eq, ← sound''.depth_eq, levels', List.length_append, length,
          Nat.add_sub_cancel]
      rw [show u.stack.levels = inner ++ _ :: t.stack.levels from levels', depth,
        List.getElem?_append_right (Nat.le_refl _), Nat.sub_self, List.getElem?_cons_zero]
    · rw [show opened.flat.stack.levels = opened.stack.levels from rfl, levels]
      exact below
  · rw [run] at e
    cases e

/-- A redirected push and a deeper level that saves a buffer behind it. -/
theorem open_level_protects_from_a_deeper_one :
    ∃ t opened : Tape, t.Reachable ∧ Tape.startRepeat t = .ok () opened ∧
      let pushed := after ((Call.push .character 7).perform
        (after ((Call.pushBytes [4, 5] true).perform opened)))
      let u := after (Call.startRepeat.perform pushed)
      opened.Inside u ∧ ∃ level now, opened.stack.levels = level :: t.stack.levels ∧
        u.stack.levels[u.depth - opened.depth]? = some now ∧ now.freePush = level.freePush ∧
        ∀ l < level.freePush, u.byteAt l = opened.byteAt l := by
  have created : Tape.create ⟨2, 2⟩ none = .ok _ := rfl
  have reachable := Tape.Reachable.call (.pushBytes [1, 2, 3] true) (.create created)
  obtain ⟨t, opened, reachable, opens, inside⟩ :
      ∃ t opened : Tape, t.Reachable ∧ Tape.startRepeat t = .ok () opened ∧
        opened.Inside (after (Call.startRepeat.perform (after ((Call.push .character 7).perform
          (after ((Call.pushBytes [4, 5] true).perform opened)))))) := by
    refine ⟨_, _, reachable, rfl, .call _ (.call _ (.call _ .start rfl ?_) rfl ?_) rfl ?_⟩
    · decide +kernel
    · decide +kernel
    · decide +kernel
  exact ⟨t, opened, reachable, opens, inside, open_level_protects reachable opens inside⟩

end AdjointTape

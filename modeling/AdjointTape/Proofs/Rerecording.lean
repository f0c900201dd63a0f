import AdjointTape.Proofs.Replay
import AdjointTape.Proofs.Series

/-!
# Closing a level over what its last replay recorded

Scalars are recorded, a level is opened, what it recorded is dropped by a restart, other scalars are
recorded in its place, and the level is closed over them.  A closed level with an open redirect
takes the cursor back to where the redirect began, and with it all that was spilled since; so the
scalars of the last replay survive as long as none of them was redirected.  The redirect is opened
by the first spill, where the level protects a buffer that was not empty.
-/

open AdjointTape.Action AdjointTape.FlatStack

namespace AdjointTape

/-- Records `a`, records `b` in a level and drops it by a restart, records `c` in its place, closes
the level, and pops as many scalars as are left. -/
def Call.rerecording (k : ScalarKind) (a b c : List k.Carrier) : List Call :=
  a.map (.push k) ++ .startRepeat :: (b.map (.push k) ++ .resetRepeat ::
    (c.map (.push k) ++ .endRepeat :: List.replicate (a.length + c.length) (.pop k)))

/-- The first ones of these calls, up to the end of the last replay. -/
def Call.replaying (k : ScalarKind) (a b c : List k.Carrier) : List Call :=
  a.map (.push k) ++ .startRepeat :: (b.map (.push k) ++ .resetRepeat :: c.map (.push k))

/-- Behind the last replay the level is closed, and the scalars are popped. -/
lemma Call.rerecording_eq (k : ScalarKind) (a b c : List k.Carrier) :
    rerecording k a b c = replaying k a b c ++
      .endRepeat :: List.replicate (a.length + c.length) (.pop k) := by
  simp only [rerecording, replaying, List.append_assoc, List.cons_append]

/-- What these calls answer when nothing is lost: the scalars of `c` from the last to the first,
then those of `a`. -/
def Call.rerecorded (k : ScalarKind) (a b c : List k.Carrier) : List Answer :=
  List.replicate (a.length + b.length + c.length + 3) .unit ++ (a ++ c).reverse.map (.scalar k)

namespace FlatTape

variable {k : ScalarKind} {a b c : List k.Carrier} {f f' g : FlatTape}

/-- A level saves the buffer of one kind only where the others are empty. -/
lemma savedBytes_only (bits : f.bits.index = 0) (others : ∀ j, j ≠ k → f.valid j = []) :
    f.fill.savedBytes = (f.valid k).length * k.width := by
  have bytes (kind : Kind) : f.fill.bytes kind =
      if kind = k.toKind then (f.valid k).length * k.width else 0 := by
    rw [Marks.bytes, get_fill, index]
    cases e : kind.scalar? with
    | some j =>
      rw [eq_toKind e]
      by_cases own : j = k
      · subst own
        rw [if_pos rfl]
      · have other : j.toKind ≠ k.toKind := fun same => own (Option.some.inj
          ((j.scalar?_toKind.symm.trans (congrArg _ same)).trans k.scalar?_toKind))
        rw [if_neg other]
        dsimp only
        rw [others j own, List.length_nil, Nat.zero_mul]
    | none =>
      have other : kind ≠ k.toKind := by
        rintro rfl
        cases e.symm.trans k.scalar?_toKind
      rw [if_neg other]
      exact if_pos bits
  rw [Marks.savedBytes, Marks.bytesOf, funext bytes]
  cases k <;> simp [Kind.all, ScalarKind.toKind]

/-- Scalars of a kind recorded on an empty tape. -/
structure Recorded (k : ScalarKind) (a : List k.Carrier) (f : FlatTape) : Prop where
  sound : f.Sound
  levels : f.stack.levels = []
  reach : f.reach k = a.length * k.width
  length : (f.valid k).length = a.length % f.capacity
  others : ∀ j, j ≠ k → f.valid j = []
  bits : f.bits = .empty
  carries : f.Carries [] (.series f.capacity .empty k (a.reverse.map (0, ·)))

/-- Pushes on a new tape record their scalars. -/
lemma recorded {geometry : Geometry} {limit : Option Nat} (sound : (empty geometry limit).Sound)
    (pushes : Pushes k a (empty geometry limit) f) : Recorded k a f := by
  have guarded := pushes.guarded
  obtain ⟨levels, reach⟩ := pushes.straight sound.roomy (Nat.zero_le _)
  have length := pushes.length sound.roomy
  have bare : (empty geometry limit).Carries [] (.series geometry.capacity .empty k []) :=
    ⟨carries_ground rfl (.ground rfl), rfl, rfl⟩
  have carries := pushes.carries sound bare (List.forall_mem_nil (· ≤ 0))
  rw [← guarded.capacity, List.append_nil] at carries
  refine ⟨guarded.sound sound, levels, ?_, ?_, pushes.others.2, pushes.others.1, carries⟩
  · have none : (empty geometry limit).reach k = 0 := (Nat.zero_add _).trans (Nat.zero_mul _)
    rw [reach, none, Nat.zero_add]
  · rw [length, guarded.capacity]
    exact congrArg (· % _) (Nat.zero_add _)

/-- A level over recorded scalars that was restarted. -/
structure Reopened (k : ScalarKind) (a : List k.Carrier) (f g : FlatTape) : Prop where
  sound : g.Sound
  capacity : g.capacity = f.capacity
  levels : g.stack.levels = [f.newLevel]
  cursor : g.stack.cursor = f.stack.cursor
  valid : g.valid = f.valid
  carries : g.Carries [1] (.series f.capacity .empty k (a.reverse.map (0, ·)))

/-- A restart drops what a level recorded and leaves the buffers as they were before it. -/
lemma Recorded.reopened (recorded : Recorded k a f) (opened : Opened f f')
    (pushes : Pushes k b f' g) : ∃ h, resetRepeat g = .ok () h ∧ Reopened k a f h := by
  have sound' := opened.sound recorded.sound
  have guarded := pushes.guarded
  have clean : f.Clean := fun _ => congrArg BitBuffer.word recorded.bits
  obtain ⟨h, run, twins⟩ := opened.restart recorded.sound clean ((Shelters.refl f').guarded sound'
    guarded) guarded.stack.levels.length_eq
  have reset := guarded_resetRepeat (guarded.sound sound')
  rw [run] at reset
  obtain ⟨stack, valid, bits, marks, capacity⟩ := twins.agrees
  have levels : h.stack.levels = [f.newLevel] := by
    rw [stack.levels, opened.levels, recorded.levels]
  have cursor : h.stack.cursor = f.stack.cursor := stack.cursor.trans opened.cursor
  refine ⟨h, run, reset.sound (guarded.sound sound'), capacity.trans opened.capacity, levels,
    cursor, valid.trans opened.valid, ⟨?_, ?_, ?_⟩⟩
  · -- the level goes over segments that lie where they were, below the cursor
    refine .coveredBy levels rfl (fun x mem => ?_) ?_ (List.pairwise_singleton _ _)
    · obtain none | ⟨pair, mem, serial⟩ := Stage.serial_series mem
      · cases none
      · obtain ⟨value, -, rfl⟩ := List.mem_map.1 mem
        exact serial ▸ Nat.one_pos
    · rw [cursor, ← recorded.levels]
      refine recorded.carries.stack.lies.congr fun l below => ?_
      have low : l < f.stack.frontier := Nat.lt_of_lt_of_le below (Nat.le_max_left _ _)
      have reached : l < f'.stack.frontier := by
        rw [← opened.cursor] at below
        exact Nat.lt_of_lt_of_le below (Nat.le_max_left _ _)
      rw [stack.bytes l reached, opened.bytes, ByteMap.write_below _ _ low]
  · rw [valid, opened.valid, recorded.carries.valid]
  · rw [bits, opened.bits, recorded.carries.bits]

/-- A level protects what was spilled before it and the part of a buffer that it saved. -/
lemma Recorded.freePush_eq (recorded : Recorded k a f) :
    f.newLevel.freePush = f.stack.cursor + a.length % f.capacity * k.width := by
  have frontier : f.stack.frontier = f.stack.cursor := by
    rw [FlatStack.frontier, recorded.levels]
    exact Nat.max_eq_left (Nat.zero_le _)
  have saved := savedBytes_only (congrArg BitBuffer.index recorded.bits) recorded.others
  rw [recorded.length] at saved
  rw [newLevel, frontier, saved]

/-- The outermost level takes the cursor along when it is closed with its redirect open. -/
lemma endRepeat_outermost {level : RepeatLevel} (levels : f.stack.levels = [level]) :
    endRepeat f = .ok ()
      { f with
        stack :=
          { f.stack with
            cursor := level.backPop.getD f.stack.cursor
            levels := [] }
        marks := f.marks.tail } := by
  rw [endRepeat, levels]
  rfl

/-- Where no redirect was opened all scalars stay when the level is closed. -/
lemma Recorded.closed (recorded : Recorded k a f) (reopened : Reopened k a f f')
    (pushes : Pushes k c f' g) (fits : a.length % f.capacity = 0 ∨
      a.length % f.capacity + c.length < f.capacity) :
    ∃ h, endRepeat g = .ok () h ∧ h.capacity = f.capacity ∧
      h.Carries []
        (.series f.capacity .empty k (c.reverse.map (1, ·) ++ a.reverse.map (0, ·))) := by
  have roomy := reopened.sound.roomy
  have levels : g.stack.levels = [f.newLevel] := by
    obtain none | few := fits
    · have above : floor f'.stack.levels ≤ f'.stack.cursor := by
        rw [reopened.levels, reopened.cursor, floor, recorded.freePush_eq, none, Nat.zero_mul]
        exact Nat.le_refl _
      exact (pushes.straight roomy above).1.trans reopened.levels
    · rw [pushes.few roomy (by rwa [reopened.valid, recorded.length, reopened.capacity]),
        reopened.levels]
  have carries := pushes.carries reopened.sound (reopened.capacity ▸ reopened.carries)
    (List.forall_mem_singleton.2 (Nat.le_refl 1))
  rw [reopened.capacity] at carries
  have lies := carries.stack.lies
  rw [levels] at lies
  cases lies with
  | opened some _ _ _ _ _ _ => cases some
  | closed _ _ _ _ lies =>
    refine ⟨_, endRepeat_outermost levels, ?_, carries_ground rfl lies, carries.valid,
      carries.bits⟩
    exact pushes.guarded.capacity.trans reopened.capacity

/-- Where a redirect was opened all that was spilled since is lost when the level is closed. -/
lemma Recorded.lost (recorded : Recorded k a f) (reopened : Reopened k a f f')
    (pushes : Pushes k c f' g) (part : a.length % f.capacity ≠ 0)
    (many : f.capacity ≤ a.length % f.capacity + c.length) :
    ∃ h, endRepeat g = .ok () h ∧ h.capacity = f.capacity ∧ h.stack.levels = [] ∧
      (∃ level, g.stack.levels = [level] ∧ level.backPop = some h.stack.cursor ∧
        h.stack.cursor < level.freePush ∧
        level.freePush + f.capacity * k.width ≤ g.stack.cursor) ∧
      h.reach k < (a.length + c.length) * k.width := by
  have roomy := reopened.sound.roomy
  have held : (f'.valid k).length = a.length % f.capacity := by
    rw [reopened.valid, recorded.length]
  have below : f'.stack.cursor < f.newLevel.freePush := by
    rw [reopened.cursor, recorded.freePush_eq]
    exact Nat.lt_add_of_pos_right (Nat.mul_pos (Nat.pos_of_ne_zero part) k.width_pos)
  obtain ⟨levels, spilled⟩ := pushes.redirects roomy reopened.levels below
    (by rwa [held, reopened.capacity])
  have capacity : g.capacity = f.capacity := pushes.guarded.capacity.trans reopened.capacity
  rw [reopened.capacity] at spilled
  refine ⟨_, endRepeat_outermost levels, capacity, rfl, ⟨_, levels, rfl, below, spilled⟩, ?_⟩
  -- the cursor is back where it was before the level, and the buffer holds less than a spill
  have rest : (g.valid k).length < a.length % f.capacity + c.length :=
    Nat.lt_of_lt_of_le (capacity ▸ (pushes.guarded.roomy roomy).valid k) many
  have fewer := Nat.mul_lt_mul_of_pos_right rest k.width_pos
  have before := recorded.reach
  rw [FlatTape.reach, recorded.length] at before
  rw [Nat.add_mul] at fewer ⊢
  rw [← before, Nat.add_assoc]
  refine Nat.lt_of_le_of_lt (Nat.le_of_eq ?_) (Nat.add_lt_add_left fewer f.stack.cursor)
  rw [FlatTape.reach, ← reopened.cursor]
  rfl

/-! ## The whole run -/

/-- A level is opened where memory does not run out. -/
lemma run_startRepeat {rest : List Call}
    (room : ranOut (outcome (Call.startRepeat.performFlat f)) = false) :
    ∃ g, Opened f g ∧ runAll Call.performFlat (.startRepeat :: rest) f =
      (.ok .unit :: (runAll Call.performFlat rest g).1, (runAll Call.performFlat rest g).2) := by
  obtain ⟨g, run, opened⟩ | ⟨blocks, blockSize, g, run, -⟩ := startRepeat_spec f
  · have first : Call.startRepeat.performFlat f = .ok .unit g := bind_ok run
    exact ⟨g, opened, runAll_cons_ok first rest⟩
  · have first : Call.startRepeat.performFlat f = .error (.outOfMemory blocks blockSize) g :=
      bind_error run
    rw [first] at room
    cases room

/-- Up to the end of the last replay all calls are done. -/
lemma run_replaying {geometry : Geometry} {limit : Option Nat}
    (sound : (empty geometry limit).Sound) (room : ∀ o ∈
      (runAll Call.performFlat (Call.replaying k a b c) (empty geometry limit)).1,
        ranOut o = false) :
    ∃ f f' g, Recorded k a f ∧ f.capacity = geometry.capacity ∧ Reopened k a f f' ∧
      Pushes k c f' g ∧
      runAll Call.performFlat (Call.replaying k a b c) (empty geometry limit) =
        (List.replicate (a.length + b.length + c.length + 2) (.ok .unit), g) := by
  rw [Call.replaying, ← List.append_nil (c.map _)] at room ⊢
  obtain ⟨f, first, runA⟩ := run_pushes room
  rw [runA] at room ⊢
  have room := fun o mem => room o (List.mem_append_right _ mem)
  have recorded := recorded sound first
  obtain ⟨f1, opened, start⟩ := run_startRepeat (room _ List.mem_cons_self)
  rw [start] at room ⊢
  obtain ⟨f2, dropped, runB⟩ := run_pushes fun o mem => room o (List.mem_cons_of_mem _ mem)
  rw [runB] at room ⊢
  obtain ⟨f3, reset, reopened⟩ := recorded.reopened opened dropped
  have again : Call.resetRepeat.performFlat f2 = .ok .unit f3 := bind_ok reset
  rw [runAll_cons_ok again] at room ⊢
  obtain ⟨f4, last, runC⟩ := run_pushes fun o mem => room o
    (List.mem_cons_of_mem _ (List.mem_append_right _ (List.mem_cons_of_mem _ mem)))
  refine ⟨f, f3, f4, recorded, first.guarded.capacity, reopened, last, ?_⟩
  have count : a.length + b.length + c.length + 2 =
      a.length + (1 + (b.length + (1 + c.length))) := by lia
  rw [runC, count]
  simp only [List.replicate_add, List.replicate_one, List.cons_append, List.nil_append]
  rw [runAll, List.append_nil]

/-- What the calls answer on flat memory, and where the level is closed. -/
lemma rerecording {geometry : Geometry} {limit : Option Nat}
    (sound : (empty geometry limit).Sound) (room : ∀ o ∈
      (runAll Call.performFlat (Call.rerecording k a b c) (empty geometry limit)).1,
        ranOut o = false) :
    let answers := (runAll Call.performFlat (Call.rerecording k a b c) (empty geometry limit)).1
    if a.length % geometry.capacity = 0 ∨
      a.length % geometry.capacity + c.length < geometry.capacity
    then answers = (Call.rerecorded k a b c).map .ok
    else
      let replayed := (runAll Call.performFlat (Call.replaying k a b c) (empty geometry limit)).2
      let closed := after (Call.endRepeat.performFlat replayed)
      let popped :=
        (runAll Call.performFlat (List.replicate (a.length + c.length) (.pop k)) closed).1
      answers = List.replicate (a.length + b.length + c.length + 3) (.ok .unit) ++ popped ∧
      (∃ level, replayed.stack.levels = [level] ∧ level.backPop = some closed.stack.cursor ∧
        closed.stack.cursor < level.freePush ∧
        level.freePush + geometry.capacity * k.width ≤ replayed.stack.cursor) ∧
      closed.stack.levels = [] ∧
      ∃ requested available, .error (.popUnderflow requested available) ∈ popped := by
  intro answers
  rw [Call.rerecording_eq, runAll_append] at room
  obtain ⟨f, f', g, recorded, capacity, reopened, pushes, run⟩ :=
    run_replaying sound fun o mem => room o (List.mem_append_left _ mem)
  have positive : 0 < f.capacity := Nat.zero_lt_of_lt (recorded.sound.roomy.valid k)
  -- what the pops answer behind the level once it is closed
  have whole {h : FlatTape} (ends : endRepeat g = .ok () h) :
      answers = List.replicate (a.length + b.length + c.length + 3) (.ok .unit) ++
        (runAll Call.performFlat (List.replicate (a.length + c.length) (.pop k)) h).1 := by
    have close : Call.endRepeat.performFlat g = .ok .unit h := bind_ok ends
    rw [List.replicate_succ', List.append_assoc]
    change (runAll Call.performFlat (Call.rerecording k a b c) (empty geometry limit)).1 = _
    rw [Call.rerecording_eq, runAll_append, run, runAll_cons_ok close]
    rfl
  rw [← capacity, run]
  split
  case isTrue fits =>
    obtain ⟨h, ends, same, carries⟩ := recorded.closed reopened pushes fits
    have popped := run_pops (Stage.tidy_empty (same ▸ positive)) (same ▸ carries)
    simp only [List.length_append, List.length_map, List.length_reverse] at popped
    rw [whole ends, Nat.add_comm a.length c.length, popped, Call.rerecorded]
    simp only [List.map_append, List.map_map, List.map_replicate, List.reverse_append]
    rfl
  case isFalse misfits =>
    obtain ⟨part, many⟩ := not_or.1 misfits
    obtain ⟨h, ends, same, levels, bent, short⟩ :=
      recorded.lost reopened pushes part (Nat.le_of_not_lt many)
    have close : Call.endRepeat.performFlat g = .ok .unit h := bind_ok ends
    dsimp only
    rw [after_ok close]
    exact ⟨whole ends, bent, levels, pops_short levels (same ▸ positive) short⟩

end FlatTape

/-- Closing a level keeps what its last replay recorded unless a redirect is open. On a new tape of
any geometry, for scalars of any kind, recorded before a level, in it, and in its place after a
restart: when the level is closed all that was recorded before and after is popped again, in the
opposite order, if the level protects no part of a buffer or the last replay does not fill that
buffer. Otherwise every call but the pops succeeds all the same, but the last replay spilled above
what the level protects; closing the level takes the cursor back to where the redirect began, below
all that was spilled, and one of the pops finds too few bytes. This is asked only where memory does
not run out. -/
theorem replay_survives_closing {geometry : Geometry} {limit : Option Nat} {t : Tape}
    (created : Tape.create geometry limit = .ok t) (k : ScalarKind) (a b c : List k.Carrier)
    (room : ∀ o ∈ (Call.performAll (Call.rerecording k a b c) t).1, ranOut o = false) :
    let answers := (Call.performAll (Call.rerecording k a b c) t).1
    if a.length % geometry.capacity = 0 ∨
      a.length % geometry.capacity + c.length < geometry.capacity
    then answers = (Call.rerecorded k a b c).map .ok
    else
      let replayed := (Call.performAll (Call.replaying k a b c) t).2
      let closed := after (Call.endRepeat.perform replayed)
      let popped := (Call.performAll (List.replicate (a.length + c.length) (.pop k)) closed).1
      answers = List.replicate (a.length + b.length + c.length + 3) (.ok .unit) ++ popped ∧
      (∃ level, replayed.stack.levels = [level] ∧ level.backPop = some closed.location ∧
        closed.location < level.freePush ∧
        level.freePush + geometry.capacity * k.width ≤ replayed.location) ∧
      closed.stack.levels = [] ∧
      ∃ requested available, .error (.popUnderflow requested available) ∈ popped := by
  obtain ⟨sound, view⟩ := Tape.create_spec created
  obtain ⟨-, answers, -⟩ := Commutes.all Tape.perform_commutes (Call.rerecording k a b c) sound
  obtain ⟨sound', -, replayed⟩ :=
    Commutes.all Tape.perform_commutes (Call.replaying k a b c) sound
  simp only [Tape.performAll_eq] at room ⊢
  generalize (runAll Call.perform (Call.replaying k a b c) t).2 = t' at sound' replayed ⊢
  obtain ⟨sound'', closed⟩ := Tape.perform_commutes .endRepeat t' sound'
  obtain ⟨-, popped, -⟩ := Commutes.all Tape.perform_commutes
    (List.replicate (a.length + c.length) (.pop k)) sound''
  rw [answers, view] at room ⊢
  have flat := FlatTape.rerecording (view ▸ sound.levels) room
  dsimp only at flat ⊢
  rw [← view, ← replayed, ← closed, after_through, ← popped, view] at flat
  exact flat

/-- Two scalars fill the buffer before the level and three are recorded in it for the last replay:
it spills twice, and since the level protects no part of a buffer none of them is lost.  Where one
scalar is in the buffer before the level, the one recorded in it fills the buffer, and closing the
level goes back over both of them. -/
theorem replay_survives_closing_after_a_spill :
    ∃ t, Tape.create ⟨4, 2⟩ none = .ok t ∧
      (∀ o ∈ (Call.performAll (Call.rerecording .integer4 [1, 2] [7] [3, 4, 5]) t).1,
        ranOut o = false) ∧
      (2 % 2 = 0 ∨ 2 % 2 + 3 < 2) ∧
      (Call.performAll (Call.rerecording .integer4 [1, 2] [7] [3, 4, 5]) t).1 =
        (Call.rerecorded .integer4 [1, 2] [7] [3, 4, 5]).map .ok ∧
      (∀ o ∈ (Call.performAll (Call.rerecording .integer4 [1] [] [2]) t).1, ranOut o = false) ∧
      ¬ (1 % 2 = 0 ∨ 1 % 2 + 1 < 2) ∧
      let replayed := (Call.performAll (Call.replaying .integer4 [1] [] [2]) t).2
      let closed := after (Call.endRepeat.perform replayed)
      let popped := (Call.performAll (List.replicate 2 (.pop .integer4)) closed).1
      (Call.performAll (Call.rerecording .integer4 [1] [] [2]) t).1 =
        List.replicate 5 (.ok .unit) ++ popped ∧
      (∃ level, replayed.stack.levels = [level] ∧ level.backPop = some closed.location ∧
        closed.location < level.freePush ∧ level.freePush + 2 * 4 ≤ replayed.location) ∧
      closed.stack.levels = [] ∧
      ∃ requested available, .error (.popUnderflow requested available) ∈ popped := by
  have created : Tape.create ⟨4, 2⟩ none = .ok _ := rfl
  refine ⟨_, created, by decide +kernel, by decide, ?kept, by decide +kernel, by decide, ?lost⟩
  case kept =>
    have kept := replay_survives_closing created .integer4 [1, 2] [7] [3, 4, 5] (by decide +kernel)
    exact (if_pos (by decide)).mp kept
  case lost =>
    have lost := replay_survives_closing created .integer4 [1] [] [2] (by decide +kernel)
    exact (if_neg (by decide)).mp lost

/-- Where the level protects a part of a buffer and the last replay fills that buffer, the scalars
of the replay are lost: the one scalar recorded before the level is spilled past it together with
the one recorded in it, and after closing both pops find too few bytes. -/
theorem replay_may_be_lost_by_closing :
    ¬ ∀ (geometry : Geometry) (limit : Option Nat) (t : Tape),
      Tape.create geometry limit = .ok t → ∀ a b c : List Int32,
        (∀ o ∈ (Call.performAll (Call.rerecording .integer4 a b c) t).1, ranOut o = false) →
        (Call.performAll (Call.rerecording .integer4 a b c) t).1 =
          (Call.rerecorded .integer4 a b c).map .ok := by
  intro law
  have created : Tape.create ⟨4, 2⟩ none = .ok _ := rfl
  have answers := law _ _ _ created [1] [] [2] (by decide +kernel)
  let failed : Except Failure Answer → Bool
    | .ok _ => false
    | .error _ => true
  exact absurd (congrArg (List.map failed) answers) (by decide +kernel)

end AdjointTape

import AdjointTape.Proofs.Checkpoints
import AdjointTape.Proofs.Traffic

/-!
# Opening and closing levels

A level that is opened and closed again, at any depth and restarted any number of times, leaves
nothing behind but bytes beyond the frontier.  The cursor comes back to where the outermost of the
levels was opened, and there the enclosing level looks whether it stands on its `freePush`: then a
redirect that was open ends, as it would after a pop.
-/

open AdjointTape.Action AdjointTape.FlatStack

namespace AdjointTape

/-- `n` levels opened one inside the other, the innermost restarted `m` times, and all closed. -/
def Call.nest (n m : Nat) : List Call :=
  List.replicate n .startRepeat ++ List.replicate m .resetRepeat ++ List.replicate n .endRepeat

/-- The outermost level is around all others. -/
lemma Call.nest_succ (n m : Nat) :
    Call.nest (n + 1) m = .startRepeat :: (Call.nest n m ++ [.endRepeat]) := by
  rw [nest, nest, List.replicate_succ, List.replicate_succ' (a := Call.endRepeat)]
  simp only [List.cons_append, List.append_assoc]

/-- Whether a call that has nothing to answer was done. -/
def Call.isDone : Except Failure Answer → Bool
  | .ok .unit => true
  | _ => false

/-- A call is done when it answers that it is. -/
lemma Call.isDone_iff {o : Except Failure Answer} : isDone o = true ↔ o = .ok .unit := by
  rcases o with e | (_ | _ | _ | _ | _ | _) <;> simp [isDone]

/-- All calls were done. -/
def Call.Done (answers : List (Except Failure Answer)) : Prop := ∀ o ∈ answers, o = .ok .unit

instance (answers : List (Except Failure Answer)) : Decidable (Call.Done answers) :=
  decidable_of_iff (∀ o ∈ answers, Call.isDone o = true) (by simp only [Call.Done, Call.isDone_iff])

namespace FlatTape

/-- A tape from which nothing is gone: the same buffers, but for the word of the bits, and the same
bytes up to the frontier. The stack may have made a jump back. -/
structure Neutral (bits : BitBuffer) (f f' : FlatTape) : Prop where
  cursor : f'.stack.cursor = f.stack.rejoined.cursor
  levels : f'.stack.levels = f.stack.rejoined.levels
  bytes : ∀ l < f.stack.frontier, f'.stack.bytes l = f.stack.bytes l
  valid : f'.valid = f.valid
  bits : f'.bits = bits
  marks : f'.marks = f.marks
  capacity : f'.capacity = f.capacity
  quiet : Quiet f f'

/-- A clean tape has nothing to be cleaned of. -/
lemma bits_cleaned {f : FlatTape} (clean : f.Clean) : f.cleaned.bits = f.bits := by
  by_cases empty : f.bits.index = 0
  · rw [cleaned, if_pos empty]
    show BitBuffer.empty = ⟨f.bits.word, f.bits.index⟩
    rw [clean empty, empty]
    rfl
  · rw [cleaned, if_neg empty]

/-! ## One level -/

section Opened

variable {f f' g : FlatTape} {bits : BitBuffer} (opened : Opened f f')
include opened

/-- A level that was just opened has no redirect. -/
lemma Opened.rejoined : f'.stack.rejoined = f'.stack := by
  refine rejoined_of_straight fun level mem => ?_
  rw [opened.levels] at mem
  exact Option.some.inj mem ▸ rfl

/-- What a level saves lies below the frontier of the tape it is opened on. -/
lemma Opened.frontier_le : f.stack.frontier + f.fill.savedBytes ≤ f'.stack.frontier := by
  have top : f'.stack.frontier = max f.stack.cursor f.newLevel.freePush := by
    rw [FlatStack.frontier, opened.cursor, opened.levels]
    rfl
  rw [top]
  exact Nat.le_max_right _ _

/-- From a tape with a level just opened nothing is gone. -/
lemma Opened.neutral : Neutral f.bits f' f' := by
  refine ⟨?_, ?_, fun _ _ => rfl, rfl, opened.bits, rfl, rfl, .refl f'⟩
  · rw [opened.rejoined]
  · rw [opened.rejoined]

/-- A restart of the level brings its buffers back, and a zero word where no bit is buffered. -/
lemma Opened.resetRepeat (neutral : Neutral bits f' g) :
    ∃ g', resetRepeat g = .ok () g' ∧ Neutral f.cleaned.bits f' g' := by
  have levels : g.stack.levels = f.newLevel :: f.stack.levels := by
    rw [neutral.levels, opened.rejoined, opened.levels]
  have marks : g.marks = f.cleaned.fill :: f.marks := by
    rw [neutral.marks, opened.marks, f.fill_cleaned]
  have saved : g.stack.bytes.read (f.newLevel.freePush - f.cleaned.fill.savedBytes)
      f.cleaned.fill.savedBytes = f.cleaned.saved := by
    have place : f.newLevel.freePush - f.fill.savedBytes = f.stack.frontier :=
      Nat.add_sub_cancel _ _
    rw [f.fill_cleaned, f.saved_cleaned, place]
    have kept : g.stack.bytes.read f.stack.frontier f.fill.savedBytes =
        f'.stack.bytes.read f.stack.frontier f.fill.savedBytes :=
      ByteMap.read_congr fun l _ below =>
        neutral.bytes l (Nat.lt_of_lt_of_le below opened.frontier_le)
    rw [kept, opened.bytes, ← f.length_saved]
    exact ByteMap.read_write _ _ _
  have enough : f.cleaned.fill.savedBytes ≤ f.newLevel.freePush := by
    rw [f.fill_cleaned]
    exact Nat.le_add_left _ _
  have restarted := restarted_spec f.stack.levels f.clean_cleaned enough saved
  have quiet := quiet_resetRepeat g
  rw [resetRepeat_eq levels marks] at quiet ⊢
  refine ⟨_, rfl, ?_, ?_, ?_, ?_, restarted.bits, ?_, ?_, neutral.quiet.trans quiet⟩
  · rw [restarted.stack, opened.rejoined, opened.cursor]
    rfl
  · rw [restarted.stack, opened.rejoined, opened.levels]
    rfl
  · rw [restarted.stack]
    exact neutral.bytes
  · rw [restarted.valid, opened.valid]
    rfl
  · rw [restarted.marks, neutral.marks]
  · rw [restarted.capacity, neutral.capacity]

/-- Closing the level makes the jump back that the enclosing one asks for. -/
lemma Opened.endRepeat (quiet : Quiet f f') (neutral : Neutral bits f' g) :
    ∃ g', endRepeat g = .ok () g' ∧ Neutral bits f g' := by
  have levels : g.stack.levels = f.newLevel :: f.stack.levels := by
    rw [neutral.levels, opened.rejoined, opened.levels]
  have cursor : g.stack.cursor = f.stack.cursor := by
    rw [neutral.cursor, opened.rejoined, opened.cursor]
  obtain ⟨none, -⟩ | ⟨level, outer, g', levels', run, closed⟩ := endRepeat_spec g
  · rw [levels] at none
    cases none
  have still := quiet_endRepeat g
  rw [run] at still
  have stack : g'.stack = g.stack.ended f.newLevel f.stack.levels := by
    have ends : FlatTape.endRepeat g = .ok ()
        { g with stack := g.stack.ended f.newLevel f.stack.levels, marks := g.marks.tail } := by
      simp only [FlatTape.endRepeat, levels]
    rw [ends] at run
    exact ((EStateM.Result.ok.inj run).2 ▸ rfl)
  obtain ⟨home, outward⟩ := rejoined_congr (s := f.stack)
    (t := { g.stack with cursor := g.stack.cursor, levels := f.stack.levels }) cursor rfl
  refine ⟨g', run, stack ▸ home, stack ▸ outward, fun l below => ?_, ?_, ?_, ?_, ?_,
    quiet.trans (neutral.quiet.trans still)⟩
  · have inside : l < f'.stack.frontier :=
      Nat.lt_of_lt_of_le below (Nat.le_trans (Nat.le_add_right _ _) opened.frontier_le)
    rw [closed.bytes, neutral.bytes l inside, opened.bytes, ByteMap.write_below _ _ below]
  · rw [closed.valid, neutral.valid, opened.valid]
  · rw [closed.bits, neutral.bits]
  · rw [closed.marks, neutral.marks, opened.marks, List.tail_cons]
  · rw [closed.capacity, neutral.capacity, opened.capacity]

/-- Any number of restarts of the level. -/
lemma Opened.run_resets (neutral : Neutral bits f' g) (m : Nat) :
    let run := runAll Call.performFlat (List.replicate m .resetRepeat) g
    Call.Done run.1 ∧ Neutral (if m = 0 then bits else f.cleaned.bits) f' run.2 := by
  induction m generalizing g bits with
  | zero => exact ⟨nofun, neutral⟩
  | succ m ih =>
    obtain ⟨g', run, neutral'⟩ := opened.resetRepeat neutral
    have first : Call.resetRepeat.performFlat g = .ok .unit g' := bind_ok run
    obtain ⟨done, last⟩ := ih neutral'
    rw [ite_self] at last
    rw [List.replicate_succ, runAll_cons_ok first, if_neg (Nat.succ_ne_zero m)]
    exact ⟨List.forall_mem_cons.2 ⟨rfl, done⟩, last⟩

end Opened

/-! ## Levels inside each other -/

/-- A level that could be opened, neutral calls in it, and the call that closes it. -/
lemma Neutral.around {f f' : FlatTape} {bits : BitBuffer} {calls : List Call}
    (start : startRepeat f = .ok () f') (opened : Opened f f')
    (done : Call.Done (runAll Call.performFlat calls f').1)
    (neutral : Neutral bits f' (runAll Call.performFlat calls f').2) :
    let run := runAll Call.performFlat (.startRepeat :: (calls ++ [.endRepeat])) f
    Call.Done run.1 ∧ Neutral bits f run.2 := by
  have quiet := quiet_startRepeat f
  rw [start] at quiet
  obtain ⟨g, run, closed⟩ := opened.endRepeat quiet neutral
  have first : Call.startRepeat.performFlat f = .ok .unit f' := bind_ok start
  have last : Call.endRepeat.performFlat (runAll Call.performFlat calls f').2 = .ok .unit g :=
    bind_ok run
  rw [runAll_cons_ok first, runAll_append, runAll_cons_ok last]
  refine ⟨List.forall_mem_cons.2 ⟨rfl, List.forall_mem_append.2 ⟨done, ?_⟩⟩, closed⟩
  exact List.forall_mem_singleton.2 rfl

/-- A start that was done opened a level. -/
lemma start_of_done {f : FlatTape} {n : Nat}
    (starts : Call.Done (runAll Call.performFlat (List.replicate (n + 1) .startRepeat) f).1) :
    ∃ f', startRepeat f = .ok () f' ∧ Opened f f' ∧
      Call.Done (runAll Call.performFlat (List.replicate n .startRepeat) f').1 := by
  obtain ⟨f', run, opened⟩ | ⟨blocks, blockSize, f', run, -⟩ := startRepeat_spec f
  · have first : Call.startRepeat.performFlat f = .ok .unit f' := bind_ok run
    rw [List.replicate_succ, runAll_cons_ok first] at starts
    exact ⟨f', run, opened, (List.forall_mem_cons.1 starts).2⟩
  · have first : Call.startRepeat.performFlat f = .error (.outOfMemory blocks blockSize) f' :=
      bind_error run
    rw [List.replicate_succ, runAll_cons, first] at starts
    cases (List.forall_mem_cons.1 starts).1

/-- The induction is on the levels inside the one that was just opened. -/
lemma Opened.run_nest {f f' : FlatTape} (opened : Opened f f') (n m : Nat)
    (starts : Call.Done (runAll Call.performFlat (List.replicate n .startRepeat) f').1) :
    let run := runAll Call.performFlat (Call.nest n m) f'
    Call.Done run.1 ∧ Neutral (if m = 0 then f.bits else f.cleaned.bits) f' run.2 := by
  induction n generalizing f f' with
  | zero =>
    have inner : Call.nest 0 m = List.replicate m .resetRepeat := List.append_nil _
    rw [inner]
    exact opened.run_resets opened.neutral m
  | succ n ih =>
    obtain ⟨f'', run, opened', starts'⟩ := start_of_done starts
    obtain ⟨done, neutral⟩ := ih opened' starts'
    have cleaned : f'.cleaned.bits = f.cleaned.bits := by rw [cleaned, cleaned, opened.bits]
    rw [opened.bits, cleaned] at neutral
    rw [Call.nest_succ]
    exact Neutral.around run opened' done neutral

/-- Levels that could be opened can be restarted and closed, and are neutral together. -/
lemma run_nest {f : FlatTape} {n : Nat} (some : 0 < n) (m : Nat)
    (starts : Call.Done (runAll Call.performFlat (List.replicate n .startRepeat) f).1) :
    let run := runAll Call.performFlat (Call.nest n m) f
    Call.Done run.1 ∧ Neutral (if m = 0 then f.bits else f.cleaned.bits) f run.2 := by
  obtain ⟨n, rfl⟩ := Nat.exists_eq_add_one.2 some
  obtain ⟨f', run, opened, starts'⟩ := start_of_done starts
  obtain ⟨done, neutral⟩ := opened.run_nest n m starts'
  rw [Call.nest_succ]
  exact Neutral.around run opened done neutral

end FlatTape

namespace Tape

/-- The tape `u` is `t` with nothing gone: the same buffers, marks and traffic, the same bytes up to
the cursor or the `freePush` of the active level, whichever lies higher, and the same cursor and
levels, unless the cursor stands on the `freePush` of the active level and a redirect is open; then
that redirect has ended, and the cursor is where it came from. -/
structure Neutral (t u : Tape) : Prop where
  fill : u.area.marks = t.area.marks
  valid : ∀ k, (u.area.get k).valid = (t.area.get k).valid
  bits : u.area.bits.valid = t.area.bits.valid
  marks : u.marks = t.marks
  traffic : u.totalTraffic = t.totalTraffic
  bytes : ∀ l < max t.location (floor t.stack.levels), u.byteAt l = t.byteAt l
  stays : (∀ level ∈ t.stack.levels.head?, level.backPop ≠ none → t.location ≠ level.freePush) →
    u.location = t.location ∧ u.stack.levels = t.stack.levels
  rejoins : ∀ (level : RepeatLevel) (outer : List RepeatLevel) (l : Location),
    t.stack.levels = level :: outer → level.backPop = some l → t.location = level.freePush →
    u.location = l ∧ u.stack.levels = { level with backPop := none } :: outer

/-- Nothing is gone from a tape when nothing is gone from its flat view. -/
lemma neutral_of_flat {t u : Tape} (sound : t.Sound) (sound' : u.Sound) {bits : BitBuffer}
    (same : bits.index = t.area.bits.index ∧ bits.valid = t.area.bits.valid)
    (neutral : FlatTape.Neutral bits t.flat u.flat) : t.Neutral u := by
  have index (kind : Kind) : u.flat.index kind = t.flat.index kind := by
    rw [FlatTape.index, FlatTape.index, neutral.valid, neutral.bits, same.1]
    rfl
  have fill : u.flat.fill = t.flat.fill := by simp only [FlatTape.fill, index]
  rw [sound.blocks.fill, sound'.blocks.fill] at fill
  have bits' : u.area.bits = bits := neutral.bits
  refine ⟨fill, fun k => ?_, ?_, neutral.marks, ?_, neutral.bytes, fun off => ?_, ?_⟩
  · exact List.reverse_injective (congrFun neutral.valid k)
  · rw [bits', same.2]
  · have traffic : u.stack.traffic = t.stack.traffic := neutral.quiet.traffic
    have buffered : u.buffered = t.buffered := neutral.quiet.buffered
    rw [totalTraffic, totalTraffic, traffic, buffered]
  · have still : t.flat.stack.rejoined = t.flat.stack := rejoined_of_ne off
    exact ⟨neutral.cursor.trans (by rw [still]; rfl), neutral.levels.trans (by rw [still]; rfl)⟩
  · intro level outer l levels backPop on
    have jump := rejoined_of_eq (s := t.flat.stack) levels backPop on
    exact ⟨neutral.cursor.trans (by rw [jump]), neutral.levels.trans (by rw [jump])⟩

end Tape

/-- Opening and closing levels is neutral at any depth. From every reachable tape, levels that can
be opened one inside the other can also be closed again, the innermost restarted any number of times
before, and leave the tape as it was within reach: buffers, marks, traffic, and the cursor and the
levels too, where no redirect ends with the cursor on its `freePush`. Where a level is restarted and
no bit is buffered, the word that is left over in the bit buffer may change to zero; else the bit
buffer is the same altogether. -/
theorem nested_levels_are_neutral {t : Tape} (reachable : t.Reachable) {n : Nat} (some : 0 < n)
    (starts : Call.Done (Call.performAll (List.replicate n .startRepeat) t).1) (m : Nat) :
    let run := Call.performAll (Call.nest n m) t
    Call.Done run.1 ∧ t.Neutral run.2 ∧
      (m = 0 ∨ (t.area.bits.index = 0 → t.area.bits.word = 0) →
        run.2.area.bits = t.area.bits) := by
  have sound := reachable.sound
  rw [Tape.performAll_eq] at starts ⊢
  obtain ⟨-, opens, -⟩ :=
    Commutes.all Tape.perform_commutes (List.replicate n .startRepeat) sound
  obtain ⟨sound', answers, view⟩ := Commutes.all Tape.perform_commutes (Call.nest n m) sound
  rw [opens] at starts
  obtain ⟨done, neutral⟩ := FlatTape.run_nest some m starts
  rw [← view] at neutral
  refine ⟨answers ▸ done, Tape.neutral_of_flat sound sound' ?_ neutral, fun clean => ?_⟩
  · split
    case isTrue => exact ⟨rfl, rfl⟩
    case isFalse => exact ⟨t.flat.index_cleaned, t.flat.valid_cleaned⟩
  · refine neutral.bits.trans ?_
    split
    case isTrue => rfl
    case isFalse restarts => exact FlatTape.bits_cleaned (clean.resolve_left restarts)

/-- Two levels and two restarts where a redirect is open and the cursor stands on its `freePush`. -/
theorem nested_levels_are_neutral_on_a_redirect :
    ∃ t : Tape, t.Reachable ∧ t.stack.levels = [⟨3, 3, some 2⟩] ∧ t.location = 3 ∧ 0 < 2 ∧
      Call.Done (Call.performAll (List.replicate 2 .startRepeat) t).1 ∧
      let run := Call.performAll (Call.nest 2 2) t
      Call.Done run.1 ∧ t.Neutral run.2 ∧
        (2 = 0 ∨ (t.area.bits.index = 0 → t.area.bits.word = 0) →
          run.2.area.bits = t.area.bits) := by
  have created : Tape.create ⟨2, 2⟩ none = .ok _ := rfl
  have reachable := (Tape.Reachable.create created).run [.pushBytes [1, 2, 3] true, .startRepeat,
    .popBytes 1 true, .pushBytes [] true, .push .character 5, .pushBit true]
  obtain ⟨t, reachable, levels, on, starts⟩ : ∃ t : Tape, t.Reachable ∧
      t.stack.levels = [⟨3, 3, some 2⟩] ∧ t.location = 3 ∧
        Call.Done (Call.performAll (List.replicate 2 .startRepeat) t).1 :=
    ⟨_, reachable, by decide +kernel, by decide +kernel, by decide +kernel⟩
  exact ⟨t, reachable, levels, on, Nat.two_pos, starts,
    nested_levels_are_neutral reachable Nat.two_pos starts 2⟩

end AdjointTape

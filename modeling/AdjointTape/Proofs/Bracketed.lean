import AdjointTape.Proofs.Matching
import AdjointTape.Proofs.Replay

/-!
# Bracketed calls leave no trace

Pushes that are undone by pops in the opposite order bring a tape back to where it was, whatever is
on it and however full its buffers are.  Only the active level counts: no push or pop moves the
redirect of another one.  If its redirect is open and the cursor is on its `freePush`, the tape is
about to jump back and does so with the first pop; anywhere else the bytes below the cursor are one
segment, or two where a redirect is open, and a tape that carries the same segments has the same
cursor and the same redirect.
-/

open AdjointTape.Action AdjointTape.FlatStack

namespace AdjointTape

/-- Pushes, and the pops that ask for what they pushed, in the opposite order; and what is to be
answered. -/
inductive Bracketed : List Call → List Answer → Prop where
  | nil : Bracketed [] []
  | nest {item : Item} {inner rest : List Call} {answers answers' : List Answer} (fits : item.Fits)
    (inside : Bracketed inner answers) (behind : Bracketed rest answers') :
    Bracketed (item.pushCall :: (inner ++ item.popCall :: rest))
      (.unit :: (answers ++ item.answer :: answers'))

namespace FlatTape

/-- Bracketed calls answer what was pushed, and leave a tape that carries the stage it carried. -/
lemma run_bracketed {calls : List Call} {answers : List Answer} (word : Bracketed calls answers)
    {f : FlatTape} {base : Stage} {sinces : List Nat} {serial capacity : Nat}
    {atoms : List (Nat × Atom)} (sound : f.Sound) (same : f.capacity = capacity)
    (tidy : base.Tidy capacity) (carries : f.Carries sinces (.of capacity base atoms))
    (recent : ∀ since ∈ sinces, since ≤ serial)
    (room : ∀ o ∈ (runAll Call.performFlat calls f).1, ranOut o = false) :
    (runAll Call.performFlat calls f).1 = answers.map .ok ∧
      Guarded f (runAll Call.performFlat calls f).2 ∧
      (runAll Call.performFlat calls f).2.Carries sinces (.of capacity base atoms) := by
  induction word generalizing f atoms with
  | nil => exact ⟨rfl, .refl f, carries⟩
  | @nest item inner rest answers answers' fits inside behind ihInside ihBehind =>
    subst same
    have roomPush := room _ List.mem_cons_self
    obtain ⟨f1, push, carries1⟩ := carries_pushItem carries sound recent fits roomPush
    have step1 : Guarded f f1 := after_ok push ▸ guarded_pushItem item sound
    rw [runAll_cons_ok push, runAll_append] at room ⊢
    obtain ⟨first, step2, carries2⟩ := ihInside (step1.sound sound) step1.capacity carries1
      fun o mem => room o (List.mem_cons_of_mem _ (List.mem_append_left _ mem))
    generalize (runAll Call.performFlat inner f1).2 = f2 at room step2 carries2 ⊢
    -- the pop of the item finds it on top
    have guarded2 := step1.trans step2
    obtain ⟨f3, pop, carries3⟩ := carries_popItem (guarded2.capacity ▸ tidy) fits
      (guarded2.capacity ▸ carries2)
      (due_of_recent fun since mem => recent since (List.mem_of_mem_tail mem))
    have step3 : Guarded f2 f3 := after_ok pop ▸ guarded_popItem item (guarded2.sound sound)
    rw [runAll_cons_ok pop] at room ⊢
    have guarded3 := guarded2.trans step3
    obtain ⟨last, step4, carries4⟩ := ihBehind (guarded3.sound sound) guarded3.capacity
      (guarded2.capacity ▸ carries3) fun o mem =>
        room o (List.mem_cons_of_mem _ (List.mem_append_right _ (List.mem_cons_of_mem _ mem)))
    refine ⟨?_, guarded3.trans step4, carries4⟩
    rw [first, last, List.map_cons, List.map_append, List.map_cons]

end FlatTape

/-! ## The segments of any stack -/

namespace FlatStack

/-- Segments that a stack carries under its active level, and that no guarded run brings back but to
the same cursor, levels and bytes. -/
structure Determined (s : FlatStack) (times : List Nat) (segments : List ByteSegment) : Prop where
  carries : s.Carries times segments
  recent : ∀ since ∈ times, since ≤ 1
  back : ∀ {s' : FlatStack}, Guarded s s' → s'.Carries times segments → s.Agrees s'

/-- Equal readings from one place have equal lengths and equal bytes. -/
lemma read_inj {m m' : ByteMap} {start count count' : Nat}
    (same : m'.read start count' = m.read start count) :
    count' = count ∧ ∀ l, start ≤ l → l < start + count → m' l = m l := by
  have length := congrArg List.length same
  rw [ByteMap.length_read, ByteMap.length_read] at length
  subst length
  exact ⟨rfl, fun l => ByteMap.of_read_eq same⟩

variable {s s' : FlatStack} {level : RepeatLevel} {outer : List RepeatLevel}

/-- A guarded run that comes back to the levels, and to what lies between `start` and the cursor, a
place that protection reaches up to. -/
lemma Guarded.agrees (guarded : Guarded s s') (levels : s'.levels = s.levels) {start : Location}
    (reaches : start ≤ floor s.levels) (above : start ≤ s.cursor) (above' : start ≤ s'.cursor)
    (same : s'.bytes.read start (s'.cursor - start) = s.bytes.read start (s.cursor - start)) :
    s.Agrees s' := by
  obtain ⟨length, same⟩ := read_inj same
  refine ⟨by lia, levels, fun l below => ?_⟩
  by_cases low : l < floor s.levels
  · exact guarded.bytes l low
  · have high := (lt_max_iff.1 below).resolve_right low
    exact same l (by lia) (by lia)

/-- With no level open the bytes below the cursor are one segment. -/
lemma determined_ground (levels : s.levels = []) :
    s.Determined [] [⟨0, s.bytes.read 0 s.cursor⟩] := by
  refine ⟨carries_ground levels (.ground (List.nil_append _).symm), nofun, ?_⟩
  intro s' guarded carries
  have none : s'.levels = [] := carries.timed rfl
  exact guarded.agrees (none.trans levels.symm) (Nat.zero_le _) (Nat.zero_le _) (Nat.zero_le _)
      carries.lies.spelt

/-- So they are under a level whose redirect is not open. -/
lemma determined_straight (levels : s.levels = level :: outer) (straight : level.backPop = none) :
    s.Determined [1] [⟨0, s.bytes.read 0 s.cursor⟩] := by
  have old : ∀ x ∈ [(⟨0, s.bytes.read 0 s.cursor⟩ : ByteSegment)], x.serial < 1 := fun x mem => by
    rw [List.mem_singleton.1 mem]
    exact Nat.one_pos
  refine ⟨.coveredBy levels straight old (.ground (List.nil_append _).symm)
    (List.pairwise_singleton _ _), fun since mem => Nat.le_of_eq (List.mem_singleton.1 mem), ?_⟩
  intro s' guarded carries
  have redirects := guarded.levels
  rw [levels] at redirects
  generalize levels' : s'.levels = all at redirects
  obtain _ | @⟨_, now, _, first⟩ := redirects
  -- no segment is recent, so the redirect is not open now
  obtain ⟨none, lies⟩ := carries.under levels' old
  rw [first.eq (none.trans straight.symm)] at levels'
  exact guarded.agrees (levels'.trans levels.symm) (Nat.zero_le _) (Nat.zero_le _) (Nat.zero_le _)
    lies.spelt

/-- Where the redirect is open they are two segments, and the one above is not empty. -/
lemma determined_aside {l : Location} (levels : s.levels = level :: outer)
    (aside : level.backPop = some l) (low : l < level.freePush) (high : level.freePush < s.cursor) :
    s.Determined [1]
      [⟨1, s.bytes.read level.freePush (s.cursor - level.freePush)⟩, ⟨0, s.bytes.read 0 l⟩] := by
  have parted (data data' : List UInt8) :
      Parted 1 [(⟨1, data⟩ : ByteSegment)] [(⟨0, data'⟩ : ByteSegment)] :=
    ⟨fun x mem => by rw [List.mem_singleton.1 mem],
      fun x mem => by rw [List.mem_singleton.1 mem]; exact Nat.one_pos⟩
  refine ⟨⟨?_, ?_, List.pairwise_singleton _ _, nofun⟩,
    fun since mem => Nat.le_of_eq (List.mem_singleton.1 mem), ?_⟩
  · rw [levels]
    exact .opened aside low rfl (parted _ _) (Nat.le_of_lt high) (List.nil_append _).symm
      (.ground (List.nil_append _).symm)
  · rintro _ _ _ _ - ⟨rfl, rfl⟩ -
    exact ⟨_, List.mem_cons_self, Nat.le_refl _⟩
  · intro s' guarded carries
    have redirects := guarded.levels
    rw [levels] at redirects
    generalize levels' : s'.levels = all at redirects
    obtain _ | @⟨_, now, _, first⟩ := redirects
    have lies := carries.lies
    rw [levels'] at lies
    cases lies with
    | closed none parts parted' beyond lies =>
      -- all bytes would be below `freePush`, and yet some above it
      obtain ⟨rfl, rfl⟩ := Parted.unique parts (parted _ _) parted'
      have length := congrArg List.length lies.spelt
      simp only [spell, List.nil_append, List.length_append, ByteMap.length_read] at length beyond
      obtain empty | beyond := beyond
      · have none := congrArg List.length empty
        rw [ByteMap.length_read, List.length_nil] at none
        lia
      · have place := first.freePush
        lia
    | opened some before parts parted' beyond spelt lies =>
      obtain ⟨rfl, rfl⟩ := Parted.unique parts (parted _ _) parted'
      obtain ⟨rfl, -⟩ := read_inj lies.spelt
      obtain rfl := first.eq (some.trans aside.symm)
      refine guarded.agrees (levels'.trans levels.symm) ?_ (Nat.le_of_lt high) beyond spelt
      rw [levels]
      exact Nat.le_refl _

/-- Every stack with its cursor off an open active redirect is determined by segments. -/
lemma exists_determined
    (back : ∀ level outer, s.levels = level :: outer →
      ∀ l, level.backPop = some l → l < level.freePush)
    (off : ∀ level ∈ s.levels.head?, level.backPop = none ∨ level.freePush < s.cursor) :
    ∃ times segments, s.Determined times segments := by
  cases levels : s.levels with
  | nil => exact ⟨_, _, determined_ground levels⟩
  | cons level outer =>
    cases aside : level.backPop with
    | none => exact ⟨_, _, determined_straight levels aside⟩
    | some l =>
      have high := off level (by rw [levels]; rfl)
      exact ⟨_, _, determined_aside levels aside (back level outer levels l aside)
        (high.resolve_left (by simp [aside]))⟩

end FlatStack

namespace Tape

/-- Two tapes with the same cursor, levels and marks, the same values and bits buffered, and the
same bytes up to the cursor or to the `freePush` of the active level, whichever lies higher. -/
structure Alike (t u : Tape) : Prop where
  location : u.location = t.location
  levels : u.stack.levels = t.stack.levels
  marks : u.marks = t.marks
  fill : u.area.marks = t.area.marks
  valid : ∀ k, (u.area.get k).valid = (t.area.get k).valid
  bits : u.area.bits.valid = t.area.bits.valid
  bytes : ∀ l < max t.location (FlatStack.floor t.stack.levels), u.byteAt l = t.byteAt l

/-- Tapes are alike when their flat views are, up to the frontier. -/
lemma alike_of_flat {t u : Tape} (sound : t.Sound) (sound' : u.Sound)
    (stack : t.flat.stack.Agrees u.flat.stack) (valid : u.flat.valid = t.flat.valid)
    (bits : u.flat.bits.valid = t.flat.bits.valid) (marks : u.flat.marks = t.flat.marks) :
    t.Alike u := by
  have index (kind : Kind) : u.flat.index kind = t.flat.index kind := by
    rw [FlatTape.index, FlatTape.index, valid, BitBuffer.index_congr bits]
  have fill : u.flat.fill = t.flat.fill := by simp only [FlatTape.fill, index]
  rw [sound.blocks.fill, sound'.blocks.fill] at fill
  refine ⟨stack.cursor, stack.levels, marks, fill, fun k => ?_, bits, stack.bytes⟩
  exact List.reverse_injective (congrFun valid k)

end Tape

/-- Bracketed calls leave no trace. From every reachable tape, whatever its buffers hold and however
many levels are open, unless the active redirect is open and the cursor is on its `freePush`: every
pop answers what its push stored, and in the end the cursor, the levels with their redirects, the
marks, all that is buffered and the bytes up to the cursor or the active `freePush` are the same as
in the beginning. This is asked only where memory does not run out. -/
theorem bracketed_calls_leave_no_trace {t : Tape} (reachable : t.Reachable)
    (off : ∀ level ∈ t.stack.levels.head?, level.backPop = none ∨ level.freePush < t.location)
    {calls : List Call} {answers : List Answer} (word : Bracketed calls answers)
    (room : ∀ o ∈ (Call.performAll calls t).1, ranOut o = false) :
    (Call.performAll calls t).1 = answers.map .ok ∧ t.Alike (Call.performAll calls t).2 := by
  have sound := reachable.sound
  obtain ⟨sound', same, view⟩ := Commutes.all Tape.perform_commutes calls sound
  rw [Tape.performAll_eq] at room ⊢
  rw [same] at room
  obtain ⟨times, segments, carries, recent, back⟩ :=
    FlatStack.exists_determined sound.levels.back off
  let base : Stage := ⟨segments, t.flat.valid, t.flat.bits⟩
  have tidy : base.Tidy t.flat.capacity := ⟨sound.levels.roomy.valid, sound.levels.roomy.bits⟩
  have start : t.flat.Carries times (.of t.flat.capacity base []) := ⟨carries, rfl, rfl⟩
  obtain ⟨answered, guarded, last⟩ :=
    FlatTape.run_bracketed word sound.levels rfl tidy start recent room
  rw [← view] at guarded last
  refine ⟨same.trans answered, Tape.alike_of_flat sound sound' ?_ last.valid last.bits ?_⟩
  · exact back guarded.stack last.stack
  · exact guarded.marks

/-- A spill of a buffer that was half full, behind an open redirect, around an empty array. -/
theorem bracketed_calls_leave_no_trace_of_a_spill :
    let calls : List Call := [.push .character 7, .pushArray .integer8 [], .popArray .integer8 0,
      .pop .character, .pushControl 5 3, .popControl 3]
    let answers : List Answer :=
      [.unit, .unit, .array .integer8 [], .scalar .character 7, .unit, .control 5]
    ∃ t : Tape, t.Reachable ∧
      (∀ level ∈ t.stack.levels.head?, level.backPop = none ∨ level.freePush < t.location) ∧
      Bracketed calls answers ∧ (∀ o ∈ (Call.performAll calls t).1, ranOut o = false) ∧
      (Call.performAll calls t).1 = answers.map .ok ∧ t.Alike (Call.performAll calls t).2 := by
  intro calls answers
  have created : Tape.create ⟨2, 2⟩ none = .ok _ := rfl
  have reachable := (Tape.Reachable.create created).run [.pushBytes [1, 2, 3] true, .pushBit true,
    .push .character 5, .startRepeat, .popBytes 1 true, .pushBytes [9] true]
  have array : Bracketed [.pushArray .integer8 [], .popArray .integer8 0]
      [.unit, .array .integer8 []] :=
    @Bracketed.nest (.array .integer8 []) _ _ _ _ trivial .nil .nil
  have control : Bracketed [.pushControl 5 3, .popControl 3] [.unit, .control 5] :=
    @Bracketed.nest (.control 5 3) _ _ _ _ (by decide) .nil .nil
  have word : Bracketed calls answers :=
    @Bracketed.nest (.scalar .character 7) _ _ _ _ trivial array control
  obtain ⟨t, reachable, off, room⟩ : ∃ t : Tape, t.Reachable ∧
      (∀ level ∈ t.stack.levels.head?, level.backPop = none ∨ level.freePush < t.location) ∧
        ∀ o ∈ (Call.performAll calls t).1, ranOut o = false :=
    ⟨_, reachable, by decide +kernel, by decide +kernel⟩
  exact ⟨t, reachable, off, word, room, bracketed_calls_leave_no_trace reachable off word room⟩

end AdjointTape

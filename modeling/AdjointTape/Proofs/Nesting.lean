import AdjointTape.Proofs.Guard

/-!
# Nested levels

Each open level protects what the enclosing ones protect and, behind that, the buffers it saved, so
the protected regions grow inwards.  A redirect comes back to a place below its level's `freePush`.
Opening, restarting and closing levels keeps them nested, and no call leaves a buffer without room.
-/

open AdjointTape.Action AdjointTape.FlatStack

namespace AdjointTape

/-! ## What a level saves -/

namespace FlatTape

/-- The bytes that a level saves. -/
def saved (f : FlatTape) : List UInt8 := (Kind.all.map f.chunk).flatten

/-- The fill index of a kind. -/
lemma get_fill (f : FlatTape) (kind : Kind) : f.fill.get kind = f.index kind := by
  cases kind <;> rfl

/-- A kind has as many bytes saved as its fill index says. -/
lemma length_chunk (f : FlatTape) (kind : Kind) : (f.chunk kind).length = f.fill.bytes kind := by
  rw [chunk, Marks.bytes, get_fill, index]
  cases kind.scalar? with
  | some k =>
    dsimp only
    rw [k.length_encodeAll, List.length_reverse]
  | none =>
    dsimp only
    split
    case isTrue => rfl
    case isFalse => exact LittleEndian.length_encode 4 _

/-- The chunks are as long as the fill indices say. -/
lemma length_chunks (f : FlatTape) (kinds : List Kind) :
    (kinds.map f.chunk).flatten.length = f.fill.bytesOf kinds := by
  rw [Marks.bytesOf, List.length_flatten, List.map_map]
  exact congrArg List.sum (List.map_congr_left fun kind _ => f.length_chunk kind)

/-- What a level saves is as long as the fill indices say. -/
lemma length_saved (f : FlatTape) : f.saved.length = f.fill.savedBytes := f.length_chunks Kind.all

/-- The fill indices of roomy buffers are those of buffers that are not full. -/
lemma Roomy.within_fill {f : FlatTape} (roomy : f.Roomy) : f.fill.Within f.capacity := by
  refine ⟨fun {kind k} e => ?_, roomy.bits⟩
  rw [get_fill, index, e]
  exact roomy.valid k

end FlatTape

namespace FlatStack

/-- A stack with bytes put behind the cursor. -/
structure Wrote (data : List UInt8) (s s' : FlatStack) : Prop where
  bytes : s'.bytes = s.bytes.write s.cursor data
  cursor : s'.cursor = s.cursor + data.length
  levels : s'.levels = s.levels

/-- Bytes that are put one behind the other are put at once. -/
lemma Wrote.trans {xs ys : List UInt8} {s t u : FlatStack} (h : Wrote xs s t) (h' : Wrote ys t u) :
    Wrote (xs ++ ys) s u := by
  refine ⟨?_, ?_, h'.levels.trans h.levels⟩
  · rw [h'.bytes, h.bytes, h.cursor, ByteMap.write_append]
  · rw [h'.cursor, h.cursor, List.length_append, Nat.add_assoc]

/-- Chunks are put one behind the other; when one finds no room, those before it stay. -/
lemma pushEach_spec (chunks : List (List UInt8)) (s : FlatStack) :
    (∃ s', FlatTape.pushEach chunks s = .ok () s' ∧ Wrote chunks.flatten s s') ∨
      ∃ blocks blockSize s' data,
        FlatTape.pushEach chunks s = .error (.outOfMemory blocks blockSize) s' ∧
          Wrote data s s' := by
  induction chunks generalizing s with
  | nil => exact .inl ⟨s, rfl, (ByteMap.write_nil _ _).symm, rfl, rfl⟩
  | cons chunk rest ih =>
    rw [FlatTape.pushEach]
    by_cases room : s.hasRoom ((s.start false).cursor + chunk.length)
    · have first : push chunk false s = .ok () (s.pushed chunk false) := if_pos room
      have put : Wrote chunk s (s.pushed chunk false) := ⟨rfl, rfl, rfl⟩
      rw [bind_ok first, List.flatten_cons]
      obtain ⟨s', run, wrote⟩ | ⟨blocks, blockSize, s', data, run, wrote⟩ :=
        ih (s.pushed chunk false)
      · exact .inl ⟨s', run, put.trans wrote⟩
      · exact .inr ⟨blocks, blockSize, s', chunk ++ data, run, put.trans wrote⟩
    · have first : push chunk false s = .error (.outOfMemory s.blocks s.blockSize) s := if_neg room
      rw [bind_error first]
      exact .inr ⟨_, _, s, [], rfl, (ByteMap.write_nil _ _).symm, rfl, rfl⟩

end FlatStack

/-- The end of what a stack holds: the cursor or what is protected, whichever lies higher. A level
that is opened saves its buffers there. -/
def FlatStack.frontier (s : FlatStack) : Location := max s.cursor (floor s.levels)

namespace FlatTape

/-- The level that is opened on a tape. -/
def newLevel (f : FlatTape) : RepeatLevel where
  resume := f.stack.cursor
  freePush := f.stack.frontier + f.fill.savedBytes
  backPop := none

/-- A tape with a level opened. -/
structure Opened (f f' : FlatTape) : Prop where
  bytes : f'.stack.bytes = f.stack.bytes.write f.stack.frontier f.saved
  cursor : f'.stack.cursor = f.stack.cursor
  levels : f'.stack.levels = f.newLevel :: f.stack.levels
  valid : f'.valid = f.valid
  bits : f'.bits = f.bits
  marks : f'.marks = f.fill :: f.marks
  capacity : f'.capacity = f.capacity

/-- A level is opened unless what it saves finds no room, and then the step is guarded. -/
lemma startRepeat_spec (f : FlatTape) :
    (∃ f', startRepeat f = .ok () f' ∧ Opened f f') ∨
      ∃ blocks blockSize f', startRepeat f = .error (.outOfMemory blocks blockSize) f' ∧
        Guarded f f' ∧ f'.stack.levels = f.stack.levels := by
  rw [startRepeat]
  obtain ⟨s, run, wrote⟩ | ⟨blocks, blockSize, s, data, run, wrote⟩ :=
    pushEach_spec (Kind.all.map f.chunk) f.stack.begun
  · rw [run]
    refine .inl ⟨_, rfl, wrote.bytes, rfl, ?_, rfl, rfl, rfl, rfl⟩
    have freePush : s.cursor = f.stack.frontier + f.fill.savedBytes :=
      wrote.cursor.trans (congrArg (f.stack.frontier + ·) f.length_saved)
    rw [committed, wrote.levels, freePush]
    rfl
  · rw [run]
    refine .inr ⟨blocks, blockSize, _, rfl, ⟨⟨?_, fun l below => ?_⟩, rfl, rfl, ?_⟩, wrote.levels⟩
    · exact (show s.levels = f.stack.levels from wrote.levels) ▸ .refl _
    · refine (congrFun wrote.bytes l).trans (ByteMap.write_below _ _ ?_)
      exact Nat.lt_of_lt_of_le below (Nat.le_max_right _ _)
    · exact fun roomy => ⟨roomy.valid, roomy.bits⟩

/-! ## Nested levels -/

/-- Open levels and the fill indices they saved, the active one first: a level protects the bytes up
to where it began and whatever the enclosing levels protect, and behind them what it saved. -/
inductive Nested (capacity : Nat) : List RepeatLevel → List Marks → Prop where
  | outermost : Nested capacity [] []
  | inner {level : RepeatLevel} {outer : List RepeatLevel} {marks : Marks} {rest : List Marks}
    (freePush : level.freePush = max level.resume (floor outer) + marks.savedBytes)
    (backPop : ∀ l, level.backPop = some l → l < level.freePush)
    (within : marks.Within capacity)
    (nested : Nested capacity outer rest) : Nested capacity (level :: outer) (marks :: rest)

namespace Nested

variable {capacity : Nat} {levels : List RepeatLevel} {marks : List Marks}

/-- Every level has its marks. -/
lemma length_eq (nested : Nested capacity levels marks) : levels.length = marks.length := by
  induction nested with
  | outermost => rfl
  | inner _ _ _ _ ih => rw [List.length_cons, List.length_cons, ih]

/-- Nested levels stay nested whatever happens to the active redirect. -/
lemma redirects {levels' : List RepeatLevel} (nested : Nested capacity levels marks)
    (h : ActiveRedirects levels levels') : Nested capacity levels' marks := by
  cases h with
  | outermost => exact nested
  | active first =>
    obtain _ | ⟨freePush, backPop, within, nested⟩ := nested
    refine .inner ?_ (fun l e => ?_) within nested
    · rw [first.freePush, first.resume, freePush]
    · rw [first.freePush]
      exact (first.backPop l e).elim (backPop l) id

/-- Inner levels protect no less than outer ones. -/
lemma floor_le {level : RepeatLevel} {outer : List RepeatLevel}
    (nested : Nested capacity (level :: outer) marks) : floor outer ≤ level.freePush := by
  cases nested with
  | inner freePush _ _ _ =>
    rw [freePush]
    exact Nat.le_trans (Nat.le_max_right _ _) (Nat.le_add_right _ _)

end Nested

/-- A tape with nested levels and roomy buffers. -/
structure Sound (f : FlatTape) : Prop where
  nested : Nested f.capacity f.stack.levels f.marks
  roomy : f.Roomy

/-- A guarded step leads from a sound tape to a sound one. -/
lemma Guarded.sound {f f' : FlatTape} (step : Guarded f f') (sound : f.Sound) : f'.Sound :=
  ⟨step.capacity ▸ step.marks ▸ sound.nested.redirects step.stack.levels, step.roomy sound.roomy⟩

/-- Opening a level leads from a sound tape to a sound one. -/
lemma Opened.sound {f f' : FlatTape} (opened : Opened f f') (sound : f.Sound) : f'.Sound := by
  refine ⟨?_, fun k => ?_, ?_⟩
  · rw [opened.levels, opened.marks, opened.capacity]
    exact .inner rfl nofun sound.roomy.within_fill sound.nested
  · rw [opened.valid, opened.capacity]
    exact sound.roomy.valid k
  · rw [opened.bits]
    exact sound.roomy.bits

/-! ## Restarting and closing levels -/

/-- Only bits are no scalars. -/
lemma scalar?_eq_none {kind : Kind} (h : kind.scalar? = none) : kind = .bit := by
  cases kind <;> first | rfl | cases h

/-- Taking back a kind leaves marks and capacity alone. -/
lemma marks_takeBack (f : FlatTape) (kind : Kind) (count : Nat) :
    (f.takeBack kind count).marks = f.marks ∧ (f.takeBack kind count).capacity = f.capacity := by
  rw [takeBack]
  cases kind.scalar? with
  | some k => exact ⟨rfl, rfl⟩
  | none =>
    dsimp only
    split <;> exact ⟨rfl, rfl⟩

/-- Buffers that are taken back to marks within the capacity keep their room. -/
lemma Roomy.takeBack {f : FlatTape} (roomy : f.Roomy) {marks : Marks}
    (within : marks.Within f.capacity) (kind : Kind) :
    (f.takeBack kind (marks.get kind)).Roomy := by
  rw [FlatTape.takeBack]
  cases e : kind.scalar? with
  | some k =>
    dsimp only
    refine Roomy.hold (f := { f with stack := f.stack.popped (marks.get kind * k.width) false })
      ⟨roomy.valid, roomy.bits⟩ k _ ?_
    rw [List.length_reverse, Array.length_toList, k.size_decodeAll]
    exact within.scalar e
  | none =>
    have bit := within.bit
    rw [scalar?_eq_none e]
    dsimp only
    split
    case isTrue => exact ⟨roomy.valid, Nat.zero_lt_of_lt bit⟩
    case isFalse => exact ⟨roomy.valid, bit⟩

/-- Taking back all kinds leaves marks and capacity alone. -/
lemma marks_takeBackEach (f : FlatTape) (marks : Marks) (kinds : List Kind) :
    (f.takeBackEach marks kinds).marks = f.marks ∧
      (f.takeBackEach marks kinds).capacity = f.capacity := by
  induction kinds generalizing f with
  | nil => exact ⟨rfl, rfl⟩
  | cons kind rest ih =>
    obtain ⟨same, capacity⟩ := f.marks_takeBack kind (marks.get kind)
    rw [takeBackEach, (ih _).1, (ih _).2]
    exact ⟨same, capacity⟩

/-- Buffers that are taken back kind by kind keep their room. -/
lemma Roomy.takeBackEach {f : FlatTape} (roomy : f.Roomy) {marks : Marks}
    (within : marks.Within f.capacity) (kinds : List Kind) :
    (f.takeBackEach marks kinds).Roomy := by
  induction kinds generalizing f with
  | nil => exact roomy
  | cons kind rest ih =>
    refine ih (roomy.takeBack within kind) ?_
    rw [(f.marks_takeBack _ _).2]
    exact within

/-- An open level is restarted with its marks. -/
lemma resetRepeat_eq {f : FlatTape} {level : RepeatLevel} {outer : List RepeatLevel} {marks : Marks}
    {rest : List Marks} (levels : f.stack.levels = level :: outer)
    (marked : f.marks = marks :: rest) :
    resetRepeat f = .ok () (f.restarted level outer marks) := by
  simp only [resetRepeat, levels, marked]

/-- Restarting a level is guarded. -/
lemma guarded_resetRepeat {f : FlatTape} (sound : f.Sound) : Guarded f (after (resetRepeat f)) := by
  rw [resetRepeat]
  split
  case h_1 => exact .refl f
  case h_2 level outer levels marked =>
    have nested := sound.nested
    rw [levels, marked] at nested
    cases nested
  case h_3 level outer marks rest levels marked =>
    have nested := sound.nested
    rw [levels, marked] at nested
    obtain _ | ⟨-, -, within, -⟩ := nested
    have stack : (restored marks { f with stack := f.stack.rewound level outer }).stack =
      (f.stack.rewound level outer).seek _ := stack_takeBackEach _ _ _
    obtain ⟨same, capacity⟩ :=
      marks_takeBackEach { f with stack := f.stack.rewound level outer } marks Kind.all.reverse
    refine ⟨⟨?_, fun l _ => ?_⟩, same, capacity, fun roomy => ?_⟩
    · change ActiveRedirects f.stack.levels
        (restored marks { f with stack := f.stack.rewound level outer }).stack.levels
      rw [stack, levels]
      exact .active (.closed level)
    · exact congrFun (congrArg FlatStack.bytes stack) l
    · have back := Roomy.takeBackEach (f := { f with stack := f.stack.rewound level outer })
        ⟨roomy.valid, roomy.bits⟩ within Kind.all.reverse
      exact ⟨back.valid, back.bits⟩

/-- A tape with its active level closed: its bytes are the same, and so are the enclosing levels but
for a redirect of the one that is active now. -/
structure Closed (outer : List RepeatLevel) (f f' : FlatTape) : Prop where
  bytes : f'.stack.bytes = f.stack.bytes
  levels : ActiveRedirects outer f'.stack.levels
  marks : f'.marks = f.marks.tail
  capacity : f'.capacity = f.capacity
  valid : f'.valid = f.valid
  bits : f'.bits = f.bits

/-- A jump back writes nothing. -/
lemma bytes_rejoined (s : FlatStack) : s.rejoined.bytes = s.bytes := by
  rw [rejoined]
  split
  case h_1 => rfl
  case h_2 =>
    split
    case h_1 => rfl
    case h_2 => split <;> rfl

/-- Closing a level fails only where none is open. -/
lemma endRepeat_spec (f : FlatTape) :
    (f.stack.levels = [] ∧ endRepeat f = .error (.noActiveRepeat .endRepeat) f) ∨
      ∃ level outer f', f.stack.levels = level :: outer ∧ endRepeat f = .ok () f' ∧
        Closed outer f f' := by
  rw [endRepeat]
  split
  case h_1 levels => exact .inl ⟨levels, rfl⟩
  case h_2 level outer levels =>
    have rejoins := guarded_rejoined
      { f.stack with cursor := level.backPop.getD f.stack.cursor, levels := outer }
    exact .inr ⟨level, outer, _, levels, rfl, bytes_rejoined _, rejoins.levels, rfl, rfl, rfl, rfl⟩

/-- Closing a level leads from a sound tape to a sound one. -/
lemma Closed.sound {f f' : FlatTape} {level : RepeatLevel} {outer : List RepeatLevel}
    (closed : Closed outer f f') (levels : f.stack.levels = level :: outer) (sound : f.Sound) :
    f'.Sound := by
  have nested := sound.nested
  rw [levels] at nested
  refine ⟨?_, fun k => ?_, ?_⟩
  · rw [closed.marks, closed.capacity]
    cases e : f.marks with
    | nil =>
      rw [e] at nested
      cases nested
    | cons marks rest =>
      rw [e] at nested
      obtain _ | ⟨-, -, -, nested⟩ := nested
      exact nested.redirects closed.levels
  · rw [closed.valid, closed.capacity]
    exact sound.roomy.valid k
  · rw [closed.bits]
    exact sound.roomy.bits

end FlatTape

end AdjointTape

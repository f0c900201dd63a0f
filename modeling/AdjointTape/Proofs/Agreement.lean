import AdjointTape.Proofs.Restoring
import Mathlib.Order.MinMax

/-!
# Tapes that cannot be told apart

Two tapes agree when they have the same cursor, levels and buffers, and the same bytes up to the
cursor or to the end of what is protected, whichever lies higher.  No call but a seek reaches bytes
beyond, so agreeing tapes answer every other call alike and agree afterwards, as long as memory does
not run out.
-/

open AdjointTape.Action

namespace AdjointTape

/-- Whether a call sets the cursor to a place of its own. -/
def Call.seeks : Call → Bool
  | .setLocation _ => true
  | _ => false

namespace FlatStack

/-- The same stack up to its frontier. -/
structure Agrees (s t : FlatStack) : Prop where
  cursor : t.cursor = s.cursor
  levels : t.levels = s.levels
  bytes : ∀ l < s.frontier, t.bytes l = s.bytes l

namespace Agrees

variable {s t : FlatStack} (agrees : Agrees s t)

include agrees

/-- Stacks that agree have the same frontier. -/
lemma frontier_eq : t.frontier = s.frontier := by
  rw [frontier, frontier, agrees.cursor, agrees.levels]

/-- Stacks that agree still do with another cursor and other levels that do not reach further. -/
lemma lower {s' t' : FlatStack} (bytes : s'.bytes = s.bytes) (bytes' : t'.bytes = t.bytes)
    (cursor : t'.cursor = s'.cursor) (levels : t'.levels = s'.levels)
    (le : s'.frontier ≤ s.frontier) : Agrees s' t' := by
  refine ⟨cursor, levels, fun l below => ?_⟩
  rw [bytes, bytes']
  exact agrees.bytes l (Nat.lt_of_lt_of_le below le)

/-- The topmost bytes lie below the frontier, where stacks agree. -/
lemma top (count : Nat) (enough : count ≤ s.cursor) : t.top count = s.top count := by
  rw [FlatStack.top, FlatStack.top, agrees.cursor]
  refine ByteMap.read_congr fun l _ below => agrees.bytes l ?_
  rw [Nat.sub_add_cancel enough] at below
  exact Nat.lt_of_lt_of_le below (Nat.le_max_left _ _)

/-- Stacks agree after the same bytes are put on them. -/
lemma put (data : List UInt8) : Agrees (s.put data) (t.put data) := by
  refine ⟨?_, agrees.levels, fun l below => ?_⟩
  · exact congrArg (· + data.length) agrees.cursor
  · simp only [FlatStack.put, agrees.cursor]
    by_cases low : l < s.cursor
    · rw [ByteMap.write_below _ _ low, ByteMap.write_below _ _ low]
      exact agrees.bytes l (Nat.lt_of_lt_of_le low (Nat.le_max_left _ _))
    · by_cases high : l < s.cursor + data.length
      · exact ByteMap.write_inside _ _ (Nat.le_of_not_lt low) high
      · have above := Nat.le_of_not_lt high
        rw [ByteMap.write_above _ above, ByteMap.write_above _ above]
        refine agrees.bytes l (Nat.lt_of_lt_of_le ?_ (Nat.le_max_right _ _))
        exact (lt_max_iff.1 below).resolve_left high

/-- Stacks agree after a jump to the active `freePush`. -/
lemma redirected : Agrees s.redirected t.redirected := by
  obtain ⟨bytes, cursor, levels, traffic, blockSize, blocks, memory⟩ := s
  obtain ⟨bytes', cursor', levels', traffic', blockSize', blocks', memory'⟩ := t
  obtain rfl : cursor' = cursor := agrees.cursor
  obtain rfl : levels' = levels := agrees.levels
  cases levels' with
  | nil => exact agrees
  | cons level outer =>
    by_cases below : cursor' < level.freePush
    · simp only [FlatStack.redirected, if_pos below]
      refine agrees.lower rfl rfl rfl rfl (Nat.max_le.2 ⟨?_, ?_⟩) <;> exact Nat.le_max_right _ _
    · simp only [FlatStack.redirected, if_neg below]
      exact agrees

/-- A jump to a place that was left below `freePush` reaches no further. -/
lemma rejoined (back : ∀ level outer, s.levels = level :: outer →
    ∀ l, level.backPop = some l → l < level.freePush) : Agrees s.rejoined t.rejoined := by
  obtain ⟨bytes, cursor, levels, traffic, blockSize, blocks, memory⟩ := s
  obtain ⟨bytes', cursor', levels', traffic', blockSize', blocks', memory'⟩ := t
  obtain rfl : cursor' = cursor := agrees.cursor
  obtain rfl : levels' = levels := agrees.levels
  cases levels' with
  | nil => exact agrees
  | cons level outer =>
    cases e : level.backPop with
    | none =>
      simp only [FlatStack.rejoined, e]
      exact agrees
    | some l =>
      simp only [FlatStack.rejoined, e]
      by_cases on : cursor' = level.freePush
      · rw [if_pos on, if_pos on]
        refine agrees.lower rfl rfl rfl rfl (Nat.max_le.2 ⟨?_, Nat.le_max_right _ _⟩)
        exact Nat.le_trans (Nat.le_of_lt (back level outer rfl l e)) (Nat.le_max_right _ _)
      · rw [if_neg on, if_neg on]
        exact agrees

end Agrees

/-! ## Transfers -/

/-- Stacks agree after the same push. -/
lemma Agrees.pushed {s t : FlatStack} (agrees : Agrees s t) (data : List UInt8)
    (isProtected : Bool) : Agrees (s.pushed data isProtected) (t.pushed data isProtected) := by
  cases isProtected with
  | false =>
    have put := agrees.put data
    exact ⟨put.cursor, put.levels, put.bytes⟩
  | true =>
    have put := agrees.redirected.put data
    exact ⟨put.cursor, put.levels, put.bytes⟩

/-- Stacks agree after the same pop, if an open redirect comes back to a place below the level. -/
lemma Agrees.popped {s t : FlatStack} (agrees : Agrees s t) (count : Nat) (isProtected : Bool)
    (back : ∀ level outer, s.levels = level :: outer →
      ∀ l, level.backPop = some l → l < level.freePush) :
    Agrees (s.popped count isProtected) (t.popped count isProtected) := by
  have lower : Agrees (s.seek (s.cursor - count)) (t.seek (t.cursor - count)) :=
    agrees.lower rfl rfl (congrArg (· - count) agrees.cursor) agrees.levels
      (Nat.max_le.2 ⟨Nat.le_trans (Nat.sub_le _ _) (Nat.le_max_left _ _), Nat.le_max_right _ _⟩)
  cases isProtected with
  | false => exact lower
  | true => exact lower.rejoined back

end FlatStack

namespace FlatTape

/-- The same tape up to the frontier of its stack. -/
structure Agrees (f g : FlatTape) : Prop where
  stack : f.stack.Agrees g.stack
  valid : g.valid = f.valid
  bits : g.bits = f.bits
  marks : g.marks = f.marks
  capacity : g.capacity = f.capacity

/-- Sound tapes that agree. -/
structure Twins (f g : FlatTape) : Prop where
  sound : f.Sound
  agrees : f.Agrees g

/-- A redirect of a sound tape comes back to a place below its `freePush`. -/
lemma Sound.back {f : FlatTape} (sound : f.Sound) : ∀ level outer, f.stack.levels = level :: outer →
    ∀ l, level.backPop = some l → l < level.freePush := by
  intro level outer levels
  have nested := sound.nested
  rw [levels] at nested
  generalize f.marks = marks at nested
  obtain _ | ⟨-, backPop, -, -⟩ := nested
  exact backPop

/-! ## Calls that agree -/

/-- The same push onto tapes that agree finds room on both or fails. -/
lemma parallel_onStack_push (data : List UInt8) (isProtected : Bool) :
    Parallel Twins (onStack (FlatStack.push data isProtected)) := by
  intro f g twins roomF roomG
  have sound := sound_push data isProtected twins.sound
  obtain okF | ⟨blocks, blockSize, full⟩ := onStack_push_cases data isProtected f
  case inr =>
    rw [full] at roomF
    cases roomF
  obtain okG | ⟨blocks, blockSize, full⟩ := onStack_push_cases data isProtected g
  case inr =>
    rw [full] at roomG
    cases roomG
  obtain ⟨-, stack, valid, bits, marks, capacity⟩ := twins
  rw [okF] at sound ⊢
  rw [okG]
  exact ⟨rfl, sound, stack.pushed data isProtected, valid, bits, marks, capacity⟩

/-- The same pop from tapes that agree answers the same bytes. -/
lemma parallel_onStack_pop (count : Nat) (isProtected : Bool) :
    Parallel Twins (onStack (FlatStack.pop count isProtected)) := by
  intro f g twins _ _
  have sound := (steps_onStack (FlatStack.steps_pop count isProtected) f).sound twins.sound
  have back := twins.sound.back
  obtain ⟨-, stack, valid, bits, marks, capacity⟩ := twins
  simp only [onStack, FlatStack.pop, stack.cursor] at sound ⊢
  by_cases few : f.stack.cursor < count
  · simp only [if_pos few] at sound ⊢
    exact ⟨rfl, sound, stack, valid, bits, marks, capacity⟩
  · simp only [if_neg few] at sound ⊢
    refine ⟨?_, sound, stack.popped count isProtected back, valid, bits, marks, capacity⟩
    simp only [outcome, stack.top count (Nat.le_of_not_lt few)]

/-- Tapes agree after the same buffer is emptied. -/
lemma parallel_emptied (k : ScalarKind) : Parallel Twins (Action.update (emptied k)) := by
  intro f g twins _ _
  have sound := (guarded_emptied k f).sound twins.sound
  obtain ⟨-, stack, valid, bits, marks, capacity⟩ := twins
  exact ⟨rfl, sound, stack, congrArg (Function.update · k _) valid, bits, marks, capacity⟩

/-- Tapes agree after the same bytes are taken back into a buffer. -/
lemma parallel_refill (k : ScalarKind) (bytes : List UInt8) : Parallel Twins (refill k bytes) := by
  intro f g twins _ _
  have sound := (steps_refill k bytes f).sound twins.sound
  obtain ⟨-, stack, valid, bits, marks, capacity⟩ := twins
  simp only [refill, capacity] at sound ⊢
  exact ⟨rfl, sound, stack, congrArg (Function.update · k _) valid, bits, marks, capacity⟩

/-- Tapes agree after their bits become the same ones. -/
lemma parallel_bits {α : Type} (a : α) {bits : BitBuffer} (few : bits.index < BitBuffer.wordBits) :
    Parallel Twins fun f => .ok a { f with bits } := by
  intro f g twins _ _
  have sound := (guarded_bits (f := f) fun _ => few).sound twins.sound
  obtain ⟨-, stack, valid, -, marks, capacity⟩ := twins
  exact ⟨rfl, sound, stack, valid, rfl, marks, capacity⟩

/-- A scalar that is pushed goes the same way on tapes that agree. -/
lemma parallel_push (k : ScalarKind) (value : k.Carrier) : Parallel Twins (push k value) := by
  intro f g twins roomF roomG
  have held : g.valid k = f.valid k := congrFun twins.agrees.valid k
  have capacity := twins.agrees.capacity
  by_cases room : (f.valid k).length + 1 < f.capacity
  case pos =>
    have sound := (steps_push k value f).sound twins.sound
    rw [push_room room] at sound ⊢
    rw [push_room (by rw [held, capacity]; exact room), held]
    obtain ⟨-, stack, valid, bits, marks, capacity⟩ := twins
    exact ⟨rfl, sound, stack, congrArg (Function.update · k _) valid, bits, marks, capacity⟩
  case neg =>
    rw [push_spill room] at roomF ⊢
    rw [push_spill (by rw [held, capacity]; exact room), held] at roomG ⊢
    exact Parallel.seq (parallel_onStack_push _ true) (fun _ => parallel_emptied k) f g twins
      roomF roomG

/-- A scalar that is popped is the same on tapes that agree. -/
lemma parallel_pop (k : ScalarKind) : Parallel Twins (pop k) := by
  intro f g twins roomF roomG
  have same : g.valid k = f.valid k := congrFun twins.agrees.valid k
  cases held : f.valid k with
  | cons value rest =>
    have sound := (steps_pop k f).sound twins.sound
    rw [pop_held held] at sound ⊢
    rw [pop_held (same.trans held)]
    obtain ⟨-, stack, valid, bits, marks, capacity⟩ := twins
    exact ⟨rfl, sound, stack, congrArg (Function.update · k _) valid, bits, marks, capacity⟩
  | nil =>
    rw [pop_refill held] at roomF ⊢
    rw [pop_refill (same.trans held), twins.agrees.capacity] at roomG ⊢
    exact Parallel.seq (parallel_onStack_pop _ true) (parallel_refill k) f g twins roomF roomG

/-- A bit that is pushed goes the same way on tapes that agree. -/
lemma parallel_pushBit (bit : Bool) : Parallel Twins (pushBit bit) := by
  intro f g twins roomF roomG
  have same := twins.agrees.bits
  by_cases full : BitBuffer.wordBits ≤ f.bits.index + 1
  case pos =>
    rw [pushBit_spill full] at roomF ⊢
    rw [pushBit_spill (same ▸ full), same] at roomG ⊢
    exact Parallel.seq (parallel_onStack_push _ true)
      (fun _ => parallel_bits () (Nat.zero_lt_succ _)) f g twins roomF roomG
  case neg =>
    rw [pushBit_room full]
    rw [pushBit_room (same ▸ full), same]
    exact parallel_bits () (Nat.lt_of_not_le full) f g twins rfl rfl

/-- A bit that is popped is the same on tapes that agree. -/
lemma parallel_popBit : Parallel Twins popBit := by
  intro f g twins roomF roomG
  have same := twins.agrees.bits
  cases held : f.bits.index with
  | zero =>
    rw [popBit_refill held] at roomF ⊢
    rw [popBit_refill (same ▸ held)] at roomG ⊢
    exact Parallel.seq (parallel_onStack_pop 4 true)
      (fun _ => parallel_bits _ (Nat.lt_succ_self _)) f g twins roomF roomG
  | succ index =>
    have few : index < BitBuffer.wordBits := by
      have room := twins.sound.roomy.bits
      rw [held] at room
      exact Nat.lt_of_succ_lt room
    rw [popBit_held held]
    rw [popBit_held (same ▸ held), same]
    exact parallel_bits _ few f g twins rfl rfl

/-- Bits that are pushed go the same way on tapes that agree. -/
lemma parallel_pushBits (bits : List Bool) : Parallel Twins (pushBits bits) := by
  induction bits with
  | nil => exact Parallel.ret ()
  | cons bit rest ih => exact Parallel.seq (parallel_pushBit bit) fun _ => ih

/-- Bits that are popped are the same on tapes that agree. -/
lemma parallel_popBits (count value : Nat) : Parallel Twins (popBits count value) := by
  induction count generalizing value with
  | zero => exact Parallel.ret value
  | succ count ih => exact Parallel.seq parallel_popBit fun _ => ih _

/-! ## Repeat levels -/

/-- Tapes that agree save the same bytes. -/
lemma Agrees.saved {f g : FlatTape} (agrees : Agrees f g) :
    g.saved = f.saved ∧ g.fill = f.fill := by
  have chunk (kind : Kind) : g.chunk kind = f.chunk kind := by
    rw [FlatTape.chunk, FlatTape.chunk, agrees.valid, agrees.bits]
  have index (kind : Kind) : g.index kind = f.index kind := by
    rw [FlatTape.index, FlatTape.index, agrees.valid, agrees.bits]
  constructor
  · rw [FlatTape.saved, FlatTape.saved, funext chunk]
  · simp only [fill, index]

/-- Opened levels save the same bytes at the same place. -/
lemma Agrees.opened {f g f' g' : FlatTape} (agrees : Agrees f g) (opened : Opened f f')
    (opened' : Opened g g') : Agrees f' g' := by
  obtain ⟨saved, fill⟩ := agrees.saved
  have frontier := agrees.stack.frontier_eq
  have level : g.newLevel = f.newLevel := by
    rw [newLevel, newLevel, agrees.stack.cursor, frontier, fill]
  refine ⟨⟨?_, ?_, fun l below => ?_⟩, ?_, ?_, ?_, ?_⟩
  · rw [opened.cursor, opened'.cursor, agrees.stack.cursor]
  · rw [opened.levels, opened'.levels, agrees.stack.levels, level]
  · rw [opened.bytes, opened'.bytes, saved, frontier]
    by_cases low : l < f.stack.frontier
    · rw [ByteMap.write_below _ _ low, ByteMap.write_below _ _ low]
      exact agrees.stack.bytes l low
    · refine ByteMap.write_inside _ _ (Nat.le_of_not_lt low) ?_
      have above : ¬ l < f.stack.cursor :=
        fun lt => low (Nat.lt_of_lt_of_le lt (Nat.le_max_left _ _))
      rw [FlatStack.frontier, opened.cursor, opened.levels] at below
      rw [f.length_saved]
      exact (lt_max_iff.1 below).resolve_left above
  · rw [opened.valid, opened'.valid, agrees.valid]
  · rw [opened.bits, opened'.bits, agrees.bits]
  · rw [opened.marks, opened'.marks, agrees.marks, fill]
  · rw [opened.capacity, opened'.capacity, agrees.capacity]

/-- A level that is opened on tapes that agree leaves tapes that agree. -/
lemma parallel_startRepeat : Parallel Twins startRepeat := by
  intro f g twins roomF roomG
  obtain ⟨f', runF, opened⟩ | ⟨blocks, blockSize, f', runF, -⟩ := startRepeat_spec f
  · obtain ⟨g', runG, opened'⟩ | ⟨blocks, blockSize, g', runG, -⟩ := startRepeat_spec g
    · rw [runF, runG]
      exact ⟨rfl, opened.sound twins.sound, twins.agrees.opened opened opened'⟩
    · rw [runG] at roomG
      cases roomG
  · rw [runF] at roomF
    cases roomF

/-- What is taken back lies below the frontier, where tapes agree. -/
lemma Agrees.takeBack {f g : FlatTape} (agrees : Agrees f g) {marks : Marks} {kind : Kind}
    (enough : marks.bytes kind ≤ f.stack.cursor) :
    Agrees (f.takeBack kind (marks.get kind)) (g.takeBack kind (marks.get kind)) := by
  obtain ⟨stack, valid, bits, marks', capacity⟩ := agrees
  have lower (count : Nat) : (f.stack.popped count false).Agrees (g.stack.popped count false) :=
    stack.lower rfl rfl (congrArg (· - count) stack.cursor) stack.levels
      (Nat.max_le.2 ⟨Nat.le_trans (Nat.sub_le _ _) (Nat.le_max_left _ _), Nat.le_max_right _ _⟩)
  rw [Marks.bytes] at enough
  rw [FlatTape.takeBack, FlatTape.takeBack]
  cases e : kind.scalar? with
  | some k =>
    rw [e] at enough
    dsimp only at enough ⊢
    rw [stack.top _ enough]
    exact ⟨lower _, congrArg (Function.update · k _) valid, bits, marks', capacity⟩
  | none =>
    rw [e] at enough
    dsimp only at enough ⊢
    by_cases empty : marks.get kind = 0
    · rw [if_pos empty, if_pos empty]
      exact ⟨stack, valid, rfl, marks', capacity⟩
    · rw [if_neg empty] at enough
      rw [if_neg empty, if_neg empty, stack.top _ enough]
      exact ⟨lower _, valid, rfl, marks', capacity⟩

/-- Kind by kind what is taken back lies below the frontier. -/
lemma Agrees.takeBackEach {f g : FlatTape} (agrees : Agrees f g) (marks : Marks)
    (kinds : List Kind) (enough : marks.bytesOf kinds ≤ f.stack.cursor) :
    Agrees (f.takeBackEach marks kinds) (g.takeBackEach marks kinds) := by
  induction kinds generalizing f g with
  | nil => exact agrees
  | cons kind rest ih =>
    rw [Marks.bytesOf, List.map_cons, List.sum_cons] at enough
    refine ih (agrees.takeBack (Nat.le_trans (Nat.le_add_right _ _) enough)) ?_
    rw [stack_takeBack]
    exact Nat.le_sub_of_add_le' enough

/-- The same restart of tapes that agree leaves tapes that agree. -/
lemma Agrees.restarted {f g : FlatTape} (agrees : Agrees f g) {level : RepeatLevel}
    {outer : List RepeatLevel} {marks : Marks} (levels : f.stack.levels = level :: outer)
    (resume : level.resume ≤ level.freePush) (enough : marks.savedBytes ≤ level.freePush) :
    Agrees (f.restarted level outer marks) (g.restarted level outer marks) := by
  obtain ⟨stack, valid, bits, marks', capacity⟩ := agrees
  -- on `freePush` the frontier is where it was, and from there on the cursor only goes down
  have rewound : Agrees { f with stack := f.stack.rewound level outer }
      { g with stack := g.stack.rewound level outer } := by
    refine ⟨stack.lower rfl rfl rfl rfl (Nat.max_le.2 ?_), valid, bits, marks', capacity⟩
    rw [FlatStack.frontier, levels]
    exact ⟨Nat.le_max_right _ _, Nat.le_max_right _ _⟩
  have restored := rewound.takeBackEach marks Kind.all.reverse
    (marks.bytesOf_reverse Kind.all ▸ enough)
  simp only [FlatTape.restarted, FlatTape.restored]
  refine ⟨?_, restored.valid, restored.bits, restored.marks, restored.capacity⟩
  refine restored.stack.lower rfl rfl rfl restored.stack.levels ?_
  rw [stack_takeBackEach]
  exact Nat.max_le.2 ⟨Nat.le_trans resume (Nat.le_max_right _ _), Nat.le_max_right _ _⟩

/-- A restart is the same on tapes that agree. -/
lemma parallel_resetRepeat : Parallel Twins resetRepeat := by
  intro f g twins _ _
  have sound := (guarded_resetRepeat twins.sound).sound twins.sound
  have nested := twins.sound.nested
  have levels' := twins.agrees.stack.levels
  have marked' := twins.agrees.marks
  cases levels : f.stack.levels with
  | nil =>
    have fails (h : FlatTape) (none : h.stack.levels = []) :
        resetRepeat h = .error (.noActiveRepeat .resetRepeat) h := by
      simp only [resetRepeat, none]
    rw [fails f levels, fails g (levels'.trans levels)]
    exact ⟨rfl, twins⟩
  | cons level outer =>
    cases marked : f.marks with
    | nil =>
      rw [levels, marked] at nested
      cases nested
    | cons marks rest =>
      rw [levels, marked] at nested
      obtain _ | ⟨freePush, -, -, -⟩ := nested
      have resume : level.resume ≤ level.freePush :=
        freePush ▸ Nat.le_trans (Nat.le_max_left _ _) (Nat.le_add_right _ _)
      have enough : marks.savedBytes ≤ level.freePush := freePush ▸ Nat.le_add_left _ _
      rw [resetRepeat_eq levels marked] at sound ⊢
      rw [resetRepeat_eq (levels'.trans levels) (marked'.trans marked)]
      exact ⟨rfl, sound, twins.agrees.restarted levels resume enough⟩

/-- Closing a level is the same on tapes that agree. -/
lemma parallel_endRepeat : Parallel Twins endRepeat := by
  intro f g twins _ _
  have levels' := twins.agrees.stack.levels
  cases levels : f.stack.levels with
  | nil =>
    have fails (h : FlatTape) (none : h.stack.levels = []) :
        endRepeat h = .error (.noActiveRepeat .endRepeat) h := by
      simp only [endRepeat, none]
    rw [fails f levels, fails g (levels'.trans levels)]
    exact ⟨rfl, twins⟩
  | cons level outer =>
    have sound := sound_performFlat .endRepeat twins.sound
    have same (h : FlatTape) : after (Call.endRepeat.performFlat h) = after (endRepeat h) :=
      after_answer _ _ h
    have nested := twins.sound.nested
    have back := twins.sound.back level outer levels
    rw [levels] at nested
    generalize f.marks = marks at nested
    have ends (h : FlatTape) (e : h.stack.levels = level :: outer) : endRepeat h =
        .ok () { h with stack := h.stack.ended level outer, marks := h.marks.tail } := by
      simp only [endRepeat, e]
    rw [same, ends f levels] at sound
    rw [ends f levels, ends g (levels'.trans levels)]
    -- closing a level moves the cursor to `backPop`, which is below what both stacks show
    have outward : FlatStack.Agrees
        { f.stack with cursor := level.backPop.getD f.stack.cursor, levels := outer }
        { g.stack with cursor := level.backPop.getD g.stack.cursor, levels := outer } := by
      refine twins.agrees.stack.lower rfl rfl ?_ rfl (Nat.max_le.2 ⟨?_, ?_⟩)
      · exact congrArg level.backPop.getD twins.agrees.stack.cursor
      · cases e : level.backPop with
        | none => exact Nat.le_max_left _ _
        | some l =>
          rw [FlatStack.frontier, levels]
          exact Nat.le_trans (Nat.le_of_lt (back l e)) (Nat.le_max_right _ _)
      · rw [FlatStack.frontier, levels]
        exact Nat.le_trans nested.floor_le (Nat.le_max_right _ _)
    refine ⟨rfl, sound, outward.rejoined ?_, twins.agrees.valid, twins.agrees.bits, ?_,
      twins.agrees.capacity⟩
    · rintro x xs (rfl : outer = x :: xs)
      obtain _ | ⟨-, -, -, nested⟩ := nested
      obtain _ | ⟨-, backPop, -, -⟩ := nested
      exact backPop
    · exact congrArg List.tail twins.agrees.marks

/-- Every call but a seek answers the same on sound tapes that agree, and leaves tapes that agree.
-/
lemma parallel_performFlat {c : Call} (stays : c.seeks = false) :
    Parallel Twins c.performFlat := by
  cases c with
  | push k value => exact Parallel.seq (parallel_push k value) fun _ => .ret _
  | pop k => exact Parallel.seq (parallel_pop k) fun _ => .ret _
  | pushBit bit => exact Parallel.seq (parallel_pushBit bit) fun _ => .ret _
  | popBit => exact Parallel.seq parallel_popBit fun _ => .ret _
  | pushControl value width =>
    simp only [Call.performFlat]
    split
    case isTrue => exact Parallel.seq (parallel_pushBits _) fun _ => .ret _
    case isFalse => exact Parallel.fail _
  | popControl width =>
    simp only [Call.performFlat]
    split
    case isTrue => exact Parallel.seq (parallel_popBits width 0) fun _ => .ret _
    case isFalse => exact Parallel.fail _
  | pushArray k values => exact Parallel.seq (parallel_onStack_push _ true) fun _ => .ret _
  | popArray k count => exact Parallel.seq (parallel_onStack_pop _ true) fun _ => .ret _
  | pushBytes data isProtected =>
    exact Parallel.seq (parallel_onStack_push data isProtected) fun _ => .ret _
  | popBytes count isProtected =>
    exact Parallel.seq (parallel_onStack_pop count isProtected) fun _ => .ret _
  | startRepeat => exact Parallel.seq parallel_startRepeat fun _ => .ret _
  | resetRepeat => exact Parallel.seq parallel_resetRepeat fun _ => .ret _
  | endRepeat => exact Parallel.seq parallel_endRepeat fun _ => .ret _
  | setLocation l => cases stays

end FlatTape

end AdjointTape

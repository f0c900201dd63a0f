import AdjointTape.Proofs.Buffers
import AdjointTape.Proofs.Session
import Mathlib.Algebra.Ring.Nat

/-!
# Saving the buffers and taking them back

A repeat level saves the buffers kind by kind, as one chunk of bytes each, and a restart takes the
chunks back in the opposite order.  The chunks fit into what a level protects, so a restart never
runs out of bytes, and the tape with its blocks opens, restarts and closes levels as flat memory
does.
-/

open AdjointTape.Action

namespace AdjointTape

/-! ## The size of what is saved -/

namespace Marks

/-- The bytes that are saved for a kind. -/
def bytes (m : Marks) (kind : Kind) : Nat :=
  match kind.scalar? with
  | some k => m.get kind * k.width
  | none => if m.get kind = 0 then 0 else 4

/-- The bytes that are saved for kinds. -/
def bytesOf (m : Marks) (kinds : List Kind) : Nat := (kinds.map m.bytes).sum

/-- The bytes that are saved for all kinds. -/
def savedBytes (m : Marks) : Nat := m.bytesOf Kind.all

/-- Fill indices of buffers that are not full. -/
structure Within (capacity : Nat) (m : Marks) : Prop where
  scalar : ∀ {kind k}, kind.scalar? = some k → m.get kind < capacity
  bit : m.bit < BitBuffer.wordBits

/-- The order of the kinds does not matter to the number of bytes. -/
lemma bytesOf_reverse (m : Marks) (kinds : List Kind) :
    m.bytesOf kinds.reverse = m.bytesOf kinds := by
  rw [bytesOf, bytesOf, List.map_reverse, List.sum_reverse]

end Marks

/-- The kind of scalars stands for them. -/
lemma ScalarKind.scalar?_toKind (k : ScalarKind) : k.toKind.scalar? = some k := by
  cases k <;> rfl

namespace FlatTape

/-- Taking a kind back moves the cursor below its bytes. -/
lemma stack_takeBack (f : FlatTape) (marks : Marks) (kind : Kind) :
    (f.takeBack kind (marks.get kind)).stack =
      f.stack.seek (f.stack.cursor - marks.bytes kind) := by
  rw [takeBack, Marks.bytes]
  cases kind.scalar? with
  | some k => rfl
  | none =>
    dsimp only
    split <;> rfl

/-- Taking back moves the cursor below the bytes that were saved. -/
lemma stack_takeBackEach (f : FlatTape) (marks : Marks) (kinds : List Kind) :
    (f.takeBackEach marks kinds).stack = f.stack.seek (f.stack.cursor - marks.bytesOf kinds) := by
  induction kinds generalizing f with
  | nil => rfl
  | cons kind rest ih =>
    rw [takeBackEach, ih, stack_takeBack, Marks.bytesOf, Marks.bytesOf, List.map_cons,
      List.sum_cons, ← Nat.sub_sub]
    rfl

end FlatTape

/-! ## Saving -/

namespace FlatStack

/-- A stack whose cursor is within its blocks has them for what lies below. -/
lemma hasRoom_of_le {s : FlatStack} {l : Location}
    (h : ByteStack.blocksBelow s.blockSize l ≤ s.blocks) :
    s.hasRoom l = true := by
  simp only [hasRoom, h, true_or, decide_true]

/-- Where the blocks are there already no more are taken. -/
lemma grown_of_le {s : FlatStack} {l : Location}
    (h : ByteStack.blocksBelow s.blockSize l ≤ s.blocks) :
    s.grown l = s := by
  obtain ⟨bytes, cursor, levels, traffic, blockSize, blocks, ⟨limit, live⟩⟩ := s
  simp only [grown, Memory.take, Nat.max_eq_left h, Nat.sub_eq_zero_of_le h, Nat.add_zero]

/-- Nothing can be pushed where the cursor has its blocks. -/
lemma push_nil {s : FlatStack} (h : ByteStack.blocksBelow s.blockSize s.cursor ≤ s.blocks) :
    push [] false s = .ok () s := by
  have room : s.hasRoom ((s.start false).cursor + ([] : List UInt8).length) = true :=
    hasRoom_of_le h
  rw [push, if_pos room]
  have same : s.pushed [] false = (s.grown s.cursor).put [] := rfl
  rw [same, grown_of_le h, put, ByteMap.write_nil]
  rfl

/-- Saving chunks takes no bytes out of reach. -/
lemma grows_pushEach (chunks : List (List UInt8)) : Grows (FlatTape.pushEach chunks) := by
  induction chunks with
  | nil => exact fun _ => Nat.le_refl _
  | cons chunk rest ih =>
    exact Steps.seq (R := fun s s' : FlatStack => s.capacity ≤ s'.capacity)
      (fun _ _ _ => Nat.le_trans) (grows_push chunk false) fun _ => ih

end FlatStack

/-- A well-formed stack has the blocks for what lies below its cursor. -/
lemma ByteStack.WellFormed.blocksBelow_le {s : ByteStack} (wf : s.WellFormed) :
    ByteStack.blocksBelow s.flat.blockSize s.flat.cursor ≤ s.flat.blocks :=
  ByteStack.blocksBelow_le wf.chain.positive wf.chain.inhabited wf.location_le

/-- A pop is met where enough bytes lie below the cursor. -/
lemma ByteStack.popBytes_ok {s : ByteStack} (wf : s.WellFormed) (isProtected : Bool) {count : Nat}
    (enough : count ≤ s.flat.cursor) :
    ∃ s', popBytes count isProtected s = .ok (s.flat.top count) s' ∧ s'.WellFormed ∧
      s'.flat = s.flat.popped count isProtected := by
  obtain ⟨wf1, e1⟩ := popBytes_commutes count isProtected s wf
  have few : ¬ s.flat.cursor < count := Nat.not_lt.2 enough
  have run : through flat (popBytes count isProtected s) =
      .ok (s.flat.top count) (s.flat.popped count isProtected) := by
    rw [e1]
    exact if_neg few
  obtain ⟨s1, r1, view1⟩ := of_through_ok run
  rw [r1] at wf1
  exact ⟨s1, r1, wf1, view1⟩

/-- The values put over the first slots of a buffer are its valid ones. -/
lemma TypedBuffer.valid_overwrite {k : ScalarKind} (items : Array k.Carrier)
    (values : List k.Carrier)
    (h : values.length ≤ items.size) :
    TypedBuffer.valid ⟨overwrite items 0 values, values.length⟩ = values := by
  rw [valid_eq]
  apply List.ext_getElem?
  intro i
  by_cases hi : i < values.length
  · rw [List.getElem?_take_of_lt hi, Array.getElem?_toList, getElem?_overwrite]
    simp [hi, Nat.lt_of_lt_of_le hi h]
  · rw [List.getElem?_eq_none (by simp; omega), List.getElem?_eq_none (by omega)]

namespace Tape

/-- Saving the bits commutes with the view. -/
lemma saveBits_commutes (b : BitBuffer) :
    Commutes ByteStack.WellFormed ByteStack.flat b.save
      (FlatStack.push (if b.index = 0 then [] else BitBuffer.encode b.word) false) := by
  intro s wf
  by_cases empty : b.index = 0
  · rw [BitBuffer.save, if_pos empty, if_pos empty, FlatStack.push_nil wf.blocksBelow_le]
    exact ⟨wf, rfl⟩
  · rw [BitBuffer.save, if_neg empty, if_neg empty]
    exact ByteStack.pushBytes_commutes _ _ s wf

/-- Saving a buffer commutes with the view. -/
lemma saveBuffer_commutes (t : Tape) (k : ScalarKind) :
    Commutes ByteStack.WellFormed ByteStack.flat (t.area.get k).save
      (FlatStack.push (t.flat.chunk k.toKind) false) := by
  have chunk : t.flat.chunk k.toKind = k.encodeAll (t.area.get k).valid := by
    simp only [FlatTape.chunk, ScalarKind.scalar?_toKind, flat, List.reverse_reverse]
  rw [chunk]
  exact ByteStack.pushBytes_commutes _ _

/-- Saving the area pushes the chunks of all kinds. -/
lemma save_commutes (t : Tape) :
    Commutes ByteStack.WellFormed ByteStack.flat t.area.save
      (FlatTape.pushEach (Kind.all.map t.flat.chunk)) := by
  have last : (FlatStack.push (t.flat.chunk .pointer) false >>= fun _ => pure ()) =
      FlatStack.push (t.flat.chunk .pointer) false := bind_pure_unit
  simp only [Kind.all, List.map_cons, List.map_nil, FlatTape.pushEach]
  refine Commutes.seq (t.saveBuffer_commutes .integer4) fun _ => ?_
  refine Commutes.seq (t.saveBuffer_commutes .integer8) fun _ => ?_
  refine Commutes.seq (t.saveBuffer_commutes .real4) fun _ => ?_
  refine Commutes.seq (t.saveBuffer_commutes .real8) fun _ => ?_
  refine Commutes.seq (t.saveBuffer_commutes .complex8) fun _ => ?_
  refine Commutes.seq (t.saveBuffer_commutes .complex16) fun _ => ?_
  refine Commutes.seq (t.saveBuffer_commutes .character) fun _ => ?_
  refine Commutes.seq (saveBits_commutes t.area.bits) fun _ => ?_
  rw [last]
  exact t.saveBuffer_commutes .pointer

/-- The marks are the fill indices of the view. -/
lemma WellFormed.fill {t : Tape} (wf : t.WellFormed) : t.flat.fill = t.area.marks := by
  have length (k : ScalarKind) : (t.flat.valid k).length = (t.area.get k).index := by
    rw [flat, List.length_reverse, (wf.buffers k).length_valid]
  have index (k : ScalarKind) : t.flat.index k.toKind = (t.area.get k).index := by
    rw [← length k, FlatTape.index, ScalarKind.scalar?_toKind]
  rw [FlatTape.fill, StagingArea.marks]
  congr 1
  · exact index .integer4
  · exact index .integer8
  · exact index .real4
  · exact index .real8
  · exact index .complex8
  · exact index .complex16
  · exact index .character
  · exact index .pointer

/-- Opening a level commutes with the view. -/
lemma startRepeat_commutes : Commutes WellFormed flat startRepeat FlatTape.startRepeat := by
  intro t wf
  let pending : PendingLevel := { resume := t.stack.location }
  let back : Failure → Action Tape Unit := fun e => do
    onStack (ByteStack.abandonRepeat pending)
    throw e
  obtain ⟨wf1, e1⟩ := ByteStack.beginRepeat_commutes t.stack wf.stack
  obtain ⟨s1, r1, view1⟩ := of_through_ok e1
  have begun : onStack ByteStack.beginRepeat t = .ok pending { t with stack := s1 } := by
    rw [onStack_eq, r1]
    rfl
  rw [r1] at wf1
  obtain ⟨wf2, e2⟩ := t.save_commutes s1 wf1
  have saved : saveArea { t with stack := s1 } =
      through (fun stack => { t with stack }) (t.area.save s1) := onStack_eq _ _
  -- saving takes no blocks away, so the level resumes within them
  have within : pending.resume ≤ (after (t.area.save s1)).chain.capacity := by
    have grows := FlatStack.grows_pushEach (Kind.all.map t.flat.chunk) s1.flat
    rw [← e2, after_through, view1] at grows
    exact Nat.le_trans wf.stack.location_le grows
  rw [startRepeat, bind_ok begun, inspect_bind, FlatTape.startRepeat,
    show t.flat.stack = t.stack.flat from rfl, ← view1, ← e2]
  cases r2 : t.area.save s1 with
  | ok _ s2 =>
    rw [r2] at wf2 saved within
    obtain ⟨wf3, e3⟩ := ByteStack.commitRepeat_commutes wf2 within
    obtain ⟨s3, r3, view3⟩ := of_through_ok e3
    rw [r3] at wf3
    have opened : onStack (ByteStack.commitRepeat pending) { t with stack := s2 } =
        .ok () { t with stack := s3 } := by
      rw [onStack_eq]
      exact congrArg (through _) r3
    rw [bind_ok (tryCatch_ok saved), bind_ok opened]
    refine ⟨⟨wf3, wf.buffers⟩, ?_⟩
    simp only [update, through_ok, flat, view3, ← wf.fill]
    rfl
  | error err s2 =>
    rw [r2] at wf2 saved within
    obtain ⟨wf3, e3⟩ := ByteStack.abandonRepeat_commutes wf2 within
    obtain ⟨s3, r3, view3⟩ := of_through_ok e3
    rw [r3] at wf3
    have dropped : onStack (ByteStack.abandonRepeat pending) { t with stack := s2 } =
        .ok () { t with stack := s3 } := by
      rw [onStack_eq]
      exact congrArg (through _) r3
    -- the handler puts the cursor back and fails with the same error
    have failed : tryCatch saveArea back { t with stack := s1 } =
        .error err { t with stack := s3 } := by
      rw [tryCatch_error saved]
      exact bind_ok dropped
    rw [bind_error failed]
    refine ⟨⟨wf3, wf.buffers⟩, ?_⟩
    simp only [through_error, flat, view3]
    rfl

/-- Closing a level commutes with the view. -/
lemma endRepeat_commutes : Commutes WellFormed flat endRepeat FlatTape.endRepeat := by
  intro t wf
  obtain ⟨wf1, e1⟩ := ByteStack.endRepeat_commutes t.stack wf.stack
  have run := onStack_eq t ByteStack.endRepeat
  simp only [FlatStack.endRepeat, ByteStack.flat_levels] at e1
  simp only [FlatTape.endRepeat]
  rw [show t.flat.stack = t.stack.flat from rfl, ByteStack.flat_levels]
  cases levels : t.stack.levels with
  | nil =>
    rw [levels] at e1
    obtain ⟨s1, r1, view1⟩ := of_through_error e1
    rw [r1] at run wf1
    rw [endRepeat, bind_error run]
    refine ⟨⟨wf1, wf.buffers⟩, ?_⟩
    simp only [through_error, flat, view1]
  | cons level outer =>
    rw [levels] at e1
    obtain ⟨s1, r1, view1⟩ := of_through_ok e1
    rw [r1] at run wf1
    rw [endRepeat, bind_ok run]
    refine ⟨⟨wf1, wf.buffers⟩, ?_⟩
    simp only [update, through_ok, flat, view1]

/-! ## Taking the buffers back -/

/-- Takes back what was saved for a kind. -/
def restoreKind (kind : Kind) (count : Nat) : Action (StagingArea × ByteStack) Unit :=
  match kind.scalar? with
  | some k => StagingArea.onBuffer k (TypedBuffer.restore count)
  | none => StagingArea.onBits (BitBuffer.restore count)

/-- Takes back what was saved, kind by kind. -/
def restoreEach (marks : Marks) : List Kind → Action Tape Unit
  | [] => pure ()
  | kind :: rest => do
    onArea (restoreKind kind (marks.get kind))
    restoreEach marks rest

/-- Calls on the buffers one behind the other are one call on them. -/
lemma onArea_bind {α β : Type} (x : Action (StagingArea × ByteStack) α)
    (f : α → Action (StagingArea × ByteStack) β) :
    onArea (x >>= f) = (onArea x >>= fun a => onArea (f a)) := by
  funext t
  simp only [onArea, bind, EStateM.bind]
  cases x (t.area, t.stack) <;> rfl

/-- Buffers are taken back kind by kind, the last kind first. -/
lemma onArea_restore (marks : Marks) :
    onArea (StagingArea.restore marks) = restoreEach marks Kind.all.reverse := by
  have last : (onArea (restoreKind .integer4 marks.integer4) >>= fun _ => pure ()) =
      onArea (restoreKind .integer4 marks.integer4) := bind_pure_unit
  simp only [StagingArea.restore, onArea_bind, Kind.all, List.reverse_cons, List.reverse_nil,
    List.nil_append, List.cons_append, restoreEach, Marks.get, last]
  rfl

/-- What was saved for a kind comes back where enough bytes lie below the cursor. -/
lemma restoreKind_spec {t : Tape} (wf : t.WellFormed) {marks : Marks} {kind : Kind}
    (within : marks.Within t.geometry.capacity) (enough : marks.bytes kind ≤ t.flat.stack.cursor) :
    ∃ t', onArea (restoreKind kind (marks.get kind)) t = .ok () t' ∧ t'.WellFormed ∧
      t'.flat = t.flat.takeBack kind (marks.get kind) ∧ t'.geometry = t.geometry := by
  cases e : kind.scalar? with
  | some k =>
    simp only [Marks.bytes, e] at enough
    have below := within.scalar e
    generalize marks.get kind = count at enough below
    obtain ⟨s1, r1, wf1, view1⟩ := ByteStack.popBytes_ok wf.stack false enough
    have fits := wf.buffers k
    rcases b : t.area.get k with ⟨items, index⟩
    rw [b] at fits
    have size : items.size = t.geometry.capacity := fits.size
    have run := onBuffer_eq t k (TypedBuffer.restore count)
    simp only [b, TypedBuffer.restore, r1, through_ok] at run
    simp only [restoreKind, FlatTape.takeBack, e]
    refine ⟨_, run, ?_, ?_, rfl⟩
    · exact wf.withBuffer wf1 ⟨(size_overwrite _ _ _).trans size, below⟩
    · have length :
          (k.decodeAll count (t.stack.flat.top (count * k.width))).toList.length = count := by
        rw [Array.length_toList, k.size_decodeAll]
      have valid := TypedBuffer.valid_overwrite items
        (k.decodeAll count (t.stack.flat.top (count * k.width))).toList
        (by rw [length, size]; exact Nat.le_of_lt below)
      rw [length] at valid
      rw [flat_withBuffer, valid, view1]
      rfl
  | none =>
    have run := onBits_eq t (BitBuffer.restore (marks.get kind))
    simp only [Marks.bytes, e] at enough
    simp only [restoreKind, FlatTape.takeBack, e]
    by_cases empty : marks.get kind = 0
    · simp only [BitBuffer.restore, if_pos empty, through_ok] at run
      simp only [if_pos empty]
      exact ⟨_, run, wf.withBits wf.stack _, flat_withBits _ _ _, rfl⟩
    · rw [if_neg empty] at enough
      obtain ⟨s1, r1, wf1, view1⟩ := ByteStack.popBytes_ok wf.stack false enough
      simp only [BitBuffer.restore, if_neg empty, r1, through_ok] at run
      simp only [if_neg empty]
      refine ⟨_, run, wf.withBits wf1 _, ?_, rfl⟩
      rw [flat_withBits, view1]
      rfl

/-- Taking back succeeds where enough was saved, and commutes with the view. -/
lemma restoreEach_spec {t : Tape} {marks : Marks} (kinds : List Kind) (wf : t.WellFormed)
    (within : marks.Within t.geometry.capacity)
    (enough : marks.bytesOf kinds ≤ t.flat.stack.cursor) :
    ∃ t', restoreEach marks kinds t = .ok () t' ∧ t'.WellFormed ∧
      t'.flat = t.flat.takeBackEach marks kinds := by
  induction kinds generalizing t with
  | nil => exact ⟨t, rfl, wf, rfl⟩
  | cons kind rest ih =>
    rw [Marks.bytesOf, List.map_cons, List.sum_cons] at enough
    obtain ⟨t1, r1, wf1, view1, geometry1⟩ := restoreKind_spec wf within
      (Nat.le_trans (Nat.le_add_right _ _) enough)
    have enough1 : marks.bytesOf rest ≤ t1.flat.stack.cursor := by
      rw [view1, FlatTape.stack_takeBack]
      exact Nat.le_sub_of_add_le' enough
    obtain ⟨t2, r2, wf2, view2⟩ := ih wf1 (geometry1 ▸ within) enough1
    rw [restoreEach, bind_ok r1]
    exact ⟨t2, r2, wf2, by rw [view2, view1, FlatTape.takeBackEach]⟩

/-- Restarting a level whose saved buffers lie below its `freePush`. -/
lemma resetRepeat_commutes {t : Tape} (wf : t.WellFormed)
    (saved : ∀ level outer marks rest, t.stack.levels = level :: outer → t.marks = marks :: rest →
      marks.Within t.geometry.capacity ∧ marks.savedBytes ≤ level.freePush) :
    (after (resetRepeat t)).WellFormed ∧ through flat (resetRepeat t) = t.flat.resetRepeat := by
  obtain ⟨wf1, e1⟩ := ByteStack.beginReset_commutes t.stack wf.stack
  have run := onStack_eq t ByteStack.beginReset
  simp only [FlatStack.beginReset, ByteStack.flat_levels] at e1
  simp only [FlatTape.resetRepeat]
  rw [show t.flat.stack = t.stack.flat from rfl, ByteStack.flat_levels,
    show t.flat.marks = t.marks from rfl]
  cases levels : t.stack.levels with
  | nil =>
    rw [levels] at e1
    obtain ⟨s1, r1, view1⟩ := of_through_error e1
    rw [r1] at run wf1
    rw [resetRepeat, bind_error run]
    refine ⟨⟨wf1, wf.buffers⟩, ?_⟩
    simp only [through_error, flat, view1]
  | cons level outer =>
    rw [levels] at e1
    obtain ⟨s1, r1, view1⟩ := of_through_ok e1
    rw [r1] at run wf1
    rw [resetRepeat, bind_ok run, inspect_bind]
    cases marked : t.marks with
    | nil =>
      refine ⟨⟨wf1, wf.buffers⟩, congrArg (EStateM.Result.error Failure.damaged) ?_⟩
      rw [← marked]
      exact (flat_withStack t s1).trans (by rw [view1]; rfl)
    | cons marks rest =>
      obtain ⟨within, enough⟩ := saved level outer marks rest levels marked
      simp only [List.head?_cons, onArea_restore]
      rw [← marked]
      have wf2 : WellFormed { t with stack := s1 } := ⟨wf1, wf.buffers⟩
      have cursor1 : (flat { t with stack := s1 }).stack.cursor = level.freePush := by
        rw [flat_withStack, view1]
        rfl
      obtain ⟨t3, r3, wf3, view3⟩ := restoreEach_spec Kind.all.reverse wf2 within (by
        rw [cursor1, Marks.bytesOf_reverse]
        exact enough)
      obtain ⟨wf4, e4⟩ := onStack_commutes ByteStack.finishReset_commutes t3 wf3
      have levels3 : t3.flat.stack.levels = { level with backPop := none } :: outer := by
        rw [view3, FlatTape.stack_takeBackEach, flat_withStack, view1]
        rfl
      rw [bind_ok r3]
      refine ⟨wf4, e4.trans ?_⟩
      simp only [FlatTape.onStack, FlatStack.finishReset, levels3]
      rw [view3, flat_withStack, view1]
      rfl

end Tape

end AdjointTape

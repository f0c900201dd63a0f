import AdjointTape.Proofs.FlatTape
import AdjointTape.Proofs.Transparency

/-!
# The tape and its flat view

A tape is well formed when its byte stack is and every buffer has the capacity of the tape, with
room for one more value.  The flat view forgets the blocks and the stale slots.  Pushes and pops of
scalars, bits and byte strings commute with those on flat memory.
-/

open AdjointTape.Action

namespace AdjointTape

/-- A buffer of the given capacity that has room for one more value. -/
structure TypedBuffer.Fits {k : ScalarKind} (capacity : Nat) (b : TypedBuffer k) : Prop where
  size : b.items.size = capacity
  index : b.index < capacity

/-- Every kind takes at least a byte. -/
lemma ScalarKind.width_pos (k : ScalarKind) : 0 < k.width := by
  cases k <;> decide

/-- Decoding adds as many values as were asked for. -/
lemma ScalarKind.size_decodeOnto (k : ScalarKind) (count : Nat) (bytes : List UInt8)
    (done : Array k.Carrier) : (k.decodeOnto count bytes done).size = done.size + count := by
  induction count generalizing bytes done with
  | zero => rfl
  | succ count ih =>
    rw [decodeOnto, ih, Array.size_push]
    omega

/-- Decoding gives as many values as were asked for. -/
lemma ScalarKind.size_decodeAll (k : ScalarKind) (count : Nat) (bytes : List UInt8) :
    (k.decodeAll count bytes).size = count := by
  rw [decodeAll, size_decodeOnto]
  simp

namespace TypedBuffer

variable {k : ScalarKind}

/-- The values that are buffered are the slots below the fill index. -/
lemma valid_eq (b : TypedBuffer k) : b.valid = b.items.toList.take b.index := by
  simp [valid]

/-- A buffer that fits holds as many values as its index says. -/
lemma Fits.length_valid {capacity : Nat} {b : TypedBuffer k} (fits : b.Fits capacity) :
    b.valid.length = b.index := by
  have size := fits.size
  have index := fits.index
  rw [valid_eq, List.length_take, Array.length_toList]
  omega

/-- An empty buffer holds nothing. -/
lemma valid_empty (items : Array k.Carrier) : valid ⟨items, 0⟩ = [] := by
  simp [valid_eq]

/-- A slot at the fill index is not held yet. -/
lemma valid_set (items : Array k.Carrier) (index : Nat) (value : k.Carrier) :
    valid ⟨items.setIfInBounds index value, index⟩ = valid ⟨items, index⟩ := by
  simp only [valid_eq, Array.toList_setIfInBounds]
  rw [List.take_set_of_le (Nat.le_refl _)]

/-- A value written at the fill index becomes valid with it. -/
lemma valid_set_succ (items : Array k.Carrier) {index : Nat} (value : k.Carrier)
    (h : index < items.size) :
    valid ⟨items.setIfInBounds index value, index + 1⟩ = valid ⟨items, index⟩ ++ [value] := by
  simp only [valid_eq, Array.toList_setIfInBounds]
  rw [List.take_add_one, List.take_set_of_le (Nat.le_refl _)]
  simp [h]

/-- One more slot is held when the fill index moves up. -/
lemma valid_succ (items : Array k.Carrier) {index : Nat} (h : index < items.size) :
    valid ⟨items, index + 1⟩ = valid ⟨items, index⟩ ++ [items.getD index k.zero] := by
  simp only [valid_eq, List.take_add_one]
  simp [h]

/-- A buffer whose last slot is written has the valid values and that one. -/
lemma toList_full (items : Array k.Carrier) {index : Nat} (value : k.Carrier)
    (h : index + 1 = items.size) :
    (items.setIfInBounds index value).toList = valid ⟨items, index⟩ ++ [value] := by
  rw [← valid_set_succ items value (by omega), valid_eq]
  exact (List.take_of_length_le (by simp; omega)).symm

end TypedBuffer

namespace Tape

/-- The byte stack is well formed and every buffer fits. -/
structure WellFormed (t : Tape) : Prop where
  stack : t.stack.WellFormed
  buffers : ∀ k, (t.area.get k).Fits t.geometry.capacity

/-- The tape without blocks and stale slots. -/
def flat (t : Tape) : FlatTape where
  stack := t.stack.flat
  valid := fun k => (t.area.get k).valid.reverse
  bits := t.area.bits
  marks := t.marks
  capacity := t.geometry.capacity
  buffered := t.buffered

/-! ## Parts of a tape -/

/-- The tape with another buffer for a kind, and another stack. -/
def withBuffer (k : ScalarKind) (b : TypedBuffer k) (stack : ByteStack) (t : Tape) : Tape :=
  { t with stack, area := t.area.set k b }

/-- The tape with other buffered bits, and another stack. -/
def withBits (bits : BitBuffer) (stack : ByteStack) (t : Tape) : Tape :=
  { t with stack, area := { t.area with bits } }

section Parts

variable {t : Tape} (wf : t.WellFormed) {stack : ByteStack} (hs : stack.WellFormed)
include wf hs

/-- A tape stays well formed on another well-formed stack. -/
lemma WellFormed.withStack : WellFormed { t with stack } := ⟨hs, wf.buffers⟩

/-- A tape stays well formed with another buffer that fits. -/
lemma WellFormed.withBuffer {k : ScalarKind} {b : TypedBuffer k}
    (hb : b.Fits t.geometry.capacity) : (t.withBuffer k b stack).WellFormed := by
  refine ⟨hs, fun j => ?_⟩
  by_cases e : j = k
  · subst e
    simpa only [Tape.withBuffer, StagingArea.get_set] using hb
  · simpa only [Tape.withBuffer, StagingArea.get_set_of_ne _ _ e] using wf.buffers j

/-- A tape stays well formed with any bits. -/
lemma WellFormed.withBits (bits : BitBuffer) : (t.withBits bits stack).WellFormed := by
  refine ⟨hs, fun k => ?_⟩
  have e : (t.withBits bits stack).area.get k = t.area.get k := by cases k <;> rfl
  rw [e]
  exact wf.buffers k

end Parts

/-- Another stack shows in the view as such. -/
lemma flat_withStack (t : Tape) (stack : ByteStack) :
    flat { t with stack } = { t.flat with stack := stack.flat } := rfl

/-- Another buffer shows in the view by the values that it holds. -/
lemma flat_withBuffer (t : Tape) {k : ScalarKind} (b : TypedBuffer k) (stack : ByteStack) :
    (t.withBuffer k b stack).flat =
      { t.flat with stack := stack.flat }.hold k b.valid.reverse := by
  have e : (fun j => ((t.area.set k b).get j).valid.reverse) =
      Function.update (fun j => (t.area.get j).valid.reverse) k b.valid.reverse := by
    funext j
    by_cases h : j = k
    · subst h
      rw [StagingArea.get_set, Function.update_self]
    · rw [StagingArea.get_set_of_ne _ _ h, Function.update_of_ne h]
  have bits : (t.area.set k b).bits = t.area.bits := by cases k <;> rfl
  simp only [flat, withBuffer, FlatTape.hold, e, bits]

/-- Other bits show in the view as such. -/
lemma flat_withBits (t : Tape) (bits : BitBuffer) (stack : ByteStack) :
    (t.withBits bits stack).flat = { t.flat with stack := stack.flat, bits } := by
  have e : ∀ k, (t.withBits bits stack).area.get k = t.area.get k := fun k => by cases k <;> rfl
  simp only [flat, e]
  rfl

/-- A call on the buffer of a kind reaches the tape as a new buffer and a new stack. -/
lemma onBuffer_eq {α : Type} (t : Tape) (k : ScalarKind)
    (call : Action (TypedBuffer k × ByteStack) α) :
    onArea (StagingArea.onBuffer k call) t =
      through (fun r => t.withBuffer k r.1 r.2) (call (t.area.get k, t.stack)) := by
  obtain ⟨geometry, stack, area, marks, buffered⟩ := t
  have set_set : ∀ b, (area.set k .vacant).set k b = area.set k b := fun b => by cases k <;> rfl
  simp only [onArea, StagingArea.onBuffer]
  cases call (area.get k, stack) with
  | ok a r => simp only [set_set, through_ok, withBuffer]
  | error e r => simp only [set_set, through_error, withBuffer]

/-- A call on the bit buffer is one on its part of the tape. -/
lemma onBits_eq {α : Type} (t : Tape) (call : Action (BitBuffer × ByteStack) α) :
    onArea (StagingArea.onBits call) t =
      through (fun r => t.withBits r.1 r.2) (call (t.area.bits, t.stack)) := by
  obtain ⟨geometry, stack, area, marks, buffered⟩ := t
  simp only [onArea, StagingArea.onBits]
  cases call (area.bits, stack) <;> rfl

/-- A call on the stack is one on its part of the tape. -/
lemma onStack_eq {α : Type} (t : Tape) (call : Action ByteStack α) :
    onStack call t = through (fun stack => { t with stack }) (call t.stack) := by
  simp only [onStack]
  cases call t.stack <;> rfl

/-- A call on the stack commutes with the view when it does so on the stack alone. -/
lemma onStack_commutes {α : Type} {call : Action ByteStack α} {call' : Action FlatStack α}
    (commutes : Commutes ByteStack.WellFormed ByteStack.flat call call') :
    Commutes WellFormed flat (onStack call) (FlatTape.onStack call') := by
  intro t wf
  obtain ⟨wf', e⟩ := commutes t.stack wf.stack
  rw [onStack_eq]
  cases r : call t.stack with
  | ok a stack =>
    rw [r] at wf' e
    simp only [FlatTape.onStack, flat, ← e, through_ok]
    exact ⟨wf.withStack wf', trivial⟩
  | error err stack =>
    rw [r] at wf' e
    simp only [FlatTape.onStack, flat, ← e, through_error]
    exact ⟨wf.withStack wf', trivial⟩

/-! ## Scalars -/

/-- Pushing a scalar commutes with the view. -/
lemma push_commutes (k : ScalarKind) (value : k.Carrier) :
    Commutes WellFormed flat (push k value) (FlatTape.push k value) := by
  intro t wf
  have fits := wf.buffers k
  rcases b : t.area.get k with ⟨items, index⟩
  have valid : t.flat.valid k = (TypedBuffer.valid ⟨items, index⟩).reverse := by rw [← b]; rfl
  rw [b] at fits
  have size : items.size = t.geometry.capacity := fits.size
  have below : index < t.geometry.capacity := fits.index
  have length : (TypedBuffer.valid ⟨items, index⟩).length = index := fits.length_valid
  have run := onBuffer_eq t k (TypedBuffer.push value)
  rw [b] at run
  simp only [TypedBuffer.push, Array.size_setIfInBounds, size] at run
  simp only [FlatTape.push, valid, List.length_reverse, length]
  have capacity : t.flat.capacity = t.geometry.capacity := rfl
  by_cases spills : t.geometry.capacity ≤ index + 1
  · have full : index + 1 = items.size := by omega
    -- the full array is the valid values and the one that was pushed
    have data : (items.setIfInBounds index value).toList =
        (value :: (TypedBuffer.valid ⟨items, index⟩).reverse).reverse := by
      rw [TypedBuffer.toList_full items value full, List.reverse_cons, List.reverse_reverse]
    rw [if_pos spills, data] at run
    rw [if_neg (by rw [capacity]; omega)]
    obtain ⟨wf1, e1⟩ := ByteStack.pushBytes_commutes
      (k.encodeAll (value :: (TypedBuffer.valid ⟨items, index⟩).reverse).reverse) true
      t.stack wf.stack
    rw [show t.flat.stack = t.stack.flat from rfl, ← e1]
    cases r : ByteStack.pushBytes
        (k.encodeAll (value :: (TypedBuffer.valid ⟨items, index⟩).reverse).reverse) true
        t.stack with
    | ok a stack =>
      rw [r] at run wf1
      have wf2 := wf.withBuffer (k := k) (b := ⟨items.setIfInBounds index value, 0⟩) wf1
        ⟨by simp [size], Nat.zero_lt_of_lt below⟩
      rw [push, bind_ok run]
      refine ⟨⟨wf2.stack, wf2.buffers⟩, ?_⟩
      have view := t.flat_withBuffer (k := k) ⟨items.setIfInBounds index value, 0⟩ stack
      rw [TypedBuffer.valid_empty, List.reverse_nil] at view
      simp only [through_ok, ← view]
      rfl
    | error err stack =>
      rw [r] at run wf1
      have wf2 := wf.withBuffer (k := k) (b := ⟨items.setIfInBounds index value, index⟩) wf1
        ⟨by simp [size], below⟩
      rw [push, bind_error run]
      refine ⟨wf2, ?_⟩
      have view := t.flat_withBuffer (k := k) ⟨items.setIfInBounds index value, index⟩ stack
      rw [TypedBuffer.valid_set, ← valid] at view
      simp only [through_error, view]
      simp only [FlatTape.hold, Function.update_eq_self]
  · rw [if_neg spills] at run
    rw [if_pos (by rw [capacity]; omega)]
    have wf1 := wf.withBuffer (k := k) (b := ⟨items.setIfInBounds index value, index + 1⟩) wf.stack
      ⟨by simp [size], by dsimp only; omega⟩
    rw [push, bind_ok run]
    refine ⟨⟨wf1.stack, wf1.buffers⟩, ?_⟩
    have view := t.flat_withBuffer (k := k) ⟨items.setIfInBounds index value, index + 1⟩ t.stack
    rw [TypedBuffer.valid_set_succ items value (size ▸ below), List.reverse_append,
      List.reverse_singleton, List.singleton_append] at view
    have same : { t.flat with stack := t.stack.flat } = t.flat := rfl
    rw [same] at view
    simp only [← view]
    rfl

/-- Popping a scalar commutes with the view. -/
lemma pop_commutes (k : ScalarKind) : Commutes WellFormed flat (pop k) (FlatTape.pop k) := by
  intro t wf
  have fits := wf.buffers k
  rcases b : t.area.get k with ⟨items, index⟩
  have valid : t.flat.valid k = (TypedBuffer.valid ⟨items, index⟩).reverse := by rw [← b]; rfl
  rw [b] at fits
  have size : items.size = t.geometry.capacity := fits.size
  have below : index < t.geometry.capacity := fits.index
  have run := onBuffer_eq t k TypedBuffer.pop
  rw [b] at run
  cases index with
  | zero =>
    simp only [TypedBuffer.pop, size] at run
    rw [TypedBuffer.valid_empty, List.reverse_nil] at valid
    simp only [FlatTape.pop, valid]
    obtain ⟨wf1, e1⟩ := ByteStack.popBytes_commutes (t.geometry.capacity * k.width) true t.stack
      wf.stack
    rw [show t.flat.stack = t.stack.flat from rfl,
      show t.flat.capacity = t.geometry.capacity from rfl,
      ← e1]
    cases r : ByteStack.popBytes (t.geometry.capacity * k.width) true t.stack with
    | ok bytes stack =>
      rw [r] at run wf1
      have count : (k.decodeAll t.geometry.capacity bytes).size = t.geometry.capacity :=
        k.size_decodeAll _ _
      have wf2 := wf.withBuffer (k := k)
        (b := ⟨k.decodeAll t.geometry.capacity bytes, t.geometry.capacity - 1⟩) wf1
        ⟨count, by dsimp only; omega⟩
      rw [pop, run]
      refine ⟨wf2, ?_⟩
      have last : (k.decodeAll t.geometry.capacity bytes).toList =
          TypedBuffer.valid ⟨k.decodeAll t.geometry.capacity bytes, t.geometry.capacity - 1⟩ ++
            [(k.decodeAll t.geometry.capacity bytes).getD (t.geometry.capacity - 1) k.zero] := by
        rw [← TypedBuffer.valid_succ _ (by omega), Nat.sub_add_cancel below, TypedBuffer.valid_eq]
        exact (List.take_of_length_le (by simp [count])).symm
      have view := t.flat_withBuffer (k := k)
        ⟨k.decodeAll t.geometry.capacity bytes, t.geometry.capacity - 1⟩ stack
      simp only [through_ok, view]
      rw [last, List.reverse_append, List.reverse_singleton, List.singleton_append]
      rfl
    | error err stack =>
      rw [r] at run wf1
      have wf2 := wf.withBuffer (k := k) (b := ⟨items, 0⟩) wf1 ⟨size, below⟩
      rw [pop, run]
      refine ⟨wf2, ?_⟩
      have view := t.flat_withBuffer (k := k) ⟨items, 0⟩ stack
      rw [TypedBuffer.valid_empty, List.reverse_nil, ← valid] at view
      simp only [through_error, view, FlatTape.hold, Function.update_eq_self]
      rfl
  | succ index =>
    simp only [TypedBuffer.pop] at run
    rw [TypedBuffer.valid_succ items (by omega), List.reverse_append, List.reverse_singleton,
      List.singleton_append] at valid
    simp only [FlatTape.pop, valid]
    have wf1 := wf.withBuffer (k := k) (b := ⟨items, index⟩) wf.stack ⟨size, by dsimp only; omega⟩
    rw [pop, run]
    exact ⟨wf1, by rw [through_ok, through_ok, flat_withBuffer]; rfl⟩

/-! ## Bits -/

/-- Pushing a bit commutes with the view. -/
lemma pushBit_commutes (bit : Bool) :
    Commutes WellFormed flat (pushBit bit) (FlatTape.pushBit bit) := by
  intro t wf
  have run := onBits_eq t (BitBuffer.push bit)
  simp only [BitBuffer.push] at run
  simp only [FlatTape.pushBit]
  have bits : t.flat.bits = t.area.bits := rfl
  rw [bits]
  by_cases spills : BitBuffer.wordBits ≤ t.area.bits.index + 1
  · rw [if_pos spills] at run
    rw [if_pos spills]
    obtain ⟨wf1, e1⟩ := ByteStack.pushBytes_commutes
      (BitBuffer.encode (BitBuffer.append t.area.bits.word bit)) true t.stack wf.stack
    rw [show t.flat.stack = t.stack.flat from rfl, ← e1]
    cases r : ByteStack.pushBytes (BitBuffer.encode (BitBuffer.append t.area.bits.word bit)) true
        t.stack with
    | ok a stack =>
      rw [r] at run wf1
      rw [pushBit, bind_ok run]
      exact ⟨wf.withBits wf1 .empty, by rw [pure_apply, through_ok, flat_withBits]; rfl⟩
    | error err stack =>
      rw [r] at run wf1
      rw [pushBit, bind_error run]
      exact ⟨wf.withBits wf1 t.area.bits, by rw [through_error, flat_withBits]; rfl⟩
  · rw [if_neg spills] at run
    rw [if_neg spills, pushBit, bind_ok run]
    exact ⟨wf.withBits wf.stack _, by rw [pure_apply, through_ok, flat_withBits]; rfl⟩

/-- Popping a bit commutes with the view. -/
lemma popBit_commutes : Commutes WellFormed flat popBit FlatTape.popBit := by
  intro t wf
  have run := onBits_eq t BitBuffer.pop
  rcases b : t.area.bits with ⟨word, index⟩
  have bits : t.flat.bits = ⟨word, index⟩ := b
  rw [b] at run
  simp only [FlatTape.popBit, bits]
  cases index with
  | zero =>
    simp only [BitBuffer.pop] at run
    obtain ⟨wf1, e1⟩ := ByteStack.popBytes_commutes 4 true t.stack wf.stack
    rw [show t.flat.stack = t.stack.flat from rfl, ← e1]
    cases r : ByteStack.popBytes 4 true t.stack with
    | ok bytes stack =>
      rw [r] at run wf1
      rw [popBit, run]
      exact ⟨wf.withBits wf1 _, by rw [through_ok, through_ok, flat_withBits]; rfl⟩
    | error err stack =>
      rw [r] at run wf1
      rw [popBit, run]
      exact ⟨wf.withBits wf1 _, by rw [through_error, through_error, flat_withBits, ← bits]; rfl⟩
  | succ index =>
    simp only [BitBuffer.pop] at run
    rw [popBit, run]
    exact ⟨wf.withBits wf.stack _, by rw [through_ok, through_ok, flat_withBits]; rfl⟩

/-- Pushing bits commutes with the view. -/
lemma pushBits_commutes (bits : List Bool) :
    Commutes WellFormed flat (pushBits bits) (FlatTape.pushBits bits) := by
  induction bits with
  | nil => exact Commutes.ret ()
  | cons bit rest ih => exact Commutes.seq (pushBit_commutes bit) fun _ => ih

/-- Popping bits commutes with the view. -/
lemma popBits_commutes (count value : Nat) :
    Commutes WellFormed flat (popBits count value) (FlatTape.popBits count value) := by
  induction count generalizing value with
  | zero => exact Commutes.ret value
  | succ count ih => exact Commutes.seq popBit_commutes fun _ => ih _

/-! ## Byte strings -/

/-- Pushing a byte string commutes with the view. -/
lemma pushBytes_commutes (data : List UInt8) (isProtected : Bool) :
    Commutes WellFormed flat (pushBytes data isProtected)
      (FlatTape.onStack (FlatStack.push data isProtected)) :=
  onStack_commutes (ByteStack.pushBytes_commutes data isProtected)

/-- Popping a byte string commutes with the view. -/
lemma popBytes_commutes (count : Nat) (isProtected : Bool) :
    Commutes WellFormed flat (popBytes count isProtected)
      (FlatTape.onStack (FlatStack.pop count isProtected)) :=
  onStack_commutes (ByteStack.popBytes_commutes count isProtected)

/-- Moving the cursor commutes with the view. -/
lemma setLocation_commutes (l : Location) :
    Commutes WellFormed flat (setLocation l) (FlatTape.onStack (FlatStack.setLocation l)) :=
  onStack_commutes (ByteStack.setLocation_commutes l)

end Tape

end AdjointTape

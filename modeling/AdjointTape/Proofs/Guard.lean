import AdjointTape.Proofs.Saving

/-!
# What the calls leave alone

A guarded step leaves every byte that the active level protects, and the open levels too; only the
redirect of the active one may open or close.  Every call but the unprotected push is guarded while
it opens or closes no level.  Levels are nested: each protects what the enclosing ones protect, and
behind that the buffers it saved.
-/

open AdjointTape.Action

namespace AdjointTape

/-- A level with its redirect opened, closed or left as it is. -/
structure RepeatLevel.Redirects (x y : RepeatLevel) : Prop where
  resume : y.resume = x.resume
  freePush : y.freePush = x.freePush
  backPop : ∀ l, y.backPop = some l → x.backPop = some l ∨ l < x.freePush

namespace RepeatLevel.Redirects

/-- A level that is left as it is. -/
lemma refl (x : RepeatLevel) : x.Redirects x := ⟨rfl, rfl, fun _ => .inl⟩

/-- What happens to a redirect can be put together. -/
lemma trans {x y z : RepeatLevel} (h : x.Redirects y) (h' : y.Redirects z) : x.Redirects z := by
  refine ⟨h'.resume.trans h.resume, h'.freePush.trans h.freePush, fun l e => ?_⟩
  obtain e | lt := h'.backPop l e
  · exact h.backPop l e
  · exact .inr (h.freePush ▸ lt)

/-- A redirect may be closed. -/
lemma closed (x : RepeatLevel) : x.Redirects { x with backPop := none } :=
  ⟨rfl, rfl, fun l e => by cases e⟩

/-- A level with the same redirect is the same level. -/
lemma eq {x y : RepeatLevel} (h : x.Redirects y) (backPop : y.backPop = x.backPop) : y = x := by
  obtain ⟨resume, freePush, _⟩ := y
  obtain rfl : resume = x.resume := h.resume
  obtain rfl : freePush = x.freePush := h.freePush
  exact congrArg _ backPop

end RepeatLevel.Redirects

/-- Levels that are the same but for the redirect of the active one. -/
inductive ActiveRedirects : List RepeatLevel → List RepeatLevel → Prop where
  | outermost : ActiveRedirects [] []
  | active {x y : RepeatLevel} {outer : List RepeatLevel} (redirects : x.Redirects y) :
    ActiveRedirects (x :: outer) (y :: outer)

namespace ActiveRedirects

/-- Levels that are left as they are. -/
lemma refl (levels : List RepeatLevel) : ActiveRedirects levels levels := by
  cases levels with
  | nil => exact .outermost
  | cons level outer => exact .active (.refl level)

variable {xs ys zs : List RepeatLevel}

/-- What happens to the active redirect can be put together. -/
lemma trans (h : ActiveRedirects xs ys) (h' : ActiveRedirects ys zs) : ActiveRedirects xs zs := by
  cases h with
  | outermost => exact h'
  | active first =>
    obtain _ | next := h'
    exact .active (first.trans next)

/-- A redirect does not change what is protected. -/
lemma floor_eq (h : ActiveRedirects xs ys) : FlatStack.floor ys = FlatStack.floor xs := by
  cases h with
  | outermost => rfl
  | active first => exact first.freePush

/-- A redirect opens no level and closes none. -/
lemma length_eq (h : ActiveRedirects xs ys) : ys.length = xs.length := by
  cases h <;> rfl

/-- A redirect does not touch the enclosing levels. -/
lemma tail_eq (h : ActiveRedirects xs ys) : ys.tail = xs.tail := by
  cases h <;> rfl

/-- Seen from an enclosing level, at most the redirect of that level changes. -/
lemma of_append {inner : List RepeatLevel} (h : ActiveRedirects (inner ++ xs) ys) :
    ∃ inner' xs', ys = inner' ++ xs' ∧ inner'.length = inner.length ∧ ActiveRedirects xs xs' := by
  cases inner with
  | nil => exact ⟨[], ys, rfl, rfl, h⟩
  | cons x inner =>
    obtain _ | redirects := h
    exact ⟨_ :: inner, xs, rfl, rfl, refl xs⟩

end ActiveRedirects

namespace FlatStack

/-- A step that leaves the bytes below the active `freePush`, and the levels but for the redirect of
the active one. -/
structure Guarded (s s' : FlatStack) : Prop where
  levels : ActiveRedirects s.levels s'.levels
  bytes : ∀ l < floor s.levels, s'.bytes l = s.bytes l

namespace Guarded

/-- A stack that is left alone. -/
lemma refl (s : FlatStack) : Guarded s s := ⟨.refl _, fun _ _ => rfl⟩

/-- Guarded steps can be put together. -/
lemma trans {s t u : FlatStack} (h : Guarded s t) (h' : Guarded t u) : Guarded s u := by
  refine ⟨h.levels.trans h'.levels, fun l below => ?_⟩
  rw [h'.bytes l (h.levels.floor_eq ▸ below), h.bytes l below]

end Guarded

/-! ## Guarded transfers -/

/-- A jump to the active `freePush` is guarded. -/
lemma guarded_redirected (s : FlatStack) : Guarded s s.redirected := by
  obtain ⟨bytes, cursor, levels, traffic, blockSize, blocks, memory⟩ := s
  cases levels with
  | nil => exact Guarded.refl _
  | cons level outer =>
    simp only [redirected]
    split
    case isTrue below =>
      -- the place left in `backPop` is the cursor, which was below `freePush`
      refine ⟨.active ⟨rfl, rfl, fun l e => .inr ?_⟩, fun _ _ => rfl⟩
      exact Option.some.inj e ▸ below
    case isFalse => exact Guarded.refl _

/-- A jump to the active `backPop` is guarded. -/
lemma guarded_rejoined (s : FlatStack) : Guarded s s.rejoined := by
  obtain ⟨bytes, cursor, levels, traffic, blockSize, blocks, memory⟩ := s
  cases levels with
  | nil => exact Guarded.refl _
  | cons level outer =>
    simp only [rejoined]
    split
    case h_1 => exact Guarded.refl _
    case h_2 =>
      split
      case isTrue => exact ⟨.active (.closed level), fun _ _ => rfl⟩
      case isFalse => exact Guarded.refl _

/-- After its jump a cursor is above what is protected. -/
lemma floor_le_redirected (s : FlatStack) : floor s.levels ≤ s.redirected.cursor := by
  obtain ⟨bytes, cursor, levels, traffic, blockSize, blocks, memory⟩ := s
  cases levels with
  | nil => exact Nat.zero_le _
  | cons level outer =>
    simp only [redirected, floor]
    split
    case isTrue => exact Nat.le_refl _
    case isFalse above => exact Nat.le_of_not_lt above

/-- Bytes that are put above what is protected leave it alone. -/
lemma guarded_put {s : FlatStack} (data : List UInt8) (above : floor s.levels ≤ s.cursor) :
    Guarded s (s.put data) :=
  ⟨.refl _, fun _ below => ByteMap.write_below _ _ (Nat.lt_of_lt_of_le below above)⟩

/-- A push is guarded when it starts on the active `freePush` or above. -/
lemma guarded_push {s : FlatStack} (data : List UInt8) (isProtected : Bool)
    (above : floor s.levels ≤ (s.start isProtected).cursor) :
    Guarded s (after (push data isProtected s)) := by
  simp only [push]
  split
  case isFalse => exact Guarded.refl s
  case isTrue =>
    cases isProtected with
    | false =>
      have put := guarded_put (s := s.grown (s.cursor + data.length)) data above
      exact ⟨put.levels, put.bytes⟩
    | true =>
      have put := guarded_put
        (s := s.redirected.grown (s.redirected.cursor + data.length)) data
        ((guarded_redirected s).levels.floor_eq ▸ above)
      have last := (guarded_redirected s).trans ⟨put.levels, put.bytes⟩
      exact ⟨last.levels, last.bytes⟩

/-- A protected push is guarded. -/
lemma steps_push (data : List UInt8) : Steps Guarded (push data true) := fun s =>
  guarded_push data true (floor_le_redirected s)

/-- A pop is guarded. -/
lemma steps_pop (count : Nat) (isProtected : Bool) : Steps Guarded (pop count isProtected) := by
  intro s
  simp only [pop]
  split
  case isTrue => exact Guarded.refl s
  case isFalse =>
    cases isProtected with
    | false => exact ⟨.refl _, fun _ _ => rfl⟩
    | true =>
      have last := guarded_rejoined (s.seek (s.cursor - count))
      exact ⟨last.levels, last.bytes⟩

/-- Moving the cursor is guarded. -/
lemma steps_setLocation (l : Location) : Steps Guarded (setLocation l) := by
  intro s
  simp only [setLocation]
  split <;> exact ⟨.refl _, fun _ _ => rfl⟩

end FlatStack

namespace FlatTape

/-- Buffers with room for one more value each. -/
structure Roomy (f : FlatTape) : Prop where
  valid : ∀ k, (f.valid k).length < f.capacity
  bits : f.bits.index < BitBuffer.wordBits

/-- A guarded step of the byte stack under buffers that keep their room. -/
structure Guarded (f f' : FlatTape) : Prop where
  stack : f.stack.Guarded f'.stack
  marks : f'.marks = f.marks
  capacity : f'.capacity = f.capacity
  roomy : f.Roomy → f'.Roomy

namespace Guarded

/-- A tape that is left alone. -/
lemma refl (f : FlatTape) : Guarded f f := ⟨.refl _, rfl, rfl, id⟩

/-- Guarded steps can be put together. -/
lemma trans {f g h : FlatTape} (first : Guarded f g) (next : Guarded g h) : Guarded f h :=
  ⟨first.stack.trans next.stack, next.marks.trans first.marks, next.capacity.trans first.capacity,
    next.roomy ∘ first.roomy⟩

end Guarded

/-! ## Guarded calls -/

/-- Buffers keep their room when few values are set. -/
lemma Roomy.hold {f : FlatTape} (roomy : f.Roomy) (k : ScalarKind) (values : List k.Carrier)
    (few : values.length < f.capacity) : (f.hold k values).Roomy := by
  refine ⟨fun j => ?_, roomy.bits⟩
  by_cases e : j = k
  · subst e
    exact (valid_hold j values f).symm ▸ few
  · exact (valid_hold_of_ne values f e).symm ▸ roomy.valid j

/-- A call that is guarded on the stack is so on the tape. -/
lemma steps_onStack {α : Type} {call : Action FlatStack α} (h : Steps FlatStack.Guarded call) :
    Steps Guarded (onStack call) := by
  intro f
  have step := h f.stack
  cases run : call f.stack with
  | ok a stack =>
    rw [run] at step
    rw [onStack_ok run]
    exact ⟨step, rfl, rfl, fun roomy => ⟨roomy.valid, roomy.bits⟩⟩
  | error e stack =>
    rw [run] at step
    rw [onStack_error run]
    exact ⟨step, rfl, rfl, fun roomy => ⟨roomy.valid, roomy.bits⟩⟩

/-- A buffer may be set to few values. -/
lemma guarded_hold {f : FlatTape} {k : ScalarKind} {values : List k.Carrier}
    (few : f.Roomy → values.length < f.capacity) : Guarded f (f.hold k values) :=
  ⟨.refl _, rfl, rfl, fun roomy => roomy.hold k values (few roomy)⟩

/-- The word may be set to few bits. -/
lemma guarded_bits {f : FlatTape} {bits : BitBuffer}
    (few : f.Roomy → bits.index < BitBuffer.wordBits) : Guarded f { f with bits } :=
  ⟨.refl _, rfl, rfl, fun roomy => ⟨roomy.valid, few roomy⟩⟩

/-- The account of buffered bytes is not guarded. -/
lemma Guarded.count {f f' : FlatTape} (step : Guarded f f') (k : ScalarKind) (spilled : Bool) :
    Guarded f (f'.countScalar k spilled) :=
  ⟨step.stack, step.marks, step.capacity,
    fun roomy => ⟨(step.roomy roomy).valid, (step.roomy roomy).bits⟩⟩

/-- A buffer may be emptied. -/
lemma guarded_emptied (k : ScalarKind) (f : FlatTape) : Guarded f (f.emptied k) := by
  have held : Guarded f (f.hold k []) := guarded_hold fun roomy =>
    Nat.zero_lt_of_lt (roomy.valid k)
  exact held.count k true

/-- Taking a buffer back is guarded. -/
lemma steps_refill (k : ScalarKind) (bytes : List UInt8) : Steps Guarded (refill k bytes) := by
  intro f
  apply guarded_hold
  intro roomy
  have room := roomy.valid k
  rw [List.length_tail, List.length_reverse, Array.length_toList, k.size_decodeAll]
  omega

/-- Pushing a scalar is guarded. -/
lemma steps_push (k : ScalarKind) (value : k.Carrier) : Steps Guarded (push k value) := by
  intro f
  by_cases room : (f.valid k).length + 1 < f.capacity
  case pos =>
    have held : Guarded f (f.hold k (value :: f.valid k)) := guarded_hold fun _ => room
    rw [push_room room]
    exact held.count k false
  case neg =>
    rw [push_spill room]
    apply Steps.seq (R := Guarded) (fun _ _ _ => Guarded.trans)
    · exact steps_onStack (FlatStack.steps_push _)
    · exact fun _ => guarded_emptied k

/-- Popping a scalar is guarded. -/
lemma steps_pop (k : ScalarKind) : Steps Guarded (pop k) := by
  intro f
  cases held : f.valid k with
  | cons value rest =>
    rw [pop_held held]
    apply guarded_hold
    intro roomy
    have room := roomy.valid k
    rw [held, List.length_cons] at room
    exact Nat.lt_of_succ_lt room
  | nil =>
    rw [pop_refill held]
    apply Steps.seq (R := Guarded) (fun _ _ _ => Guarded.trans)
    · exact steps_onStack (FlatStack.steps_pop _ true)
    · exact steps_refill k

/-- Pushing a bit is guarded. -/
lemma steps_pushBit (bit : Bool) : Steps Guarded (pushBit bit) := by
  intro f
  by_cases full : BitBuffer.wordBits ≤ f.bits.index + 1
  case pos =>
    rw [pushBit_spill full]
    apply Steps.seq (R := Guarded) (fun _ _ _ => Guarded.trans)
    · exact steps_onStack (FlatStack.steps_push _)
    · exact fun _ _ => guarded_bits fun _ => Nat.zero_lt_succ _
  case neg =>
    rw [pushBit_room full]
    exact guarded_bits fun _ => Nat.lt_of_not_le full

/-- Popping a bit is guarded. -/
lemma steps_popBit : Steps Guarded popBit := by
  intro f
  cases held : f.bits.index with
  | zero =>
    rw [popBit_refill held]
    apply Steps.seq (R := Guarded) (fun _ _ _ => Guarded.trans)
    · exact steps_onStack (FlatStack.steps_pop 4 true)
    · exact fun _ _ => guarded_bits fun _ => Nat.lt_succ_self _
  | succ index =>
    rw [popBit_held held]
    apply guarded_bits
    intro roomy
    have room := roomy.bits
    rw [held] at room
    exact Nat.lt_of_succ_lt room

/-- Pushing bits is guarded. -/
lemma steps_pushBits (bits : List Bool) : Steps Guarded (pushBits bits) := by
  induction bits with
  | nil => exact Steps.ret Guarded.refl ()
  | cons bit rest ih =>
    exact Steps.seq (R := Guarded) (fun _ _ _ => Guarded.trans) (steps_pushBit bit) fun _ => ih

/-- Popping bits is guarded. -/
lemma steps_popBits (count value : Nat) : Steps Guarded (popBits count value) := by
  induction count generalizing value with
  | zero => exact Steps.ret Guarded.refl value
  | succ count ih =>
    exact Steps.seq (R := Guarded) (fun _ _ _ => Guarded.trans) steps_popBit fun _ => ih _

end FlatTape

end AdjointTape

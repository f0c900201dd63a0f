import AdjointTape.Proofs.Protection

/-!
# What a restart brings back

The bytes that a level saved spell the buffers they were saved from, kind by kind.  So where they
are still in place a restart brings back every buffered value, and the bits too, provided that an
empty bit buffer holds a zero word.
-/

open AdjointTape.Action AdjointTape.FlatStack

namespace AdjointTape

namespace FlatTape

/-- A kind that stands for a kind of scalars is the one of these scalars. -/
lemma eq_toKind {kind : Kind} {k : ScalarKind} (h : kind.scalar? = some k) : kind = k.toKind := by
  cases kind <;> cases h <;> rfl

/-- Two tapes with the same values buffered for a kind. -/
def SameBuffer (kind : Kind) (f g : FlatTape) : Prop :=
  match kind.scalar? with
  | some k => f.valid k = g.valid k
  | none => f.bits = g.bits

/-- Whether an empty bit buffer holds a zero word. -/
def Clean (f : FlatTape) : Prop := f.bits.index = 0 → f.bits.word = 0

/-- A word comes back as it was encoded. -/
lemma decode_encode (word : UInt32) : BitBuffer.decode (BitBuffer.encode word) = word := by
  rw [BitBuffer.decode, BitBuffer.encode, LittleEndian.decode_encode word.toNat_lt,
    UInt32.ofNat_toNat]

/-- A kind that is taken back from the bytes of its chunk is as it was saved. -/
lemma sameBuffer_takeBack {f g : FlatTape} {kind : Kind} (clean : g.Clean)
    (saved : f.stack.top (g.fill.bytes kind) = g.chunk kind) :
    SameBuffer kind (f.takeBack kind (g.fill.get kind)) g := by
  rw [SameBuffer, takeBack, get_fill, index]
  rw [Marks.bytes, get_fill, index, chunk] at saved
  cases e : kind.scalar? with
  | some k =>
    rw [e] at saved
    dsimp only at saved ⊢
    have spelt := k.decodeAll_encodeAll (g.valid k).reverse
    rw [List.length_reverse] at spelt
    rw [saved, valid_hold, spelt, List.reverse_reverse]
  | none =>
    rw [e] at saved
    dsimp only at saved ⊢
    by_cases empty : g.bits.index = 0
    · rw [if_pos empty]
      show BitBuffer.empty = ⟨g.bits.word, g.bits.index⟩
      rw [clean empty, empty]
      rfl
    · rw [if_neg empty, if_neg empty] at saved
      rw [if_neg empty, saved, decode_encode]

/-- Taking back another kind leaves a buffer the same. -/
lemma SameBuffer.takeBack {f g : FlatTape} {j kind : Kind} (same : SameBuffer j f g) (h : j ≠ kind)
    (count : Nat) : SameBuffer j (f.takeBack kind count) g := by
  rw [SameBuffer] at same ⊢
  rw [FlatTape.takeBack]
  cases e : kind.scalar? with
  | some k =>
    cases e' : j.scalar? with
    | some k' =>
      rw [e'] at same
      have ne : k' ≠ k := by
        rintro rfl
        exact h ((eq_toKind e').trans (eq_toKind e).symm)
      exact (valid_hold_of_ne _ _ ne).trans same
    | none =>
      rw [e'] at same
      exact same
  | none =>
    cases e' : j.scalar? with
    | some k' =>
      rw [e'] at same
      dsimp only
      split <;> exact same
    | none => exact absurd ((scalar?_eq_none e').trans (scalar?_eq_none e).symm) h

/-- Kinds that are taken back from the bytes of their chunks are as they were saved. -/
lemma sameBuffer_takeBackEach {f g : FlatTape} (clean : g.Clean) {kinds : List Kind}
    (enough : g.fill.bytesOf kinds ≤ f.stack.cursor)
    (saved : f.stack.top (g.fill.bytesOf kinds) = (kinds.reverse.map g.chunk).flatten) {j : Kind}
    (h : j ∈ kinds ∨ SameBuffer j f g) : SameBuffer j (f.takeBackEach g.fill kinds) g := by
  induction kinds generalizing f with
  | nil => exact h.resolve_left (List.not_mem_nil)
  | cons kind rest ih =>
    have sum : g.fill.bytesOf (kind :: rest) = g.fill.bytesOf rest + g.fill.bytes kind := by
      rw [Marks.bytesOf, List.map_cons, List.sum_cons, Nat.add_comm]
      rfl
    rw [sum] at enough
    -- the chunk of the first kind lies on top of those of the others
    rw [sum, top, ← ByteMap.read_append, List.reverse_cons, List.map_append, List.flatten_append,
      List.map_singleton, List.flatten_singleton] at saved
    obtain ⟨below, first⟩ := List.append_inj saved (by
      rw [ByteMap.length_read, length_chunks, Marks.bytesOf_reverse])
    refine ih (f := f.takeBack kind (g.fill.get kind)) ?_ ?_ ?_
    · rw [stack_takeBack]
      exact Nat.le_sub_of_add_le enough
    · have place : f.stack.cursor - g.fill.bytes kind - g.fill.bytesOf rest =
          f.stack.cursor - (g.fill.bytesOf rest + g.fill.bytes kind) := by lia
      rw [stack_takeBack, ← below, ← place]
      rfl
    · by_cases e : j = kind
      · subst e
        refine .inr (sameBuffer_takeBack clean ?_)
        have place : f.stack.cursor - (g.fill.bytesOf rest + g.fill.bytes j) + g.fill.bytesOf rest =
          f.stack.cursor - g.fill.bytes j := by lia
        rw [← first, place]
        rfl
      · refine h.imp (fun mem => (List.mem_cons.1 mem).resolve_left e) fun same => ?_
        exact same.takeBack e _

/-- Every buffer is brought back from the bytes that were saved. -/
lemma restored_saved {f g : FlatTape} (clean : g.Clean)
    (enough : g.fill.savedBytes ≤ f.stack.cursor)
    (saved : f.stack.top g.fill.savedBytes = g.saved) :
    (f.restored g.fill).valid = g.valid ∧ (f.restored g.fill).bits = g.bits := by
  have sum : g.fill.bytesOf Kind.all.reverse = g.fill.savedBytes := g.fill.bytesOf_reverse Kind.all
  have same (kind : Kind) : SameBuffer kind (f.restored g.fill) g := by
    refine sameBuffer_takeBackEach clean (sum ▸ enough) ?_ (.inl ?_)
    · rw [sum, saved, List.reverse_reverse]
      rfl
    · cases kind <;> decide
  refine ⟨?_, same .bit⟩
  funext k
  have h := same k.toKind
  rw [SameBuffer, ScalarKind.scalar?_toKind] at h
  exact h

/-- A tape with a level restarted over the buffers of another tape. -/
structure Restarted (level : RepeatLevel) (outer : List RepeatLevel) (g f f' : FlatTape) :
    Prop where
  stack : f'.stack =
    { f.stack with cursor := level.resume, levels := { level with backPop := none } :: outer }
  valid : f'.valid = g.valid
  bits : f'.bits = g.bits
  marks : f'.marks = f.marks
  capacity : f'.capacity = f.capacity

/-- A restart moves the cursor and clears the redirect, whatever it takes back. -/
lemma stack_restarted (level : RepeatLevel) (outer : List RepeatLevel) (marks : Marks)
    (f : FlatTape) :
    (f.restarted level outer marks).stack =
      { f.stack with
        cursor := level.resume
        levels := { level with backPop := none } :: outer } := by
  have stack : (restored marks { f with stack := f.stack.rewound level outer }).stack =
      (f.stack.rewound level outer).seek _ := stack_takeBackEach _ _ _
  rw [restarted, stack]
  rfl

/-- A level restarts over the buffers that were saved below its `freePush`. -/
lemma restarted_spec {f g : FlatTape} {level : RepeatLevel} (outer : List RepeatLevel)
    (clean : g.Clean) (enough : g.fill.savedBytes ≤ level.freePush)
    (saved : f.stack.bytes.read (level.freePush - g.fill.savedBytes) g.fill.savedBytes = g.saved) :
    Restarted level outer g f (f.restarted level outer g.fill) := by
  obtain ⟨valid, bits⟩ :=
    restored_saved (f := { f with stack := f.stack.rewound level outer }) clean enough saved
  obtain ⟨marks, capacity⟩ :=
    marks_takeBackEach { f with stack := f.stack.rewound level outer } g.fill Kind.all.reverse
  exact ⟨stack_restarted level outer g.fill f, valid, bits, marks, capacity⟩

end FlatTape

end AdjointTape

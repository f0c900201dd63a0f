import AdjointTape.Proofs.Ledger
import AdjointTape.Proofs.Restoring

/-!
# Where a stack of items is kept

A stack of scalars, bits and byte strings determines which of them are buffered and which segments
the byte stack holds, however it came about: the last push is undone by the pop that asks for it,
whether or not the push spilled a buffer.  A segment has the serial number of the item that spilled
it.
-/

open AdjointTape.Action

namespace AdjointTape

/-- What the calls on buffers and on the byte stack push and pop. -/
inductive Atom where
  | scalar (k : ScalarKind) (value : k.Carrier)
  | bit (value : Bool)
  | bulk (data : List UInt8)

/-- Bytes that were put on the byte stack at once. -/
structure ByteSegment where
  serial : Nat
  data : List UInt8

/-- The bytes of segments, the last one first, as they lie in memory. -/
def spell : List ByteSegment → List UInt8
  | [] => []
  | segment :: rest => spell rest ++ segment.data

/-- Segments that lie lower are spelled first. -/
lemma spell_append (xs ys : List ByteSegment) : spell (xs ++ ys) = spell ys ++ spell xs := by
  induction xs with
  | nil => rw [List.nil_append, spell, List.append_nil]
  | cons x xs ih => rw [List.cons_append, spell, spell, ih, List.append_assoc]

/-- The buffers, and the segments that the byte stack holds. -/
structure Stage where
  /-- The segments, the last one first. -/
  segments : List ByteSegment
  /-- The buffered values of a kind, the last one first. -/
  valid : (k : ScalarKind) → List k.Carrier
  bits : BitBuffer

namespace Stage

/-- A stage with nothing on it. -/
def empty : Stage where
  segments := []
  valid := fun _ => []
  bits := .empty

/-- The stage with other values buffered for a kind. -/
def hold (k : ScalarKind) (values : List k.Carrier) (s : Stage) : Stage :=
  { s with valid := Function.update s.valid k values }

/-- The stage with one more atom on it. -/
def put (capacity serial : Nat) (atom : Atom) (s : Stage) : Stage :=
  match atom with
  | .scalar k value =>
    if (s.valid k).length + 1 < capacity then s.hold k (value :: s.valid k)
    else
      { s with
        segments := ⟨serial, k.encodeAll (value :: s.valid k).reverse⟩ :: s.segments }.hold k []
  | .bit value =>
    if BitBuffer.wordBits ≤ s.bits.index + 1 then
      { s with
        segments := ⟨serial, BitBuffer.encode (BitBuffer.append s.bits.word value)⟩ :: s.segments
        bits := .empty }
    else { s with bits := ⟨BitBuffer.append s.bits.word value, s.bits.index + 1⟩ }
  | .bulk data => { s with segments := ⟨serial, data⟩ :: s.segments }

/-- The stage of a stack of atoms with their serial numbers, the last one first, on top of a base.
-/
def of (capacity : Nat) (base : Stage) : List (Nat × Atom) → Stage
  | [] => base
  | (serial, atom) :: rest => (Stage.of capacity base rest).put capacity serial atom

/-- Buffers with room for one more value each. -/
structure Tidy (capacity : Nat) (s : Stage) : Prop where
  valid : ∀ k, (s.valid k).length < capacity
  index : s.bits.index < BitBuffer.wordBits

/-- The buffer that was set holds its values. -/
@[simp]
lemma valid_hold (k : ScalarKind) (values : List k.Carrier) (s : Stage) :
    (s.hold k values).valid k = values := Function.update_self _ _ _

/-- Setting a buffer leaves those of the other kinds alone. -/
lemma valid_hold_of_ne {j k : ScalarKind} (values : List k.Carrier) (s : Stage) (h : j ≠ k) :
    (s.hold k values).valid j = s.valid j := Function.update_of_ne h _ _

/-- Values put back are those that were held before. -/
lemma hold_hold (k : ScalarKind) (values : List k.Carrier) (s : Stage) :
    (s.hold k values).hold k (s.valid k) = s := by
  simp only [hold, Function.update_idem, Function.update_eq_self]

/-- Buffers stay tidy when few values are set. -/
lemma Tidy.hold {capacity : Nat} {s : Stage} (tidy : s.Tidy capacity) (k : ScalarKind)
    (values : List k.Carrier) (few : values.length < capacity) :
    (s.hold k values).Tidy capacity := by
  refine ⟨fun j => ?_, tidy.index⟩
  by_cases e : j = k
  · subst e
    rw [valid_hold]
    exact few
  · rw [valid_hold_of_ne _ _ e]
    exact tidy.valid j

/-- Buffers stay tidy with one more atom. -/
lemma Tidy.put {capacity : Nat} {s : Stage} (tidy : s.Tidy capacity) (serial : Nat) (atom : Atom) :
    (s.put capacity serial atom).Tidy capacity := by
  cases atom with
  | scalar k value =>
    simp only [Stage.put]
    split
    case isTrue few => exact tidy.hold k _ few
    case isFalse =>
      have held := tidy.hold k [] (Nat.zero_lt_of_lt (tidy.valid k))
      exact ⟨held.valid, held.index⟩
  | bit value =>
    simp only [Stage.put]
    split
    case isTrue => exact ⟨tidy.valid, Nat.zero_lt_succ _⟩
    case isFalse room => exact ⟨tidy.valid, Nat.lt_of_not_le room⟩
  | bulk data => exact ⟨tidy.valid, tidy.index⟩

/-- Empty buffers are tidy. -/
lemma tidy_empty {capacity : Nat} (positive : 0 < capacity) : empty.Tidy capacity :=
  ⟨fun _ => positive, Nat.zero_lt_succ _⟩

/-- Buffers stay tidy with any atoms. -/
lemma Tidy.of {capacity : Nat} {base : Stage} (tidy : base.Tidy capacity)
    (atoms : List (Nat × Atom)) : (Stage.of capacity base atoms).Tidy capacity := by
  induction atoms with
  | nil => exact tidy
  | cons first rest ih => exact ih.put _ _

/-- A segment is there already, or it has the serial number of the atom that is put on. -/
lemma mem_put {capacity serial : Nat} {atom : Atom} {s : Stage} {segment : ByteSegment}
    (h : segment ∈ (s.put capacity serial atom).segments) :
    segment.serial = serial ∨ segment ∈ s.segments := by
  have cons {data : List UInt8} (mem : segment ∈ (⟨serial, data⟩ : ByteSegment) :: s.segments) :
      segment.serial = serial ∨ segment ∈ s.segments := by
    obtain rfl | mem := List.mem_cons.1 mem
    · exact .inl rfl
    · exact .inr mem
  cases atom with
  | scalar k value =>
    simp only [Stage.put] at h
    split at h
    case isTrue => exact .inr h
    case isFalse => exact cons h
  | bit value =>
    simp only [Stage.put] at h
    split at h
    case isTrue => exact cons h
    case isFalse => exact .inr h
  | bulk data => exact cons h

/-- Every segment is in the base, or it has the serial number of an atom. -/
lemma serial_of {capacity : Nat} {base : Stage} {atoms : List (Nat × Atom)} {segment : ByteSegment}
    (h : segment ∈ (Stage.of capacity base atoms).segments) :
    segment ∈ base.segments ∨ ∃ atom ∈ atoms, atom.1 = segment.serial := by
  induction atoms with
  | nil => exact .inl h
  | cons first rest ih =>
    obtain e | mem := mem_put h
    · exact .inr ⟨first, List.mem_cons_self, e.symm⟩
    · obtain mem | ⟨atom, mem, e⟩ := ih mem
      · exact .inl mem
      · exact .inr ⟨atom, List.mem_cons_of_mem _ mem, e⟩

end Stage

end AdjointTape

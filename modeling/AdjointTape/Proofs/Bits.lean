import AdjointTape.Staging.Bits
import Mathlib.Algebra.Ring.Nat
import Mathlib.Tactic.Common

/-!
# Buffered bits

The word of a bit buffer may have bits above its fill index, left from earlier use.  Only the bits
below the index are buffered, and no call on the buffer lets the others be seen.
-/

namespace AdjointTape.BitBuffer

/-- The buffered bits, the last one first. -/
def valid (b : BitBuffer) : List Bool := (List.range b.index).map b.word.toNat.testBit

/-- There are as many valid bits as the index says. -/
@[simp]
lemma length_valid (b : BitBuffer) : b.valid.length = b.index := by
  rw [valid, List.length_map, List.length_range]

/-- The index follows from the valid bits. -/
lemma index_congr {b c : BitBuffer} (same : b.valid = c.valid) : b.index = c.index := by
  rw [← length_valid b, same, length_valid]

/-- A bit that is appended is the lowest one of the word. -/
lemma testBit_append_zero (word : UInt32) (bit : Bool) :
    (append word bit).toNat.testBit 0 = bit := by
  have shift : (word <<< 1).toNat.testBit 0 = false := by
    rw [UInt32.toNat_shiftLeft, Nat.testBit_mod_two_pow, Nat.testBit_shiftLeft]
    rfl
  rw [append, UInt32.toNat_or, Nat.testBit_or, shift]
  cases bit <;> rfl

/-- The other bits of the word move up by one when a bit is appended. -/
lemma testBit_append_succ (word : UInt32) (bit : Bool) {i : Nat} (h : i + 1 < wordBits) :
    (append word bit).toNat.testBit (i + 1) = word.toNat.testBit i := by
  have shift : (word <<< 1).toNat.testBit (i + 1) = word.toNat.testBit i := by
    rw [UInt32.toNat_shiftLeft, Nat.testBit_mod_two_pow, Nat.testBit_shiftLeft]
    simp only [wordBits] at h
    simp [h]
  have low : (if bit then 1 else 0 : UInt32).toNat.testBit (i + 1) = false := by
    cases bit <;> simp [Nat.testBit_succ]
  rw [append, UInt32.toNat_or, Nat.testBit_or, shift, low, Bool.or_false]

/-- A bit that finds a place in the word becomes valid. -/
lemma valid_append {b : BitBuffer} (bit : Bool) (room : b.index < wordBits) :
    valid ⟨append b.word bit, b.index + 1⟩ = bit :: b.valid := by
  rw [valid, List.range_succ_eq_map, List.map_cons, List.map_map, testBit_append_zero]
  refine congrArg (bit :: ·) (List.map_congr_left fun i mem => ?_)
  exact testBit_append_succ b.word bit
    (Nat.lt_of_le_of_lt (Nat.succ_le_of_lt (List.mem_range.1 mem)) room)

/-- The bit that is taken off is the last one of the valid bits. -/
lemma valid_takeLast (word : UInt32) (index : Nat) :
    valid ⟨word, index + 1⟩ = (takeLast word index).1 :: (takeLast word index).2.valid := by
  have last : word.toNat.testBit 0 = decide (word &&& 1 = 1) := by
    simp [← UInt32.toNat_inj, Nat.testBit_zero]
  have rest (i : Nat) : word.toNat.testBit (i + 1) = (word >>> 1).toNat.testBit i := by
    rw [UInt32.toNat_shiftRight, Nat.testBit_shiftRight, Nat.add_comm]
    rfl
  rw [valid, List.range_succ_eq_map, List.map_cons, List.map_map, last]
  exact congrArg _ (List.map_congr_left fun i _ => rest i)

/-- The last bit that was pushed is the one that is taken. -/
lemma takeLast_of_valid {word : UInt32} {index : Nat} {bit : Bool} {bits : List Bool}
    (same : valid ⟨word, index + 1⟩ = bit :: bits) :
    ∃ rest, takeLast word index = (bit, rest) ∧ rest.valid = bits := by
  rw [valid_takeLast] at same
  obtain ⟨rfl, rest⟩ := List.cons.inj same
  exact ⟨_, rfl, rest⟩

/-- A word is determined by its bits. -/
lemma word_congr {word word' : UInt32}
    (same : valid ⟨word, wordBits⟩ = valid ⟨word', wordBits⟩) : word = word' := by
  rw [← UInt32.toNat_inj]
  refine Nat.eq_of_testBit_eq fun i => ?_
  by_cases inside : i < wordBits
  · exact List.map_inj_left.1 same i (List.mem_range.2 inside)
  · have le : 2 ^ wordBits ≤ 2 ^ i := Nat.pow_le_pow_right Nat.two_pos (Nat.le_of_not_lt inside)
    rw [Nat.testBit_lt_two_pow (Nat.lt_of_lt_of_le word.toNat_lt le),
      Nat.testBit_lt_two_pow (Nat.lt_of_lt_of_le word'.toNat_lt le)]

end AdjointTape.BitBuffer

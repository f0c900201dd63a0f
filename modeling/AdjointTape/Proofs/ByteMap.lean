import Mathlib.Data.List.Basic
import Mathlib.Tactic.Common

/-!
# Flat memory

An unbounded array of bytes, read and written in stretches.  A write changes the stretch it covers
and nothing else, so a read is settled by where it lies: inside what was written, or beside it.
-/

namespace AdjointTape

/-- An array of bytes without end. -/
abbrev ByteMap := Nat → UInt8

namespace ByteMap

/-- Memory that was never written. -/
def zeros : ByteMap := fun _ => 0

/-- The `count` bytes from `start` on. -/
def read (m : ByteMap) (start count : Nat) : List UInt8 := (List.range' start count).map m

/-- The array with `data` put at `start`. -/
def write (m : ByteMap) (start : Nat) (data : List UInt8) : ByteMap := fun l =>
  if start ≤ l then data[l - start]?.getD (m l) else m l

/-- As many bytes are read as were asked for. -/
@[simp]
lemma length_read (m : ByteMap) (start count : Nat) : (m.read start count).length = count := by
  simp [read]

/-- Adjacent readings make one. -/
lemma read_append (m : ByteMap) (start i j : Nat) :
    m.read start i ++ m.read (start + i) j = m.read start (i + j) := by
  rw [read, read, read, ← List.map_append, List.range'_append_1]

/-- A reading depends on the bytes in its range only. -/
lemma read_congr {m m' : ByteMap} {start count : Nat}
    (same : ∀ l, start ≤ l → l < start + count → m l = m' l) :
    m.read start count = m'.read start count := by
  apply List.map_congr_left
  intro l mem
  rw [List.mem_range'_1] at mem
  exact same l mem.1 mem.2

/-- Equal readings have equal bytes in their range. -/
lemma of_read_eq {m m' : ByteMap} {start count l : Nat}
    (same : m.read start count = m'.read start count) (h1 : start ≤ l) (h2 : l < start + count) :
    m l = m' l :=
  List.map_inj_left.1 same l (List.mem_range'_1.2 ⟨h1, h2⟩)

/-- The bytes of a reading, one by one. -/
lemma getElem?_read (m : ByteMap) {start count i : Nat} (h : i < count) :
    (m.read start count)[i]? = some (m (start + i)) := by
  simp [read, h]

/-- Writing nothing changes nothing. -/
@[simp]
lemma write_nil (m : ByteMap) (start : Nat) : m.write start [] = m := by
  funext l
  simp [write]

/-- Adjacent writes make one. -/
lemma write_append (m : ByteMap) (start : Nat) (xs ys : List UInt8) :
    (m.write start xs).write (start + xs.length) ys = m.write start (xs ++ ys) := by
  funext l
  by_cases h1 : start ≤ l
  · by_cases h2 : start + xs.length ≤ l
    · have e : l - start - xs.length = l - (start + xs.length) := by omega
      have miss : xs[l - start]? = none := List.getElem?_eq_none (by omega)
      simp [write, h1, h2, List.getElem?_append_right (show xs.length ≤ l - start by omega), e,
        miss]
    · simp [write, h1, h2, List.getElem?_append_left (show l - start < xs.length by omega)]
  · have h2 : ¬ start + xs.length ≤ l := by omega
    simp [write, h1, h2]

/-- A write leaves alone what lies below it. -/
lemma write_below (m : ByteMap) {start l : Nat} (data : List UInt8) (h : l < start) :
    m.write start data l = m l := by
  simp [write, Nat.not_le.2 h]

/-- A write leaves alone what lies above it. -/
lemma write_above (m : ByteMap) {start l : Nat} {data : List UInt8} (h : start + data.length ≤ l) :
    m.write start data l = m l := by
  have miss : data[l - start]? = none := List.getElem?_eq_none (by omega)
  simp [write, miss]

/-- A written byte is the one of the data, whatever was there. -/
lemma write_inside (m m' : ByteMap) {start l : Nat} {data : List UInt8} (h1 : start ≤ l)
    (h2 : l < start + data.length) : m.write start data l = m'.write start data l := by
  have hit : l - start < data.length := by omega
  simp [write, h1, List.getElem?_eq_getElem hit]

/-- What was written is read back. -/
lemma read_write (m : ByteMap) (start : Nat) (data : List UInt8) :
    (m.write start data).read start data.length = data := by
  apply List.ext_getElem?
  intro i
  by_cases h : i < data.length
  · rw [getElem?_read _ h]
    simp [write, List.getElem?_eq_getElem h]
  · rw [List.getElem?_eq_none (by simpa using h), List.getElem?_eq_none (by omega)]

/-- A write does not show in a reading below it. -/
lemma read_write_below (m : ByteMap) {start count at' : Nat} (data : List UInt8)
    (h : start + count ≤ at') : (m.write at' data).read start count = m.read start count :=
  read_congr fun _ _ h2 => write_below m data (by omega)

end ByteMap

end AdjointTape

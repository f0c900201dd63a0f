import AdjointTape.Proofs.ControlTags
import AdjointTape.Proofs.Enclosed
import AdjointTape.Proofs.Matching
import AdjointTape.Proofs.Series

/-!
# Where a stack of pushes is kept

Without levels a tape is a stack of scalars, bits and byte strings, and what is live on it settles
how full every buffer is and where the cursor stands: a buffer holds what its kind has left over
after all full buffers, and the byte stack holds these, the full words, and all that went past the
buffers.  A pop that takes a buffer back undoes the push that spilled it to the last value, so no
history of pushes and pops over the end of a buffer leaves a trace.
-/

open AdjointTape.Action AdjointTape.FlatStack

namespace AdjointTape

/-- Every kind of scalars. -/
def ScalarKind.all : List ScalarKind :=
  [.integer4, .integer8, .real4, .real8, .complex8, .complex16, .character, .pointer]

/-- What lies on a tape, without its value: a scalar, a bit, or the bytes of an array or of a byte
string. -/
inductive Load where
  | scalar (k : ScalarKind)
  | bit
  | bulk (size : Nat)
  deriving DecidableEq

namespace Load

/-- The bytes that never go through a buffer. -/
def bulkSize : Load → Nat
  | bulk size => size
  | _ => 0

/-- The bytes that loads take on the byte stack: those of every full buffer, of every full word and
of all that goes past the buffers. -/
def spilled (capacity : Nat) (live : List Load) : Nat :=
  (ScalarKind.all.map fun k =>
      capacity * k.width * (live.count (.scalar k) / capacity)).sum +
    4 * (live.count .bit / BitBuffer.wordBits) + (live.map bulkSize).sum

end Load

namespace Call

/-- Whether a call puts something on the tape. -/
def isPush (c : Call) : Bool := c.transfers && !c.isPop

/-- What a push puts on the tape, the last load first. -/
def puts : Call → List Load
  | .push k _ => [.scalar k]
  | .pushBit _ => [.bit]
  | .pushControl _ width => if 1 ≤ width ∧ width ≤ 8 then List.replicate width .bit else []
  | .pushArray k values => [.bulk (values.length * k.width)]
  | .pushBytes data _ => [.bulk data.length]
  | _ => []

/-- What a pop takes off the tape, the last load first. -/
def takes : Call → List Load
  | .pop k => [.scalar k]
  | .popBit => [.bit]
  | .popControl width => if 1 ≤ width ∧ width ≤ 8 then List.replicate width .bit else []
  | .popArray k count => [.bulk (count * k.width)]
  | .popBytes count _ => [.bulk count]
  | _ => []

/-- What a push leaves on the tape: all that it puts there, or the bits that it had moved when it
failed. -/
def leavesBehind (c : Call) (t : Tape) : List Load :=
  match c.perform t with
  | .ok _ _ => c.puts
  | .error _ _ => List.replicate (c.bitsBefore t.area.bits.index) .bit

end Call

/-- Tapes that pushes and pops lead to from a new one, with what is live on them, the last load
first. Every pop takes what was pushed last. In between the memory that blocks are taken from may
change in any way. -/
inductive Tape.Stacked (geometry : Geometry) : Tape → List Load → Prop where
  | create {limit : Option Nat} {t : Tape} (created : create geometry limit = .ok t) :
    Stacked geometry t []
  | push {t : Tape} {live : List Load} {c : Call} (run : Stacked geometry t live)
    (isPush : c.isPush = true) :
    Stacked geometry (after (c.perform t)) (c.leavesBehind t ++ live)
  | pop {t : Tape} {live : List Load} {c : Call} (run : Stacked geometry t (c.takes ++ live))
    (isPop : c.isPop = true) : Stacked geometry (after (c.perform t)) live
  | memory {t : Tape} {live : List Load} (m : Memory) (run : Stacked geometry t live) :
    Stacked geometry (t.withMemory m) live

/-! ## One more load -/

/-- One more value in a buffer that spills when it is full. -/
lemma succ_mod_div {n c : Nat} (positive : 0 < c) :
    (n + 1) % c = (if n % c + 1 < c then n % c + 1 else 0) ∧
      (n + 1) / c = n / c + if n % c + 1 < c then 0 else 1 := by
  have split := Nat.div_add_mod n c
  have below := Nat.mod_lt n positive
  split
  case isTrue few =>
    have parts : n + 1 = c * (n / c) + (n % c + 1) := by lia
    rw [parts, Nat.mul_add_mod, Nat.mod_eq_of_lt few, Nat.mul_add_div positive,
      Nat.div_eq_of_lt few]
    exact ⟨rfl, rfl⟩
  case isFalse full =>
    have parts : n + 1 = c * (n / c + 1) := by
      rw [Nat.mul_succ]
      lia
    rw [parts]
    exact ⟨Nat.mul_mod_right _ _, Nat.mul_div_cancel_left _ positive⟩

/-- A sum over the kinds that differs at one of them. -/
lemma ScalarKind.sum_of_others {g h : ScalarKind → Nat} {k : ScalarKind} {more : Nat}
    (others : ∀ j, j ≠ k → h j = g j) (one : h k = g k + more) :
    (all.map h).sum = (all.map g).sum + more := by
  cases k <;> simp [all, others, one] <;> lia

namespace Load

variable {capacity : Nat} {live : List Load}

/-- A scalar is one more of its kind. -/
@[simp]
lemma scalars_scalar (k : ScalarKind) (live : List Load) :
    (.scalar k :: live : List Load).count (.scalar k) = live.count (.scalar k) + 1 :=
  List.count_cons_self

/-- A scalar is none of another kind. -/
lemma scalars_scalar_of_ne {j k : ScalarKind} (ne : j ≠ k) (live : List Load) :
    (.scalar k :: live : List Load).count (.scalar j) = live.count (.scalar j) :=
  List.count_cons_of_ne fun same => ne (Load.scalar.inj same).symm

/-- A bit is no scalar. -/
@[simp]
lemma scalars_bit (k : ScalarKind) (live : List Load) :
    (.bit :: live : List Load).count (.scalar k) = live.count (.scalar k) :=
  List.count_cons_of_ne (by simp)

/-- An array is no scalar. -/
@[simp]
lemma scalars_bulk (k : ScalarKind) (size : Nat) (live : List Load) :
    (.bulk size :: live : List Load).count (.scalar k) = live.count (.scalar k) :=
  List.count_cons_of_ne (by simp)

/-- A bit is one more bit. -/
@[simp]
lemma bits_bit (live : List Load) : (.bit :: live : List Load).count .bit = live.count .bit + 1 :=
  List.count_cons_self

/-- A scalar is no bit. -/
@[simp]
lemma bits_scalar (k : ScalarKind) (live : List Load) :
    (.scalar k :: live : List Load).count .bit = live.count .bit :=
  List.count_cons_of_ne (by simp)

/-- An array is no bit. -/
@[simp]
lemma bits_bulk (size : Nat) (live : List Load) :
    (.bulk size :: live : List Load).count .bit = live.count .bit :=
  List.count_cons_of_ne (by simp)

/-- Of several bits, one lies below all others. -/
lemma bit_below (count : Nat) (live : List Load) :
    List.replicate (count + 1) bit ++ live = List.replicate count bit ++ bit :: live := by
  rw [List.replicate_succ', List.append_assoc]
  rfl

/-- The bytes that get on the byte stack with one more load. -/
def spills (capacity : Nat) (live : List Load) : Load → Nat
  | scalar k => if live.count (.scalar k) % capacity + 1 < capacity then 0 else capacity * k.width
  | bit => if live.count .bit % BitBuffer.wordBits + 1 < BitBuffer.wordBits then 0 else 4
  | bulk size => size

/-- One more load adds what it spills. -/
lemma spilled_cons (positive : 0 < capacity) (x : Load) (live : List Load) :
    spilled capacity (x :: live) = spilled capacity live + spills capacity live x := by
  cases x with
  | scalar k =>
    have kinds := @ScalarKind.sum_of_others
      (fun j => capacity * j.width * (live.count (.scalar j) / capacity))
      (fun j => capacity * j.width * ((.scalar k :: live : List Load).count (.scalar j) / capacity))
      k (spills capacity live (.scalar k)) ?others ?one
    case others =>
      intro j ne
      rw [scalars_scalar_of_ne ne]
    case one =>
      rw [scalars_scalar, (succ_mod_div positive).2, spills]
      split
      case isTrue => rfl
      case isFalse => rw [Nat.mul_succ, Nat.mul_right_comm]
    rw [spilled, spilled, kinds, bits_scalar, List.map_cons, List.sum_cons]
    simp only [bulkSize]
    lia
  | bit =>
    have words := (succ_mod_div (n := live.count .bit) (c := BitBuffer.wordBits) (by decide)).2
    simp only [spilled, scalars_bit, bits_bit, words, List.map_cons, List.sum_cons, bulkSize,
      spills]
    split <;> lia
  | bulk size =>
    simp only [spilled, scalars_bulk, bits_bulk, List.map_cons, List.sum_cons, bulkSize, spills]
    lia

end Load

namespace FlatTape

/-- A tape without levels whose buffers and cursor are where what is live on it puts them. -/
structure Stocked (capacity : Nat) (f : FlatTape) (live : List Load) : Prop where
  size : f.capacity = capacity
  ground : f.stack.levels = []
  valid : ∀ k, (f.valid k).length = live.count (.scalar k) % capacity
  bits : f.bits.index = live.count .bit % BitBuffer.wordBits
  cursor : f.stack.cursor = Load.spilled capacity live

namespace Stocked

variable {capacity : Nat} {f g : FlatTape} {live : List Load} {k : ScalarKind}

/-- A stocked tape has room in its buffers. -/
lemma roomy (stocked : f.Stocked capacity live) (positive : 0 < capacity) : f.Roomy := by
  refine ⟨fun k => ?_, ?_⟩
  · rw [stocked.valid, stocked.size]
    exact Nat.mod_lt _ positive
  · rw [stocked.bits]
    exact Nat.mod_lt _ (by decide)

/-! ## Pushes -/

/-- The byte stack with the bytes of one more load. -/
lemma push_stack {x : Load} {data : List UInt8} (isProtected : Bool)
    (stocked : f.Stocked capacity live) (positive : 0 < capacity)
    (spills : Load.spills capacity live x = data.length) :
    (f.stack.pushed data isProtected).levels = [] ∧
      (f.stack.pushed data isProtected).cursor = Load.spilled capacity (x :: live) := by
  refine ⟨?_, ?_⟩
  · rw [levels_pushed, start_ground stocked.ground, stocked.ground]
  · rw [cursor_pushed, start_ground stocked.ground, stocked.cursor, Load.spilled_cons positive,
      spills]

/-- A scalar that is pushed is live. -/
lemma push {value : k.Carrier} (stocked : f.Stocked capacity live) (positive : 0 < capacity)
    (run : push k value f = .ok () g) : g.Stocked capacity (.scalar k :: live) := by
  obtain ⟨stored, bits, others⟩ := push_spec run
  have size : g.capacity = capacity := (guarded_push run).capacity.trans stocked.size
  have index := stocked.valid k
  have one := (succ_mod_div (n := live.count (.scalar k)) positive).1
  have valid (last : (g.valid k).length = (live.count (.scalar k) + 1) % capacity)
      (j : ScalarKind) : (g.valid j).length =
        (.scalar k :: live : List Load).count (.scalar j) % capacity := by
    by_cases e : j = k
    · rw [e, last, Load.scalars_scalar]
    · rw [others j e, stocked.valid, Load.scalars_scalar_of_ne e]
  have bits : g.bits.index = (.scalar k :: live : List Load).count .bit % BitBuffer.wordBits := by
    rw [bits, stocked.bits, Load.bits_scalar]
  cases stored (stocked.roomy positive) with
  | buffered room stack length =>
    rw [index, stocked.size] at room
    rw [if_pos room] at one
    refine ⟨size, stack ▸ stocked.ground, valid ?_, bits, ?_⟩
    · rw [length, index, one]
    · rw [stack, stocked.cursor, Load.spilled_cons positive, Load.spills, if_pos room, Nat.add_zero]
  | spilled data full bytes stack empty =>
    have full : ¬ live.count (.scalar k) % capacity + 1 < capacity := by
      rw [← index, ← stocked.size]
      exact Nat.not_lt.2 (Nat.le_of_eq full.symm)
    rw [if_neg full] at one
    have spills : Load.spills capacity live (.scalar k) = data.length := by
      rw [Load.spills, if_neg full, bytes, stocked.size]
    obtain ⟨ground, cursor⟩ := stocked.push_stack true positive spills
    exact ⟨size, stack ▸ ground, valid (by rw [empty, one]), bits, stack ▸ cursor⟩

/-- A bit that is pushed is live. -/
lemma pushBit {bit : Bool} (stocked : f.Stocked capacity live) (positive : 0 < capacity)
    (run : pushBit bit f = .ok () g) : g.Stocked capacity (.bit :: live) := by
  have index := stocked.bits
  have one := (succ_mod_div (n := live.count .bit) (c := BitBuffer.wordBits) (by decide)).1
  by_cases full : BitBuffer.wordBits ≤ f.bits.index + 1
  case neg =>
    have room : live.count .bit % BitBuffer.wordBits + 1 < BitBuffer.wordBits :=
      index ▸ Nat.lt_of_not_le full
    rw [if_pos room] at one
    obtain rfl := (EStateM.Result.ok.inj ((pushBit_room full).symm.trans run)).2
    refine ⟨stocked.size, stocked.ground, fun j => ?_, ?_, ?_⟩
    · rw [Load.scalars_bit]
      exact stocked.valid j
    · rw [Load.bits_bit, one, ← index]
    · rw [Load.spilled_cons positive, Load.spills, if_pos room]
      exact stocked.cursor
  case pos =>
    have room : ¬ live.count .bit % BitBuffer.wordBits + 1 < BitBuffer.wordBits :=
      index ▸ Nat.not_lt.2 full
    rw [if_neg room] at one
    obtain done | ⟨blocks, blockSize, fails⟩ := pushBit_cases bit full
    case inr => cases fails.symm.trans run
    rw [done] at run
    obtain rfl := (EStateM.Result.ok.inj run).2
    have spills : Load.spills capacity live .bit =
        (BitBuffer.encode (BitBuffer.append f.bits.word bit)).length :=
      (if_neg room).trans (LittleEndian.length_encode 4 _).symm
    obtain ⟨ground, cursor⟩ := stocked.push_stack true positive spills
    refine ⟨stocked.size, ground, fun j => ?_, ?_, cursor⟩
    · rw [Load.scalars_bit]
      exact stocked.valid j
    · rw [Load.bits_bit, one]
      rfl

/-- Bytes that are pushed are live. -/
lemma pushBulk {data : List UInt8} {isProtected : Bool} (stocked : f.Stocked capacity live)
    (positive : 0 < capacity) (run : onStack (FlatStack.push data isProtected) f = .ok () g) :
    g.Stocked capacity (.bulk data.length :: live) := by
  obtain done | ⟨blocks, blockSize, fails⟩ := onStack_push_cases data isProtected f
  case inr => cases fails.symm.trans run
  rw [done] at run
  obtain rfl := (EStateM.Result.ok.inj run).2
  obtain ⟨ground, cursor⟩ := stocked.push_stack isProtected positive
    (show Load.spills capacity live (.bulk data.length) = data.length from rfl)
  refine ⟨stocked.size, ground, fun j => ?_, ?_, cursor⟩
  · rw [Load.scalars_bulk]
    exact stocked.valid j
  · rw [Load.bits_bulk]
    exact stocked.bits

/-! ## Pops -/

/-- The byte stack without the bytes of the last load. -/
lemma pop_stack {x : Load} {count : Nat} (isProtected : Bool)
    (stocked : f.Stocked capacity (x :: live)) (positive : 0 < capacity)
    (spills : Load.spills capacity live x = count) :
    ∃ data stack, FlatStack.pop count isProtected f.stack = .ok data stack ∧ stack.levels = [] ∧
      stack.cursor = Load.spilled capacity live := by
  have cursor := stocked.cursor
  rw [Load.spilled_cons positive, spills] at cursor
  have enough : ¬ f.stack.cursor < count := by
    rw [cursor]
    exact Nat.not_lt.2 (Nat.le_add_left _ _)
  refine ⟨_, _, if_neg enough, ?_, ?_⟩
  · rw [popped_ground stocked.ground]
    exact stocked.ground
  · rw [popped_ground stocked.ground, seek, cursor, Nat.add_sub_cancel]

/-- The last scalar is live until it is popped. -/
lemma pop (stocked : f.Stocked capacity (.scalar k :: live)) (positive : 0 < capacity) :
    ∃ value g, pop k f = .ok value g ∧ g.Stocked capacity live := by
  have index := stocked.valid k
  rw [Load.scalars_scalar, (succ_mod_div positive).1] at index
  have bits := stocked.bits
  rw [Load.bits_scalar] at bits
  have others (j : ScalarKind) (ne : j ≠ k) :
      (f.valid j).length = live.count (.scalar j) % capacity := by
    rw [stocked.valid, Load.scalars_scalar_of_ne ne]
  have valid {g : FlatTape} {values : List k.Carrier}
      (last : values.length = live.count (.scalar k) % capacity)
      (same : ∀ j, g.valid j = f.valid j) (j : ScalarKind) :
      ((g.hold k values).valid j).length = live.count (.scalar j) % capacity := by
    by_cases e : j = k
    · subst e
      rw [valid_hold, last]
    · rw [valid_hold_of_ne _ _ e, same, others j e]
  split at index
  case isTrue few =>
    have spills : Load.spills capacity live (.scalar k) = 0 := if_pos few
    obtain ⟨value, rest, held⟩ := List.exists_cons_of_length_eq_add_one index
    rw [held, List.length_cons, Nat.add_right_cancel_iff] at index
    have cursor := stocked.cursor
    rw [Load.spilled_cons positive, spills] at cursor
    exact ⟨value, _, pop_held held, stocked.size, stocked.ground, valid index fun _ => rfl, bits,
      cursor⟩
  case isFalse full =>
    have spills : Load.spills capacity live (.scalar k) = f.capacity * k.width :=
      (if_neg full).trans (congrArg (· * k.width) stocked.size.symm)
    obtain ⟨data, stack, run, ground, cursor⟩ := stocked.pop_stack true positive spills
    rw [List.length_eq_zero_iff] at index
    rw [pop_refill index, bind_ok (onStack_ok run)]
    refine ⟨_, _, rfl, stocked.size, ground, valid ?_ fun _ => rfl, bits, cursor⟩
    have below := Nat.mod_lt (live.count (.scalar k)) positive
    rw [List.length_tail, List.length_reverse, Array.length_toList, k.size_decodeAll]
    change f.capacity - 1 = _
    rw [stocked.size]
    lia

/-- The last bit is live until it is popped. -/
lemma popBit (stocked : f.Stocked capacity (.bit :: live)) (positive : 0 < capacity) :
    ∃ bit g, popBit f = .ok bit g ∧ g.Stocked capacity live := by
  have index := stocked.bits
  rw [Load.bits_bit, (succ_mod_div (by decide)).1] at index
  have valid := stocked.valid
  simp only [Load.scalars_bit] at valid
  split at index
  case isTrue few =>
    have spills : Load.spills capacity live .bit = 0 := if_pos few
    have cursor := stocked.cursor
    rw [Load.spilled_cons positive, spills] at cursor
    exact ⟨_, _, popBit_held index, stocked.size, stocked.ground, valid, rfl, cursor⟩
  case isFalse full =>
    have spills : Load.spills capacity live .bit = 4 := if_neg full
    obtain ⟨data, stack, run, ground, cursor⟩ := stocked.pop_stack true positive spills
    rw [popBit_refill index, bind_ok (onStack_ok run)]
    refine ⟨_, _, rfl, stocked.size, ground, valid, ?_, cursor⟩
    have below := Nat.mod_lt (live.count .bit) (show 0 < BitBuffer.wordBits by decide)
    change BitBuffer.wordBits - 1 = _
    lia

/-- The last bytes are live until they are popped. -/
lemma popBulk {count : Nat} (isProtected : Bool)
    (stocked : f.Stocked capacity (.bulk count :: live)) (positive : 0 < capacity) :
    ∃ data g, onStack (FlatStack.pop count isProtected) f = .ok data g ∧
      g.Stocked capacity live := by
  obtain ⟨data, stack, run, ground, cursor⟩ := stocked.pop_stack isProtected positive rfl
  have valid := stocked.valid
  have bits := stocked.bits
  simp only [Load.scalars_bulk] at valid
  rw [Load.bits_bulk] at bits
  exact ⟨data, _, onStack_ok run, stocked.size, ground, valid, bits, cursor⟩

/-! ## Tags and calls -/

/-- Bits that are pushed are live. -/
lemma pushBits {bits : List Bool} (stocked : f.Stocked capacity live) (positive : 0 < capacity)
    (run : FlatTape.pushBits bits f = .ok () g) :
    g.Stocked capacity (List.replicate bits.length .bit ++ live) := by
  induction bits generalizing f live with
  | nil =>
    obtain rfl := (EStateM.Result.ok.inj run).2
    exact stocked
  | cons bit rest ih =>
    obtain ⟨_, f', first, last⟩ := of_bind_ok run
    rw [List.length_cons, Load.bit_below]
    exact ih (stocked.pushBit positive first) last

/-- The last bits are live until they are popped. -/
lemma popBits {count : Nat} (value : Nat)
    (stocked : f.Stocked capacity (List.replicate count .bit ++ live)) (positive : 0 < capacity) :
    ∃ tag g, FlatTape.popBits count value f = .ok tag g ∧ g.Stocked capacity live := by
  induction count generalizing f value with
  | zero => exact ⟨value, f, rfl, stocked⟩
  | succ count ih =>
    obtain ⟨bit, f', first, stocked⟩ := stocked.popBit positive
    rw [FlatTape.popBits, bind_ok first]
    exact ih _ stocked

/-- A tag that fails has moved the bits that the word had room for. -/
lemma stuckBits {bits : List Bool} {e : Failure} (stocked : f.Stocked capacity live)
    (positive : 0 < capacity) (short : bits.length ≤ BitBuffer.wordBits)
    (run : FlatTape.pushBits bits f = .error e g) :
    g.Stocked capacity
      (List.replicate (BitBuffer.wordBits - 1 - f.bits.index) .bit ++ live) := by
  have pushes := pushBits_spec bits (stocked.roomy positive).bits short
  rw [run] at pushes
  cases pushes with
  | @stuck first rest last _ _ full =>
    have moved : BitBuffer.wordBits - 1 - f.bits.index = first.length := by lia
    rw [moved]
    exact stocked.pushBits positive (pushBits_room (by lia))

/-- A push that succeeds puts its loads on the tape. -/
lemma of_push {c : Call} {a : Answer} (stocked : f.Stocked capacity live)
    (positive : 0 < capacity) (isPush : c.isPush = true) (run : c.performFlat f = .ok a g) :
    g.Stocked capacity (c.puts ++ live) := by
  cases c with
  | push k value =>
    obtain ⟨_, run, -⟩ := of_answer_ok run
    exact stocked.push positive run
  | pushBit bit =>
    obtain ⟨_, run, -⟩ := of_answer_ok run
    exact stocked.pushBit positive run
  | pushControl value width =>
    rw [Call.performFlat] at run
    split at run
    case isTrue range =>
      obtain ⟨_, run, -⟩ := of_answer_ok run
      have count : (Tape.controlBits (width - 1) value).length = width := by
        rw [length_controlBits, Nat.sub_add_cancel range.1]
      rw [Call.puts, if_pos range, ← count]
      exact stocked.pushBits positive run
    case isFalse => cases run
  | pushArray k values =>
    obtain ⟨_, run, -⟩ := of_answer_ok run
    rw [Call.puts, ← k.length_encodeAll]
    exact stocked.pushBulk positive run
  | pushBytes data isProtected =>
    obtain ⟨_, run, -⟩ := of_answer_ok run
    exact stocked.pushBulk positive run
  | _ => cases isPush

/-- A push that fails leaves the tape as it was but for the bits of a tag that got in before. -/
lemma of_failed_push {c : Call} {e : Failure} (stocked : f.Stocked capacity live) (sound : f.Sound)
    (positive : 0 < capacity) (isPush : c.isPush = true) (run : c.performFlat f = .error e g) :
    g.Stocked capacity (List.replicate (c.bitsBefore f.bits.index) .bit ++ live) := by
  cases c with
  | pushControl value width =>
    rw [Call.performFlat] at run
    split at run
    case isTrue range =>
      have short : (Tape.controlBits (width - 1) value).length ≤ BitBuffer.wordBits := by
        rw [length_controlBits, BitBuffer.wordBits]
        lia
      rw [Call.bitsBefore, if_pos range]
      exact stocked.stuckBits positive short (of_answer_error run)
    case isFalse refused =>
      obtain ⟨-, rfl⟩ := EStateM.Result.error.inj run
      rw [Call.bitsBefore, if_neg refused]
      exact stocked
  | push | pushBit | pushArray | pushBytes =>
    obtain rfl := performFlat_error rfl (by simp) sound run
    exact stocked
  | _ => cases isPush

/-- A pop of what lies on top finds it. -/
lemma of_pop {c : Call} (stocked : f.Stocked capacity (c.takes ++ live))
    (positive : 0 < capacity) (isPop : c.isPop = true) :
    (after (c.performFlat f)).Stocked capacity live := by
  cases c with
  | pop k =>
    obtain ⟨value, g, run, stocked⟩ := stocked.pop positive
    rw [Call.performFlat, bind_ok run]
    exact stocked
  | popBit =>
    obtain ⟨value, g, run, stocked⟩ := stocked.popBit positive
    rw [Call.performFlat, bind_ok run]
    exact stocked
  | popControl width =>
    rw [Call.takes] at stocked
    rw [Call.performFlat]
    split
    case isTrue range =>
      rw [if_pos range] at stocked
      obtain ⟨tag, g, run, stocked⟩ := stocked.popBits 0 positive
      rw [bind_ok run]
      exact stocked
    case isFalse refused =>
      rw [if_neg refused] at stocked
      exact stocked
  | popArray k count =>
    obtain ⟨data, g, run, stocked⟩ := stocked.popBulk true positive
    rw [Call.performFlat, bind_ok run]
    exact stocked
  | popBytes count isProtected =>
    obtain ⟨data, g, run, stocked⟩ := stocked.popBulk isProtected positive
    rw [Call.performFlat, bind_ok run]
    exact stocked
  | _ => cases isPop

end Stocked

end FlatTape

namespace Tape

/-- What is live may be written in another way. -/
lemma Stacked.of_eq {geometry : Geometry} {t : Tape} {live live' : List Load}
    (run : t.Stacked geometry live) (same : live = live') : t.Stacked geometry live' := same ▸ run

/-- A tape that was only pushed on and popped from is stocked with what is live on it. -/
lemma Stacked.spec {geometry : Geometry} {t : Tape} {live : List Load}
    (run : t.Stacked geometry live) :
    t.Sound ∧ 0 < geometry.capacity ∧ t.flat.Stocked geometry.capacity live := by
  induction run with
  | create created =>
    obtain ⟨sound, flat⟩ := create_spec created
    have positive : 0 < geometry.capacity := by
      have room := sound.levels.roomy.valid .integer4
      rw [flat] at room
      exact Nat.zero_lt_of_lt room
    refine ⟨sound, positive, ?_⟩
    rw [flat]
    refine ⟨rfl, rfl, fun _ => (Nat.zero_mod _).symm, rfl, ?_⟩
    simp [Load.spilled, FlatTape.empty, FlatStack.empty, ScalarKind.all]
  | @push t live c run isPush ih =>
    obtain ⟨sound, positive, stocked⟩ := ih
    obtain ⟨sound', view⟩ := perform_commutes c t sound
    refine ⟨sound', positive, ?_⟩
    rw [Call.leavesBehind]
    cases done : c.perform t with
    | ok a t' =>
      rw [done] at view
      exact stocked.of_push positive isPush view.symm
    | error e t' =>
      rw [done] at view
      exact stocked.of_failed_push sound.levels positive isPush view.symm
  | @pop t live c run isPop ih =>
    obtain ⟨sound, positive, stocked⟩ := ih
    obtain ⟨sound', view⟩ := perform_commutes c t sound
    refine ⟨sound', positive, ?_⟩
    rw [← after_through flat, view]
    exact stocked.of_pop positive isPop
  | memory m run ih =>
    obtain ⟨sound, positive, ⟨size, ground, valid, bits, cursor⟩⟩ := ih
    exact ⟨sound.withMemory m, positive, ⟨size, ground, valid, bits, cursor⟩⟩

end Tape

/-- Buffering is exact. After every call of a run from a new tape, without levels and seeks, in
which every pop asks for what was pushed last: every buffer holds the number of its scalars that are
live modulo the capacity, the word holds the number of live bits modulo 32, and the cursor stands
behind all full buffers, all full words and the bytes of all live arrays and byte strings. Runs that
leave the same live leave the cursor at the same place, whatever spilled and was taken back in
between. -/
theorem buffering_is_exact {geometry : Geometry} {t : Tape} {live : List Load}
    (run : t.Stacked geometry live) :
    (∀ k, (t.area.get k).index = live.count (.scalar k) % geometry.capacity) ∧
      t.area.bits.index = live.count .bit % 32 ∧
      t.location = (ScalarKind.all.map fun k =>
          geometry.capacity * k.width * (live.count (.scalar k) / geometry.capacity)).sum +
        4 * (live.count .bit / 32) + (live.map Load.bulkSize).sum ∧
      ∀ u : Tape, u.Stacked geometry live → u.location = t.location := by
  obtain ⟨sound, -, stocked⟩ := run.spec
  refine ⟨fun k => ?_, stocked.bits, stocked.cursor, fun u run' => ?_⟩
  · rw [← stocked.valid k, ← (sound.blocks.buffers k).length_valid]
    exact (List.length_reverse).symm
  · obtain ⟨-, -, stocked'⟩ := run'.spec
    exact stocked'.cursor.trans stocked.cursor.symm

/-- A buffer that spills, is taken back and spills again, and a tag that loses its last bit. -/
theorem buffering_is_exact_across_a_spill :
    ∃ t : Tape, t.Stacked ⟨3, 2⟩
        [.bulk 8, .bit, .bit, .scalar .integer4, .scalar .integer4] ∧ t.location = 16 := by
  have created : Tape.create ⟨3, 2⟩ none = .ok _ := rfl
  have full := ((Tape.Stacked.create created).push (c := .push .integer4 1) rfl).push
    (c := .push .integer4 2) rfl
  have refilled : Tape.Stacked ⟨3, 2⟩ _ [.scalar .integer4] :=
    .pop (c := .pop .integer4) (full.of_eq (by decide +kernel)) rfl
  have tagged := (refilled.push (c := .push .integer4 3) rfl).push (c := .pushControl 5 3) rfl
  have last : Tape.Stacked ⟨3, 2⟩ _ [.bit, .bit, .scalar .integer4, .scalar .integer4] :=
    .pop (c := .popBit) (tagged.of_eq (by decide +kernel)) rfl
  have run := last.push (c := .pushArray .integer8 [7]) rfl
  obtain ⟨t, run⟩ : ∃ t : Tape, t.Stacked ⟨3, 2⟩
      [.bulk 8, .bit, .bit, .scalar .integer4, .scalar .integer4] :=
    ⟨_, run.of_eq (by decide +kernel)⟩
  exact ⟨t, run, (buffering_is_exact run).2.2.1.trans (by decide)⟩

end AdjointTape

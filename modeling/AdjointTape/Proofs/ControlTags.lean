import AdjointTape.Proofs.Failing
import AdjointTape.Proofs.Undoing

/-!
# Control tags that fail halfway

A control tag has at most eight bits and a word holds thirty-two, so a tag meets the end of a word
at most once: the bits before that go into the buffer or come out of it, the word is spilled or
taken back, and the other bits follow.  Only the transfer of the word can fail.  The transfer
changes nothing then, but the bits that were moved before it are not moved back.
-/

open AdjointTape.Action

namespace AdjointTape

namespace BitBuffer

/-- The buffer with bits put into its word one after the other. -/
def appendAll (b : BitBuffer) (bits : List Bool) : BitBuffer :=
  bits.foldl (fun b bit => ⟨append b.word bit, b.index + 1⟩) b

/-- The first bit is put in, and then the others. -/
lemma appendAll_cons (b : BitBuffer) (bit : Bool) (bits : List Bool) :
    b.appendAll (bit :: bits) = appendAll ⟨append b.word bit, b.index + 1⟩ bits := rfl

/-- Bits that find places in the word become valid. -/
lemma valid_appendAll {b : BitBuffer} {bits : List Bool}
    (room : b.index + bits.length ≤ wordBits) :
    (b.appendAll bits).valid = bits.reverse ++ b.valid := by
  induction bits generalizing b with
  | nil => rfl
  | cons bit rest ih =>
    rw [List.length_cons] at room
    have first := valid_append (b := b) bit (by lia)
    rw [appendAll_cons, ih (by dsimp only; lia), first, List.reverse_cons, List.append_assoc]
    rfl

end BitBuffer

namespace FlatTape

/-! ## Pushing bits -/

/-- What pushing bits does where at most one word gets full: they are held, or the word is spilled
in between, or it is stuck and the bits before are held. -/
inductive PushesBits (f : FlatTape) :
    List Bool → EStateM.Result Failure FlatTape Unit → Prop where
  | held {bits : List Bool} (room : f.bits.index + bits.length < BitBuffer.wordBits) :
    PushesBits f bits (.ok () { f with bits := f.bits.appendAll bits })
  | spilled {first rest : List Bool} {last : Bool}
    (full : f.bits.index + first.length + 1 = BitBuffer.wordBits) :
    PushesBits f (first ++ last :: rest)
      (.ok ()
        { f with
          stack := f.stack.pushed
            (BitBuffer.encode (BitBuffer.append (f.bits.appendAll first).word last)) true
          bits := BitBuffer.empty.appendAll rest })
  | stuck {first rest : List Bool} {last : Bool} {blocks blockSize : Nat}
    (full : f.bits.index + first.length + 1 = BitBuffer.wordBits) :
    PushesBits f (first ++ last :: rest)
      (.error (.outOfMemory blocks blockSize) { f with bits := f.bits.appendAll first })

/-- Bits that do not fill the word are put into it. -/
lemma pushBits_room {f : FlatTape} {bits : List Bool}
    (room : f.bits.index + bits.length < BitBuffer.wordBits) :
    pushBits bits f = .ok () { f with bits := f.bits.appendAll bits } := by
  induction bits generalizing f with
  | nil => rfl
  | cons bit rest ih =>
    rw [List.length_cons] at room
    rw [pushBits, bind_ok (pushBit_room (by lia)), ih (by dsimp only; lia)]
    rfl

/-- A first bit that is held comes before what happens to the others. -/
lemma PushesBits.cons {f : FlatTape} {bit : Bool} {bits : List Bool}
    {r : EStateM.Result Failure FlatTape Unit}
    (pushes : PushesBits
      { f with bits := ⟨BitBuffer.append f.bits.word bit, f.bits.index + 1⟩ } bits r) :
    PushesBits f (bit :: bits) r := by
  cases pushes with
  | held room =>
    apply @PushesBits.held f (bit :: bits)
    rw [List.length_cons]
    dsimp only at room
    lia
  | @spilled first rest last full =>
    apply @PushesBits.spilled f (bit :: first)
    rw [List.length_cons]
    dsimp only at full
    lia
  | @stuck first rest last _ _ full =>
    apply @PushesBits.stuck f (bit :: first)
    rw [List.length_cons]
    dsimp only at full
    lia

/-- No more bits than a word holds fill at most one word. -/
lemma pushBits_spec {f : FlatTape} (bits : List Bool) (few : f.bits.index < BitBuffer.wordBits)
    (short : bits.length ≤ BitBuffer.wordBits) : PushesBits f bits (pushBits bits f) := by
  induction bits generalizing f with
  | nil => exact .held few
  | cons bit rest ih =>
    rw [List.length_cons] at short
    rw [pushBits]
    by_cases full : BitBuffer.wordBits ≤ f.bits.index + 1
    case neg =>
      rw [bind_ok (pushBit_room full)]
      exact (ih (Nat.lt_of_not_le full) (Nat.le_of_succ_le short)).cons
    case pos =>
      have last : f.bits.index + 1 = BitBuffer.wordBits := Nat.le_antisymm few full
      obtain spill | ⟨blocks, blockSize, stuck⟩ := pushBit_cases bit full
      · rw [bind_ok spill, pushBits_room (by simp only [BitBuffer.empty]; lia)]
        exact @PushesBits.spilled f [] rest bit last
      · rw [bind_error stuck]
        exact @PushesBits.stuck f [] rest bit _ _ last

/-! ## Popping bits -/

/-- Bits that are buffered are popped without the stack. -/
lemma popBits_held {f : FlatTape} {count : Nat} (value : Nat) (enough : count ≤ f.bits.index) :
    ∃ tag f', popBits count value f = .ok tag f' := by
  induction count generalizing f value with
  | zero => exact ⟨value, f, rfl⟩
  | succ count ih =>
    obtain ⟨index, held⟩ := Nat.exists_eq_succ_of_ne_zero (Nat.ne_zero_of_lt enough)
    rw [popBits, bind_ok (popBit_held held)]
    exact ih _ (Nat.le_of_succ_le_succ (held ▸ enough))

/-- A word that was taken back leaves all its bits but the last one. -/
lemma index_popBit {f f' : FlatTape} {bit : Bool} (empty : f.bits.index = 0)
    (run : popBit f = .ok bit f') : f'.bits.index = BitBuffer.wordBits - 1 := by
  rw [popBit_refill empty] at run
  cases back : FlatStack.pop 4 true f.stack with
  | ok bytes stack =>
    rw [bind_ok (onStack_ok back)] at run
    cases run
    rfl
  | error e stack =>
    rw [bind_error (onStack_error back)] at run
    cases run

/-- Popping bits fails only after all that were buffered are popped. -/
lemma popBits_error {f f' : FlatTape} {count value : Nat} {e : Failure}
    (short : count ≤ BitBuffer.wordBits) (fails : popBits count value f = .error e f') :
    ∃ bits : BitBuffer, bits.index = 0 ∧ f' = { f with bits } := by
  induction count generalizing f value with
  | zero => cases fails
  | succ count ih =>
    rw [popBits] at fails
    cases held : f.bits.index with
    | succ index =>
      rw [bind_ok (popBit_held held)] at fails
      obtain ⟨bits, zero, same⟩ := ih (Nat.le_of_succ_le short) fails
      exact ⟨bits, zero, same⟩
    | zero =>
      obtain run | ⟨bit, f1, run, last⟩ := of_bind_error fails
      · obtain rfl := allOrNothing_popBit run
        exact ⟨f'.bits, held, rfl⟩
      · have enough : count ≤ f1.bits.index := by
          rw [index_popBit held run]
          exact Nat.le_sub_one_of_lt short
        obtain ⟨tag, f2, done⟩ := popBits_held (2 * value + bit.toNat) enough
        cases done.symm.trans last

end FlatTape

/-! ## What a tag that fails leaves -/

namespace Call

/-- The number of bits that a control call moves before it needs the stack, with `index` bits in
the buffer; none when its width is refused. -/
def bitsBefore (index : Nat) : Call → Nat
  | .pushControl _ width => if 1 ≤ width ∧ width ≤ 8 then BitBuffer.wordBits - 1 - index else 0
  | .popControl width => if 1 ≤ width ∧ width ≤ 8 then index else 0
  | _ => 0

/-- The bits, the last one first, that a control call leaves in the buffer when it fails. -/
def leaves (valid : List Bool) : Call → List Bool
  | .pushControl value width =>
    let moved := bitsBefore valid.length (.pushControl value width)
    ((Tape.controlBits (width - 1) value).take moved).reverse ++ valid
  | .popControl width => valid.drop (bitsBefore valid.length (.popControl width))
  | _ => valid

/-- A call that fails leaves the bits as they were only where it moves none before. -/
lemma leaves_eq_iff (c : Call) (valid : List Bool) :
    c.leaves valid = valid ↔ c.bitsBefore valid.length = 0 := by
  cases c with
  | pushControl value width =>
    constructor
    · intro same
      have length := congrArg List.length same
      rw [leaves, List.length_append, List.length_reverse, List.length_take,
        FlatTape.length_controlBits, Nat.add_eq_right, Nat.min_eq_zero_iff] at length
      exact length.resolve_right (Nat.succ_ne_zero _)
    · intro none
      rw [leaves, none]
      rfl
  | popControl width =>
    constructor
    · intro same
      have length := congrArg List.length same
      rw [leaves, List.length_drop] at length
      rw [bitsBefore] at length ⊢
      split at length
      case isTrue range =>
        rw [if_pos range]
        lia
      case isFalse range => rw [if_neg range]
    · intro none
      rw [leaves, none]
      rfl
  | _ => exact ⟨fun _ => rfl, fun _ => rfl⟩

end Call

namespace FlatTape

variable {f f' : FlatTape} {e : Failure}

/-- A control tag that cannot be pushed leaves the bits that were held before. -/
lemma pushControl_error {value width : Nat} (few : f.bits.index < BitBuffer.wordBits)
    (fails : (Call.pushControl value width).performFlat f = .error e f') :
    ∃ bits : BitBuffer, bits.valid = (Call.pushControl value width).leaves f.bits.valid ∧
      f' = { f with bits } := by
  rw [Call.leaves, Call.bitsBefore, BitBuffer.length_valid]
  rw [Call.performFlat] at fails
  split at fails
  case isFalse refused =>
    obtain ⟨-, rfl⟩ := EStateM.Result.error.inj fails
    rw [if_neg refused]
    exact ⟨f.bits, rfl, rfl⟩
  case isTrue range =>
    rw [if_pos range]
    have short : (Tape.controlBits (width - 1) value).length ≤ BitBuffer.wordBits := by
      rw [length_controlBits, BitBuffer.wordBits]
      lia
    have pushes := pushBits_spec _ few short
    generalize Tape.controlBits (width - 1) value = bits at pushes fails
    generalize run : pushBits bits f = r at pushes
    cases pushes with
    | held room =>
      rw [bind_ok run] at fails
      cases fails
    | spilled full =>
      rw [bind_ok run] at fails
      cases fails
    | @stuck first rest last _ _ full =>
      rw [bind_error run] at fails
      obtain ⟨-, rfl⟩ := EStateM.Result.error.inj fails
      refine ⟨f.bits.appendAll first, ?_, rfl⟩
      rw [BitBuffer.valid_appendAll (by lia), List.take_left' (by lia)]

/-- A control tag that cannot be popped has taken the bits that were buffered. -/
lemma popControl_error {width : Nat}
    (fails : (Call.popControl width).performFlat f = .error e f') :
    ∃ bits : BitBuffer, bits.valid = (Call.popControl width).leaves f.bits.valid ∧
      f' = { f with bits } := by
  rw [Call.leaves, Call.bitsBefore, BitBuffer.length_valid]
  rw [Call.performFlat] at fails
  split at fails
  case isFalse refused =>
    obtain ⟨-, rfl⟩ := EStateM.Result.error.inj fails
    rw [if_neg refused]
    exact ⟨f.bits, rfl, rfl⟩
  case isTrue range =>
    rw [if_pos range]
    cases run : popBits width 0 f with
    | ok tag f1 =>
      rw [bind_ok run] at fails
      cases fails
    | error e1 f1 =>
      rw [bind_error run] at fails
      obtain ⟨-, rfl⟩ := EStateM.Result.error.inj fails
      have short : width ≤ BitBuffer.wordBits := Nat.le_trans range.2 (Nat.le_add_left 8 24)
      obtain ⟨bits, zero, same⟩ := popBits_error short run
      have none : bits.valid = [] := by
        rw [← List.length_eq_zero_iff, BitBuffer.length_valid, zero]
      refine ⟨bits, ?_, same⟩
      rw [none, List.drop_of_length_le (Nat.le_of_eq (BitBuffer.length_valid _))]

/-- A control call that fails changes nothing but the bit buffer. -/
lemma control_error {c : Call} (control : c.isControl = true)
    (few : f.bits.index < BitBuffer.wordBits) (fails : c.performFlat f = .error e f') :
    ∃ bits : BitBuffer, bits.valid = c.leaves f.bits.valid ∧ f' = { f with bits } := by
  cases c with
  | pushControl value width => exact pushControl_error few fails
  | popControl width => exact popControl_error fails
  | _ => cases control

end FlatTape

/-- Tapes that are the same but for their buffered bits. -/
structure Tape.SameButBits (t u : Tape) : Prop where
  location : u.location = t.location
  levels : u.stack.levels = t.stack.levels
  chain : u.stack.chain = t.stack.chain
  marks : u.marks = t.marks
  valid : ∀ k, (u.area.get k).valid = (t.area.get k).valid
  totalTraffic : u.totalTraffic = t.totalTraffic

/-- A control tag fails between two of its bits. On every reachable tape a control call that fails
leaves the cursor, the levels with their redirects and marks, every block, every scalar and the
traffic as they were, but not the bits: those that it moved before it needed the stack stay where
they went. The bits are as before only where the width is refused or the first bit of the tag needs
the stack. -/
theorem failing_control_call_leaves_bits_moved {t t' : Tape} {c : Call} {e : Failure}
    (reachable : t.Reachable) (control : c.isControl = true) (fails : c.perform t = .error e t') :
    t.SameButBits t' ∧ t'.area.bits.valid = c.leaves t.area.bits.valid ∧
      (t'.area.bits.valid = t.area.bits.valid ↔ c.bitsBefore t.area.bits.index = 0) := by
  have sound := reachable.sound
  obtain ⟨sound', view⟩ := Tape.perform_commutes c t sound
  rw [fails] at sound' view
  obtain ⟨bits, left, same⟩ := FlatTape.control_error control sound.levels.roomy.bits view.symm
  have bits' : t'.area.bits = bits := congrArg FlatTape.bits same
  have stack : t'.stack.flat = t.stack.flat := congrArg FlatTape.stack same
  have chain := sound.blocks.stack.chain.ext sound'.blocks.stack.chain
    (congrArg FlatStack.blocks stack) (congrArg FlatStack.blockSize stack)
    (congrArg FlatStack.memory stack) (congrArg FlatStack.bytes stack)
  have buffered : t'.buffered = t.buffered := congrArg FlatTape.buffered same
  have traffic : t'.totalTraffic = t.totalTraffic :=
    congrArg₂ Tape.addSaturating (congrArg FlatStack.traffic stack) buffered
  refine ⟨⟨congrArg FlatStack.cursor stack, congrArg FlatStack.levels stack, chain,
    congrArg FlatTape.marks same, fun k => ?_, traffic⟩, bits' ▸ left, ?_⟩
  · exact List.reverse_injective (congrFun (congrArg FlatTape.valid same) k)
  · rw [bits', left, ← BitBuffer.length_valid]
    exact c.leaves_eq_iff _

/-- The second bit of a tag fills a word for which there is no room. -/
theorem failing_control_call_leaves_bits_moved_before_a_spill :
    ∃ (t t' : Tape) (e : Failure), t.Reachable ∧ (Call.pushControl 5 3).isControl = true ∧
      (Call.pushControl 5 3).perform t = .error e t' ∧
        t.area.bits.index = 30 ∧ t'.area.bits.index = 31 ∧
      t.SameButBits t' ∧
        t'.area.bits.valid = (Call.pushControl 5 3).leaves t.area.bits.valid ∧
        (t'.area.bits.valid = t.area.bits.valid ↔
          (Call.pushControl 5 3).bitsBefore t.area.bits.index = 0) := by
  have created : Tape.create ⟨4, 2⟩ (some 1) = .ok _ := rfl
  have reachable := (Tape.Reachable.create created).run [.pushBytes [1, 2, 3, 4] true,
    .pushControl 255 8, .pushControl 0 8, .pushControl 255 8, .pushControl 21 6]
  obtain ⟨t, reachable, full, before, after'⟩ : ∃ t : Tape, t.Reachable ∧
      ranOut (outcome ((Call.pushControl 5 3).perform t)) = true ∧ t.area.bits.index = 30 ∧
        (after ((Call.pushControl 5 3).perform t)).area.bits.index = 31 :=
    ⟨_, reachable, by decide +kernel, by decide +kernel, by decide +kernel⟩
  obtain ⟨blocks, blockSize, fails⟩ := error_of_ranOut full
  exact ⟨t, _, _, reachable, rfl, fails, before, after',
    failing_control_call_leaves_bits_moved reachable rfl fails⟩

/-- A tag of two bits takes the one bit there is, and fails. -/
theorem failing_control_call_takes_a_bit :
    ∃ (t t' : Tape) (e : Failure), t.Reachable ∧ (Call.popControl 2).perform t = .error e t' ∧
      t.area.bits.valid = [true] ∧ t'.area.bits.valid = [] := by
  have created : Tape.create ⟨4, 2⟩ none = .ok _ := rfl
  have reachable := (Tape.Reachable.create created).call (.pushBit true)
  exact ⟨_, _, _, reachable, rfl, by decide +kernel, by decide +kernel⟩

end AdjointTape

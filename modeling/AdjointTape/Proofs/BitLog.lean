import AdjointTape.Proofs.ControlTags
import AdjointTape.Proofs.Replay
import Mathlib.Data.Nat.Digits.Defs

/-!
# A log of the bits

What the calls do to the bits, told without a word: which bits are buffered after a call depends on
those that were, on how the call ended and, when a word is taken back, on the bytes it is made of.
Beside the bits that are buffered the log has those that each open level saved.  As long as a word
has no bit above its fill index it is the same thing as the bits that are buffered.
-/

open AdjointTape.Action

namespace AdjointTape

namespace BitBuffer

/-! ## Words without stray bits -/

/-- Whether the word has no bit above the fill index. -/
def Strict (b : BitBuffer) : Prop := b.word.toNat < 2 ^ b.index

/-- A strict word is zero when no bit is buffered. -/
lemma Strict.word_eq_zero {b : BitBuffer} (strict : b.Strict) (empty : b.index = 0) :
    b.word = 0 := by
  rw [Strict, empty] at strict
  exact UInt32.toNat_inj.1 (Nat.lt_one_iff.1 strict)

/-- The empty buffer is strict. -/
lemma strict_empty : empty.Strict := Nat.zero_lt_one

/-- A word that is full is strict. -/
lemma strict_word (word : UInt32) : Strict ⟨word, wordBits⟩ := word.toNat_lt

/-- A bit that is appended lets no stray bit in. -/
lemma strict_append {b : BitBuffer} (strict : b.Strict) (bit : Bool) :
    Strict ⟨append b.word bit, b.index + 1⟩ := by
  refine Nat.lt_pow_two_of_testBit _ fun i above => ?_
  obtain ⟨i, rfl⟩ := Nat.exists_eq_add_one.2 (Nat.zero_lt_of_lt above)
  by_cases inside : i + 1 < wordBits
  · rw [testBit_append_succ b.word bit inside]
    have le : 2 ^ b.index ≤ 2 ^ i := Nat.pow_le_pow_right Nat.two_pos (Nat.le_of_succ_le_succ above)
    exact Nat.testBit_lt_two_pow (Nat.lt_of_lt_of_le strict le)
  · have le : 2 ^ wordBits ≤ 2 ^ (i + 1) :=
      Nat.pow_le_pow_right Nat.two_pos (Nat.le_of_not_lt inside)
    exact Nat.testBit_lt_two_pow (Nat.lt_of_lt_of_le (append b.word bit).toNat_lt le)

/-- A word is its last bit and the word without it. -/
lemma toNat_takeLast (word : UInt32) (index : Nat) :
    word.toNat = (takeLast word index).1.toNat + 2 * (takeLast word index).2.word.toNat := by
  have rest : (word >>> 1).toNat = word.toNat / 2 := by
    rw [UInt32.toNat_shiftRight]
    exact Nat.shiftRight_eq_div_pow _ _
  have last : (decide (word &&& 1 = 1)).toNat = word.toNat % 2 := by
    rw [← Nat.and_one_is_mod]
    simp only [← UInt32.toNat_inj, UInt32.toNat_and, UInt32.toNat_one]
    obtain zero | one := Nat.mod_two_eq_zero_or_one word.toNat <;> simp [*]
  rw [takeLast, last, rest]
  exact (Nat.mod_add_div _ _).symm

/-- A bit that is taken off leaves no stray bit behind. -/
lemma strict_takeLast {word : UInt32} {index : Nat} (strict : Strict ⟨word, index + 1⟩) :
    (takeLast word index).2.Strict := by
  have parts := toNat_takeLast word index
  rw [Strict, Nat.pow_succ] at strict
  change (takeLast word index).2.word.toNat < 2 ^ index
  dsimp only at strict
  lia

/-- The buffered bits, the last one first, are the binary digits of the word, the lowest first. -/
lemma ofDigits_valid {b : BitBuffer} (strict : b.Strict) :
    Nat.ofDigits 2 (b.valid.map Bool.toNat) = b.word.toNat := by
  obtain ⟨word, index⟩ := b
  induction index generalizing word with
  | zero =>
    rw [strict.word_eq_zero rfl]
    rfl
  | succ index ih =>
    have rest := ih (word >>> 1) (strict_takeLast strict)
    rw [valid_takeLast, List.map_cons, Nat.ofDigits_cons]
    exact (congrArg (_ + 2 * ·) rest).trans (toNat_takeLast word index).symm

/-! ## Words on the tape -/

/-- The bits of bytes, those of the first byte first and the lowest of a byte first. -/
def bitsOf (bytes : List UInt8) : List Bool :=
  bytes.flatMap fun byte => (List.range 8).map byte.toNat.testBit

/-- The bits of a decoded word are those of its bytes. -/
lemma testBits_decode (bytes : List UInt8) :
    (List.range (8 * bytes.length)).map (LittleEndian.decode bytes).testBit = bitsOf bytes := by
  induction bytes with
  | nil => rfl
  | cons byte rest ih =>
    have small : byte.toNat < 2 ^ 8 := byte.toNat_lt
    have parts (i : Nat) : (LittleEndian.decode (byte :: rest)).testBit i =
        if i < 8 then byte.toNat.testBit i else (LittleEndian.decode rest).testBit (i - 8) := by
      rw [LittleEndian.decode, Nat.add_comm]
      exact Nat.testBit_two_pow_mul_add _ small i
    rw [List.length_cons, Nat.mul_succ, Nat.add_comm, List.range_add, List.map_append, List.map_map,
      bitsOf, List.flatMap_cons]
    refine congrArg₂ _ (List.map_congr_left fun i mem => ?_) (Eq.trans ?_ ih)
    · rw [parts, if_pos (List.mem_range.1 mem)]
    · refine List.map_congr_left fun i _ => ?_
      rw [Function.comp, parts, if_neg (Nat.not_lt.2 (Nat.le_add_right 8 i)),
        Nat.add_sub_cancel_left]

/-- The bits of a word that is taken back. -/
lemma valid_decode {bytes : List UInt8} (length : bytes.length = 4) :
    valid ⟨decode bytes, wordBits⟩ = bitsOf bytes := by
  rw [← testBits_decode, length, valid]
  refine List.map_congr_left fun i mem => ?_
  have inside : i < 32 := List.mem_range.1 mem
  rw [decode, UInt32.toNat_ofNat', Nat.testBit_mod_two_pow, decide_eq_true inside, Bool.true_and]

end BitBuffer

/-! ## The bits that should be there -/

/-- The bits that belong on a tape: those that are buffered and, for every open level, those that
were buffered when it was opened, the active level first.  In a list of bits the last one that was
pushed comes first. -/
structure BitLog where
  buffered : List Bool
  saved : List (List Bool)

namespace BitLog

/-- No bits. -/
def empty : BitLog := ⟨[], []⟩

/-- What is buffered after bits are pushed: the oldest of them leave when a word is full. -/
def pushed (bits buffered : List Bool) : List Bool :=
  let all := bits.reverse ++ buffered
  if all.length < BitBuffer.wordBits then all else all.take (all.length - BitBuffer.wordBits)

/-- What is buffered after `count` bits are popped: when there are too few, a word takes their
place. -/
def popped (count : Nat) (word buffered : List Bool) : List Bool :=
  if count ≤ buffered.length then buffered.drop count else word.drop (count - buffered.length)

/-- The bits after a call that ended this way, where `word` was the next one on the byte stack. -/
def next (log : BitLog) (word : List Bool) : Call → Except Failure Answer → BitLog
  | c, .error _ => { log with buffered := c.leaves log.buffered }
  | .pushBit bit, .ok _ => { log with buffered := pushed [bit] log.buffered }
  | .pushControl value width, .ok _ =>
    { log with buffered := pushed (Tape.controlBits (width - 1) value) log.buffered }
  | .popBit, .ok _ => { log with buffered := popped 1 word log.buffered }
  | .popControl width, .ok _ => { log with buffered := popped width word log.buffered }
  | .startRepeat, .ok _ => { log with saved := log.buffered :: log.saved }
  | .resetRepeat, .ok _ => { log with buffered := log.saved.headD [] }
  | .endRepeat, .ok _ => { log with saved := log.saved.tail }
  | _, .ok _ => log

/-- Too few bits to fill the word are all buffered. -/
lemma pushed_room {bits buffered : List Bool}
    (room : buffered.length + bits.length < BitBuffer.wordBits) :
    pushed bits buffered = bits.reverse ++ buffered := by
  refine if_pos ?_
  rw [List.length_append, List.length_reverse, Nat.add_comm]
  exact room

/-- Bits that fill the word leave behind those that come after it. -/
lemma pushed_full {first rest buffered : List Bool} {last : Bool}
    (full : buffered.length + first.length + 1 = BitBuffer.wordBits) :
    pushed (first ++ last :: rest) buffered = rest.reverse := by
  have split : (first ++ last :: rest).reverse ++ buffered =
      rest.reverse ++ (last :: (first.reverse ++ buffered)) := by simp
  have length : (rest.reverse ++ (last :: (first.reverse ++ buffered))).length =
      rest.reverse.length + BitBuffer.wordBits := by
    rw [← full, List.length_append, List.length_cons, List.length_append, List.length_reverse,
      List.length_reverse]
    lia
  rw [pushed, split, length, if_neg (Nat.not_lt.2 (Nat.le_add_left _ _)), Nat.add_sub_cancel]
  exact List.take_left

/-- A buffered bit is popped first. -/
lemma popped_cons (bit : Bool) (count : Nat) (word buffered : List Bool) :
    popped (count + 1) word (bit :: buffered) = popped count word buffered := by
  simp only [popped, List.length_cons, Nat.add_le_add_iff_right, Nat.add_sub_add_right,
    List.drop_succ_cons]

/-- As long as there are enough bits the word on the stack is left there. -/
lemma popped_few {count : Nat} {buffered : List Bool} (word : List Bool)
    (enough : count ≤ buffered.length) : popped count word buffered = buffered.drop count :=
  if_pos enough

/-- Where no bit is buffered the word on the stack takes their place. -/
lemma popped_nil (count : Nat) (word : List Bool) :
    popped (count + 1) word [] = word.drop (count + 1) := if_neg (Nat.not_succ_le_zero _)

/-- A call that fails leaves the levels alone, and at most takes bits with it. -/
lemma next_error (log : BitLog) (word : List Bool) (c : Call) (e : Failure) :
    log.next word c (.error e) = { log with buffered := c.leaves log.buffered } := rfl

/-- Only the calls that open or close a level change what is saved. -/
lemma saved_next (log : BitLog) (word : List Bool) {c : Call} (opens : c ≠ .startRepeat)
    (closes : c ≠ .endRepeat) (o : Except Failure Answer) :
    (log.next word c o).saved = log.saved := by
  cases o with
  | error e => rfl
  | ok a =>
    cases c with
    | startRepeat => exact absurd rfl opens
    | endRepeat => exact absurd rfl closes
    | _ => rfl

end BitLog

/-- Whether a call puts bits into the buffer, takes them out or brings others back. -/
def Call.movesBits : Call → Bool
  | .pushBit _ => true
  | .popBit => true
  | .pushControl _ _ => true
  | .popControl _ => true
  | .resetRepeat => true
  | _ => false

namespace FlatTape

/-! ## Calls that leave the bits alone -/

/-- A step that leaves the bits alone. -/
def SameBits (f f' : FlatTape) : Prop := f'.bits = f.bits

/-- Steps that leave the bits alone can be put together. -/
lemma SameBits.trans (f g h : FlatTape) (first : SameBits f g) (next : SameBits g h) :
    SameBits f h := Eq.trans next first

/-- A call on the stack leaves the bits alone. -/
lemma sameBits_onStack {α : Type} (call : Action FlatStack α) : Steps SameBits (onStack call) := by
  intro f
  rw [onStack]
  split <;> rfl

/-- A scalar that is pushed leaves the bits alone. -/
lemma sameBits_push (k : ScalarKind) (value : k.Carrier) : Steps SameBits (push k value) := by
  intro f
  by_cases room : (f.valid k).length + 1 < f.capacity
  · rw [push_room room]
    rfl
  · obtain run | ⟨blocks, blockSize, run⟩ := push_full_cases value room
    · rw [run]
      rfl
    · rw [run]
      rfl

/-- A scalar that is popped leaves the bits alone. -/
lemma sameBits_pop (k : ScalarKind) : Steps SameBits (pop k) := by
  intro f
  cases held : f.valid k with
  | cons value rest =>
    rw [pop_held held]
    rfl
  | nil =>
    rw [pop_refill held]
    apply Steps.seq SameBits.trans (sameBits_onStack _)
    exact fun _ _ => rfl

/-- Opening a level leaves the bits alone. -/
lemma sameBits_startRepeat : Steps SameBits startRepeat := by
  intro f
  rw [startRepeat]
  split <;> rfl

/-- Closing a level leaves the bits alone. -/
lemma sameBits_endRepeat : Steps SameBits endRepeat := by
  intro f
  rw [endRepeat]
  split <;> rfl

/-- A call that is not about bits leaves them alone. -/
lemma sameBits_performFlat {c : Call} (still : c.movesBits = false) :
    Steps SameBits c.performFlat := by
  cases c with
  | push k value => exact (sameBits_push k value).answer _
  | pop k => exact (sameBits_pop k).answer _
  | pushBit bit => cases still
  | popBit => cases still
  | pushControl value width => cases still
  | popControl width => cases still
  | pushArray k values => exact (sameBits_onStack _).answer _
  | popArray k count => exact (sameBits_onStack _).answer _
  | pushBytes data isProtected => exact (sameBits_onStack _).answer _
  | popBytes count isProtected => exact (sameBits_onStack _).answer _
  | startRepeat => exact sameBits_startRepeat.answer _
  | resetRepeat => cases still
  | endRepeat => exact sameBits_endRepeat.answer _
  | setLocation l => exact (sameBits_onStack _).answer _

/-! ## Calls that move bits -/

/-- A step that lets no stray bits in. -/
def KeepsStrict (f f' : FlatTape) : Prop := f.bits.Strict → f'.bits.Strict

/-- Steps that let no stray bits in can be put together. -/
lemma KeepsStrict.trans (f g h : FlatTape) (first : KeepsStrict f g) (next : KeepsStrict g h) :
    KeepsStrict f h := next ∘ first

/-- A step that leaves the bits alone lets no stray ones in. -/
lemma SameBits.keepsStrict {f f' : FlatTape} (same : SameBits f f') : KeepsStrict f f' :=
  fun strict => (congrArg BitBuffer.Strict same).mpr strict

/-- A call on the stack lets no stray bits in. -/
lemma keepsStrict_onStack {α : Type} (call : Action FlatStack α) :
    Steps KeepsStrict (onStack call) := fun f => (sameBits_onStack call f).keepsStrict

/-- A bit that is pushed lets no stray bits in. -/
lemma keepsStrict_pushBit (bit : Bool) : Steps KeepsStrict (pushBit bit) := by
  intro f
  by_cases full : BitBuffer.wordBits ≤ f.bits.index + 1
  · rw [pushBit_spill full]
    apply Steps.seq KeepsStrict.trans (keepsStrict_onStack _)
    exact fun _ _ _ => BitBuffer.strict_empty
  · rw [pushBit_room full]
    exact fun strict => BitBuffer.strict_append strict bit

/-- A bit that is popped lets no stray bits in. -/
lemma keepsStrict_popBit : Steps KeepsStrict popBit := by
  intro f
  cases held : f.bits.index with
  | zero =>
    rw [popBit_refill held]
    apply Steps.seq KeepsStrict.trans (keepsStrict_onStack _)
    -- a word that is taken back counts as full, whatever its bytes were pushed for
    intro bytes f strict
    exact BitBuffer.strict_takeLast (BitBuffer.strict_word (BitBuffer.decode bytes))
  | succ index =>
    rw [popBit_held held]
    intro strict
    refine BitBuffer.strict_takeLast ?_
    rw [← held]
    exact strict

/-- Bits that are pushed let no stray bits in. -/
lemma keepsStrict_pushBits (bits : List Bool) : Steps KeepsStrict (pushBits bits) := by
  induction bits with
  | nil => exact Steps.ret (fun _ => id) ()
  | cons bit rest ih => exact Steps.seq KeepsStrict.trans (keepsStrict_pushBit bit) fun _ => ih

/-- Bits that are popped let no stray bits in. -/
lemma keepsStrict_popBits (count value : Nat) : Steps KeepsStrict (popBits count value) := by
  induction count generalizing value with
  | zero => exact Steps.ret (fun _ => id) value
  | succ count ih => exact Steps.seq KeepsStrict.trans keepsStrict_popBit fun _ => ih _

/-- No call but a restart, which brings back what was saved, could let stray bits in. -/
lemma keepsStrict_performFlat {c : Call} (restarts : c ≠ .resetRepeat) :
    Steps KeepsStrict c.performFlat := by
  cases moves : c.movesBits with
  | false => exact fun f => (sameBits_performFlat moves f).keepsStrict
  | true =>
    cases c with
    | pushBit bit => exact (keepsStrict_pushBit bit).answer _
    | popBit => exact keepsStrict_popBit.answer _
    | pushControl value width =>
      rw [Call.performFlat]
      split
      case isTrue => exact (keepsStrict_pushBits _).answer _
      case isFalse => exact fun f => id
    | popControl width =>
      rw [Call.performFlat]
      split
      case isTrue => exact (keepsStrict_popBits width 0).answer _
      case isFalse => exact fun f => id
    | resetRepeat => exact absurd rfl restarts
    | _ => cases moves

section Values

variable {f f' : FlatTape}

/-- Pushed bits are buffered as the log says. -/
lemma valid_pushBits {bits : List Bool} (few : f.bits.index < BitBuffer.wordBits)
    (short : bits.length ≤ BitBuffer.wordBits) (run : pushBits bits f = .ok () f') :
    f'.bits.valid = BitLog.pushed bits f.bits.valid := by
  have pushes := pushBits_spec bits few short
  rw [run] at pushes
  generalize result : EStateM.Result.ok () f' = r at pushes
  cases pushes with
  | held room =>
    obtain ⟨-, rfl⟩ := EStateM.Result.ok.inj result
    rw [BitLog.pushed_room (by rwa [BitBuffer.length_valid])]
    exact BitBuffer.valid_appendAll (Nat.le_of_lt room)
  | spilled full =>
    obtain ⟨-, rfl⟩ := EStateM.Result.ok.inj result
    rw [BitLog.pushed_full (by rwa [BitBuffer.length_valid])]
    rw [List.length_append, List.length_cons] at short
    refine (BitBuffer.valid_appendAll ?_).trans (List.append_nil _)
    rw [BitBuffer.empty]
    lia
  | stuck full => cases result

/-- What a word that is taken back leaves behind the bit that was popped. -/
lemma valid_popBit_refill {bit : Bool} (empty : f.bits.index = 0) (run : popBit f = .ok bit f') :
    f'.bits.valid = (BitBuffer.bitsOf (f.stack.top 4)).tail := by
  rw [popBit_refill empty] at run
  cases back : FlatStack.pop 4 true f.stack with
  | error e stack =>
    rw [bind_error (onStack_error back)] at run
    cases run
  | ok bytes stack =>
    rw [bind_ok (onStack_ok back)] at run
    obtain ⟨-, rfl⟩ := EStateM.Result.ok.inj run
    rw [FlatStack.pop] at back
    split at back
    case isTrue => cases back
    case isFalse =>
      obtain ⟨rfl, -⟩ := EStateM.Result.ok.inj back
      have word := BitBuffer.valid_takeLast (BitBuffer.decode (f.stack.top 4))
        (BitBuffer.wordBits - 1)
      have length : (f.stack.top 4).length = 4 := ByteMap.length_read _ _ _
      exact (congrArg List.tail ((BitBuffer.valid_decode length).symm.trans word)).symm

/-- Popped bits leave in the buffer what the log says. -/
lemma valid_popBits {count value tag : Nat} (short : count ≤ BitBuffer.wordBits)
    (run : popBits count value f = .ok tag f') :
    f'.bits.valid =
      BitLog.popped count (BitBuffer.bitsOf (f.stack.top 4)) f.bits.valid := by
  induction count generalizing f value with
  | zero =>
    obtain ⟨-, rfl⟩ := EStateM.Result.ok.inj run
    exact (BitLog.popped_few _ (Nat.zero_le _)).symm
  | succ count ih =>
    rw [popBits] at run
    cases held : f.bits.index with
    | succ index =>
      rw [bind_ok (popBit_held held)] at run
      have first : f.bits.valid = (BitBuffer.takeLast f.bits.word index).1 ::
          (BitBuffer.takeLast f.bits.word index).2.valid := by
        rw [← BitBuffer.valid_takeLast, ← held]
      rw [ih (Nat.le_of_succ_le short) run, first, BitLog.popped_cons]
    | zero =>
      have none : f.bits.valid = [] :=
        List.length_eq_zero_iff.1 ((BitBuffer.length_valid _).trans held)
      -- a word is taken back once, and has all the other bits
      obtain ⟨bit, f1, refill, last⟩ := of_bind_ok run
      have enough : count ≤ f1.bits.valid.length := by
        rw [BitBuffer.length_valid, index_popBit held refill]
        exact Nat.le_sub_one_of_lt short
      rw [ih (Nat.le_of_succ_le short) last, BitLog.popped_few _ enough,
        valid_popBit_refill held refill, none, BitLog.popped_nil, List.drop_tail]

/-- What a failing call leaves buffered. -/
lemma valid_error {c : Call} {e : Failure} (sound : f.Sound)
    (fails : c.performFlat f = .error e f') : f'.bits.valid = c.leaves f.bits.valid := by
  cases control : c.isControl with
  | true =>
    obtain ⟨bits, left, rfl⟩ := control_error control sound.roomy.bits fails
    exact left
  | false =>
    have same : f'.bits = f.bits := by
      by_cases opens : c = .startRepeat
      · subst opens
        have step := sameBits_startRepeat.answer (fun _ => Answer.unit) f
        rw [Call.performFlat] at fails
        rw [fails] at step
        exact step
      · rw [performFlat_error control opens sound fails]
    rw [same]
    cases c with
    | pushControl value width => cases control
    | popControl width => cases control
    | _ => rfl

/-- What a call that succeeds leaves buffered, unless it restarts a level. -/
lemma valid_ok {c : Call} {a : Answer} {log : BitLog} (sound : f.Sound)
    (restarts : c ≠ .resetRepeat) (valid : f.bits.valid = log.buffered)
    (run : c.performFlat f = .ok a f') :
    f'.bits.valid = (log.next (BitBuffer.bitsOf (f.stack.top 4)) c (.ok a)).buffered := by
  cases moves : c.movesBits with
  | false =>
    have same : f'.bits = f.bits := after_ok run ▸ sameBits_performFlat moves f
    rw [same, valid]
    cases c with
    | pushBit bit => cases moves
    | popBit => cases moves
    | pushControl value width => cases moves
    | popControl width => cases moves
    | resetRepeat => cases moves
    | _ => rfl
  | true =>
    cases c with
    | pushBit bit =>
      obtain ⟨⟨⟩, run, -⟩ := of_answer_ok run
      rw [← pushBits_singleton] at run
      have short : [bit].length ≤ BitBuffer.wordBits := Nat.succ_pos _
      rw [valid_pushBits sound.roomy.bits short run, valid]
      rfl
    | popBit =>
      obtain ⟨bit, run, -⟩ := of_answer_ok run
      have one : popBits 1 0 f = .ok (2 * 0 + bit.toNat) f' := bind_ok run
      rw [valid_popBits (Nat.succ_pos _) one, valid]
      rfl
    | pushControl value width =>
      rw [Call.performFlat] at run
      split at run
      case isFalse => cases run
      case isTrue range =>
        obtain ⟨⟨⟩, run, -⟩ := of_answer_ok run
        have short : (Tape.controlBits (width - 1) value).length ≤ BitBuffer.wordBits := by
          rw [length_controlBits, BitBuffer.wordBits]
          lia
        rw [valid_pushBits sound.roomy.bits short run, valid]
        rfl
    | popControl width =>
      rw [Call.performFlat] at run
      split at run
      case isFalse => cases run
      case isTrue range =>
        obtain ⟨tag, run, -⟩ := of_answer_ok run
        rw [valid_popBits (Nat.le_trans range.2 (Nat.le_add_left 8 24)) run, valid]
        rfl
    | resetRepeat => exact absurd rfl restarts
    | _ => cases moves

end Values

end FlatTape

end AdjointTape

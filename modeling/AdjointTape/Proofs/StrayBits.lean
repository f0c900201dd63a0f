import AdjointTape.Proofs.BitLog

/-!
# The word of the bit buffer

Only unprotected pushes can put anything else below a level than what it saved.  Without them the
word of the bit buffer has no bit above the fill index: pushed bits go in at its low end, a word
that is taken back gives away its last bit at once, and what a restart takes back is the word that
was saved.  So the word and the bits that are buffered are the same thing, and an empty buffer need
not be saved.
-/

open AdjointTape.Action

namespace AdjointTape

namespace FlatTape

/-! ## Words that a level saved -/

/-- The open levels of a tape still have the words they saved: each was opened on a tape without
stray bits that had these bits buffered, and what was saved for it is sheltered. -/
inductive Secures (f : FlatTape) : List (List Bool) → Prop where
  | outermost : Secures f []
  | inner {g g' : FlatTape} {saved : List (List Bool)} (sound : g.Sound) (strict : g.bits.Strict)
    (opened : Opened g g') (shelters : Shelters g' f)
    (depth : g'.stack.levels.length = saved.length + 1) (outer : Secures f saved) :
    Secures f (g.bits.valid :: saved)

/-- What is sheltered for the levels stays so in a step that keeps them all. -/
lemma Secures.step {f f' : FlatTape} {saved : List (List Bool)} (secures : Secures f saved)
    (keeps : ∀ g, g.stack.levels.length ≤ saved.length → Shelters g f → Shelters g f') :
    Secures f' saved := by
  induction secures with
  | outermost => exact .outermost
  | inner sound strict opened shelters depth _ ih =>
    refine .inner sound strict opened (keeps _ (Nat.le_of_eq depth) shelters) depth (ih ?_)
    exact fun g few => keeps g (Nat.le_succ_of_le few)

/-- What is secured for all levels is so for the enclosing ones. -/
lemma Secures.tail {f : FlatTape} {saved : List (List Bool)} (secures : Secures f saved) :
    Secures f saved.tail := by
  cases secures with
  | outermost => exact .outermost
  | inner _ _ _ _ _ outer => exact outer

/-- A call that heeds the levels keeps what is secured for those that stay open. -/
lemma Secures.performFlat {f : FlatTape} {saved : List (List Bool)} (secures : Secures f saved)
    (sound : f.Sound) {c : Call} (heeds : c.bypasses = false)
    (still : saved.length ≤ (after (c.performFlat f)).stack.levels.length) :
    Secures (after (c.performFlat f)) saved :=
  secures.step fun _ few shelters => shelters.performFlat sound heeds (Nat.le_trans few still)

/-- A restart brings back the bits that were buffered when its level was opened. -/
lemma Opened.restart_bits {f f1 f2 : FlatTape} (opened : Opened f f1) (sound : f.Sound)
    (strict : f.bits.Strict) (shelters : Shelters f1 f2)
    (length : f2.stack.levels.length = f1.stack.levels.length) :
    ∃ f3, resetRepeat f2 = .ok () f3 ∧ f3.bits = f.bits := by
  obtain ⟨f3, run, twins⟩ := opened.restart sound strict.word_eq_zero shelters length
  exact ⟨f3, run, twins.agrees.bits.trans opened.bits⟩

/-- A tape that has the bits of a log and no stray ones. -/
structure Spells (f : FlatTape) (log : BitLog) : Prop where
  strict : f.bits.Strict
  valid : f.bits.valid = log.buffered
  secures : Secures f log.saved
  depth : f.stack.levels.length = log.saved.length

namespace Spells

variable {f : FlatTape} {log : BitLog} (spells : Spells f log)
include spells

/-- Closing a level leaves the bits, and the log forgets what was saved. -/
lemma endRepeat (word : List Bool) :
    Spells (after (Call.endRepeat.performFlat f))
      (log.next word .endRepeat (outcome (Call.endRepeat.performFlat f))) := by
  obtain ⟨strict, valid, secures, depth⟩ := spells
  obtain ⟨-, run⟩ | ⟨level, outer, f', levels, run, closed⟩ := endRepeat_spec f
  · have fails : Call.endRepeat.performFlat f = .error _ f := bind_error run
    rw [fails]
    exact ⟨strict, valid, secures, depth⟩
  · have done : Call.endRepeat.performFlat f = .ok .unit f' := bind_ok run
    rw [done]
    have length : f'.stack.levels.length = log.saved.tail.length := by
      rw [List.length_tail, ← depth, levels, closed.levels.length_eq, List.length_cons,
        Nat.add_sub_cancel]
    refine ⟨SameBits.keepsStrict closed.bits strict,
      (congrArg BitBuffer.valid closed.bits).trans valid, ?_, length⟩
    refine secures.tail.step fun g few shelters => shelters.closed levels closed ?_
    exact Nat.le_trans few (Nat.le_of_eq length.symm)

variable (sound : f.Sound)
include sound

/-- Opening a level leaves the bits, and the log keeps them. -/
lemma startRepeat (word : List Bool) :
    Spells (after (Call.startRepeat.performFlat f))
      (log.next word .startRepeat (outcome (Call.startRepeat.performFlat f))) := by
  obtain ⟨f', run, opened⟩ | ⟨_, _, f', run, step, levels⟩ := startRepeat_spec f
  · have done : Call.startRepeat.performFlat f = .ok .unit f' := bind_ok run
    rw [done]
    have length : f'.stack.levels.length = log.saved.length + 1 := by
      rw [opened.levels, List.length_cons, spells.depth]
    refine ⟨SameBits.keepsStrict opened.bits spells.strict,
      (congrArg BitBuffer.valid opened.bits).trans spells.valid, ?_, length⟩
    have outer := spells.secures.step fun _ _ shelters => shelters.opened sound opened
    have all := Secures.inner sound spells.strict opened (.refl f') length outer
    rw [spells.valid] at all
    exact all
  · have fails : Call.startRepeat.performFlat f = .error _ f' := bind_error run
    have strict := keepsStrict_performFlat (c := .startRepeat) nofun f spells.strict
    have secures := spells.secures.performFlat sound (c := .startRepeat) rfl
    rw [fails] at strict secures ⊢
    have length : f'.stack.levels.length = log.saved.length := levels ▸ spells.depth
    exact ⟨strict, (valid_error sound fails).trans spells.valid, secures (Nat.le_of_eq length.symm),
      length⟩

/-- A restart brings back the bits that the log kept. -/
lemma resetRepeat (word : List Bool) :
    Spells (after (Call.resetRepeat.performFlat f))
      (log.next word .resetRepeat (outcome (Call.resetRepeat.performFlat f))) := by
  obtain ⟨strict, valid, secures, depth⟩ := spells
  have kept := guarded_performFlat (c := .resetRepeat) nofun nofun rfl sound
  have secures' := secures.performFlat sound (c := .resetRepeat) rfl
  have depth' := kept.stack.levels.length_eq.trans depth
  obtain ⟨buffered, saved⟩ := log
  cases secures with
  | outermost =>
    have none : f.stack.levels = [] := List.length_eq_zero_iff.1 depth
    have fails : Call.resetRepeat.performFlat f = .error (.noActiveRepeat .resetRepeat) f := by
      refine bind_error (x := FlatTape.resetRepeat) ?_
      simp only [FlatTape.resetRepeat, none]
    rw [fails]
    exact ⟨strict, valid, .outermost, depth⟩
  | @inner g g' saved sound' strict' opened shelters length outer =>
    obtain ⟨f', run, bits⟩ :=
      opened.restart_bits sound' strict' shelters (depth.trans length.symm)
    have done : Call.resetRepeat.performFlat f = .ok .unit f' := bind_ok run
    rw [done] at secures' depth' ⊢
    exact ⟨SameBits.keepsStrict bits strict', congrArg BitBuffer.valid bits,
      secures' (Nat.le_of_eq depth'.symm), depth'⟩

/-- Every call that heeds the levels leaves the bits that it should. -/
lemma performFlat {c : Call} (heeds : c.bypasses = false) :
    Spells (after (c.performFlat f))
      (log.next (BitBuffer.bitsOf (f.stack.top 4)) c (outcome (c.performFlat f))) := by
  by_cases opens : c = .startRepeat
  · subst opens
    exact spells.startRepeat sound _
  by_cases closes : c = .endRepeat
  · subst closes
    exact spells.endRepeat _
  by_cases restarts : c = .resetRepeat
  · subst restarts
    exact spells.resetRepeat sound _
  have depth : (after (c.performFlat f)).stack.levels.length = log.saved.length :=
    (guarded_performFlat opens closes heeds sound).stack.levels.length_eq.trans spells.depth
  have same := log.saved_next (BitBuffer.bitsOf (f.stack.top 4)) opens closes
    (outcome (c.performFlat f))
  refine ⟨keepsStrict_performFlat restarts f spells.strict, ?_, ?_, same ▸ depth⟩
  · cases run : c.performFlat f with
    | ok a f' => exact valid_ok sound restarts spells.valid run
    | error e f' =>
      rw [outcome, BitLog.next_error, ← spells.valid]
      exact valid_error sound run
  · rw [same]
    exact spells.secures.performFlat sound heeds (Nat.le_of_eq depth.symm)

end Spells

end FlatTape

namespace Tape

/-- The bytes right below the cursor. -/
def topBytes (count : Nat) (t : Tape) : List UInt8 :=
  ByteMap.read t.byteAt (t.location - count) count

/-- Tapes that calls which heed the levels lead to from a new one, with the bits that belong on
them. In between the memory that blocks are taken from may change in any way. -/
inductive Logs : Tape → BitLog → Prop where
  | create {geometry : Geometry} {limit : Option Nat} {t : Tape}
    (created : create geometry limit = .ok t) : Logs t .empty
  | call {t : Tape} {log : BitLog} (c : Call) (logs : Logs t log) (heeds : c.bypasses = false) :
    Logs (after (c.perform t))
      (log.next (BitBuffer.bitsOf (t.topBytes 4)) c (outcome (c.perform t)))
  | memory {t : Tape} {log : BitLog} (m : Memory) (logs : Logs t log) : Logs (t.withMemory m) log

variable {t : Tape} {log : BitLog}

/-- The bits of a tape are those of its log. -/
lemma Logs.flat (logs : t.Logs log) : t.Sound ∧ t.flat.Spells log := by
  induction logs with
  | create created =>
    obtain ⟨sound, flat⟩ := create_spec created
    rw [flat]
    exact ⟨sound, BitBuffer.strict_empty, rfl, .outermost, rfl⟩
  | @call t log c _ heeds ih =>
    obtain ⟨sound, spells⟩ := ih
    obtain ⟨sound', view⟩ := perform_commutes c t sound
    have step := spells.performFlat sound.levels heeds
    rw [← view, after_through, outcome_through] at step
    exact ⟨sound', step⟩
  | memory m _ ih =>
    obtain ⟨sound, strict, valid, secures, depth⟩ := ih
    refine ⟨sound.withMemory m, strict, valid, ?_, depth⟩
    exact secures.step fun g _ shelters => ⟨shelters.levels, shelters.capacity, shelters.bytes⟩

/-- A level that is opened on a sound tape is opened on flat memory. -/
lemma Sound.opened {opened : Tape} (sound : t.Sound) (opens : startRepeat t = .ok () opened) :
    opened.Sound ∧ FlatTape.Opened t.flat opened.flat := by
  obtain ⟨wf, view⟩ := startRepeat_commutes t sound.blocks
  rw [opens] at wf view
  obtain ⟨f, run, step⟩ | ⟨_, _, f, run, -⟩ := FlatTape.startRepeat_spec t.flat
  · rw [run] at view
    obtain ⟨-, rfl⟩ := EStateM.Result.ok.inj view
    exact ⟨⟨wf, step.sound sound.levels⟩, step⟩
  · rw [run] at view
    cases view

/-- The word of the bit buffer has the bits that belong on the tape and no others: nothing is lost
when an empty buffer is not saved, nor when a level is restarted. -/
structure Spells (t : Tape) (log : BitLog) : Prop where
  few : t.area.bits.index < BitBuffer.wordBits
  strict : t.area.bits.word.toNat < 2 ^ t.area.bits.index
  /-- The binary digits of the word, as many as the index says and the lowest first. -/
  digits : (List.range t.area.bits.index).map t.area.bits.word.toNat.testBit = log.buffered
  /-- The bit that was pushed first is the most significant one. -/
  value : Nat.ofDigits 2 (log.buffered.map Bool.toNat) = t.area.bits.word.toNat
  empty : t.area.bits.index = 0 → t.area.bits.word = 0
  /-- Saving an empty buffer writes nothing, and it is taken back as it was all the same. -/
  saves : t.area.bits.index = 0 → ∀ (bits : BitBuffer) (stack : ByteStack),
    t.area.bits.save stack = .ok () stack ∧
      BitBuffer.restore t.area.bits.index (bits, stack) = .ok () (t.area.bits, stack)
  /-- A level that was opened here restarts with the word and the index that were here, whatever
  happened in it and in the levels inside. -/
  restarts : ∀ opened u : Tape, startRepeat t = .ok () opened → opened.Inside u →
    u.depth = opened.depth → ∃ v, resetRepeat u = .ok () v ∧ v.area.bits = t.area.bits

end Tape

/-- The word of the bit buffer holds no stray bits. On every tape that calls which heed the levels
lead to, in any order and failing ones included, the word has exactly the bits that are buffered,
the oldest one most significant: a word that is refilled from bytes of another kind, one that was
left by a failing call and one that a restart brought back are no exceptions. So an empty buffer
holds a zero word, and need not be saved. -/
theorem bit_word_has_no_stray_bits {t : Tape} {log : BitLog} (logs : t.Logs log) :
    t.Spells log := by
  obtain ⟨sound, spells⟩ := logs.flat
  have strict : t.area.bits.Strict := spells.strict
  have digits : t.area.bits.valid = log.buffered := spells.valid
  refine ⟨sound.levels.roomy.bits, strict, digits, digits ▸ BitBuffer.ofDigits_valid strict,
    strict.word_eq_zero, fun empty bits stack => ⟨congrFun (if_pos empty) stack, ?_⟩, ?_⟩
  · have zero : t.area.bits = ⟨0, 0⟩ := by
      rw [BitBuffer.mk.injEq]
      exact ⟨strict.word_eq_zero empty, empty⟩
    rw [zero]
    rfl
  · intro opened u opens inside depth
    obtain ⟨sound', step⟩ := sound.opened opens
    obtain ⟨sound'', shelters⟩ := inside.shelters sound'
    have length : u.flat.stack.levels.length = opened.flat.stack.levels.length := by
      rw [sound''.depth_eq, sound'.depth_eq, depth]
    obtain ⟨f, run, bits⟩ := step.restart_bits sound.levels strict shelters length
    obtain ⟨v, run', -, view⟩ := Tape.Sound.resetRepeat_commutes.back sound'' run
    exact ⟨v, run', (congrArg FlatTape.bits view).trans bits⟩

/-- A word that is refilled from bytes that were pushed as such, spilled two levels deep and brought
back by a restart. -/
theorem bit_word_has_no_stray_bits_after_a_refill :
    ∃ (t : Tape) (log : BitLog), t.Logs log ∧ t.area.bits.word = 89 ∧
      log.buffered = [true, false, false, true, true, false, true] ∧ t.Spells log := by
  have created : Tape.create ⟨3, 2⟩ none = .ok _ := rfl
  have refilled := ((Tape.Logs.create created).call (.pushBytes [1, 2, 3, 178] true) rfl).call
    .popBit rfl
  have inner := ((refilled.call .startRepeat rfl).call .startRepeat rfl).call
    (.pushControl 6 3) rfl
  have restarted := ((inner.call .endRepeat rfl).call (.popControl 9) rfl).call .resetRepeat rfl
  have logs := ((restarted.call (.popControl 8) rfl).call (.popControl 8) rfl).call
    (.popControl 8) rfl
  exact ⟨_, _, logs, by decide +kernel, by decide +kernel, bit_word_has_no_stray_bits logs⟩

end AdjointTape

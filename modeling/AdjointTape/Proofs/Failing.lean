import AdjointTape.Proofs.Replay

/-!
# Calls that fail

A call that fails changes nothing that can be seen.  On flat memory every failing call but the
opening of a level leaves the machine exactly as it was, and a chain is determined by its bytes, so
the blocks are the same as well.  A level that cannot be opened has written behind the frontier
before it found no room, and its way back to the cursor leaves those bytes out of sight.
-/

open AdjointTape.Action

namespace AdjointTape

/-! ## Calls that do all or nothing -/

namespace Action

variable {σ α β : Type}

/-- A call that changes nothing where it fails. -/
def AllOrNothing (call : Action σ α) : Prop :=
  ∀ ⦃s : σ⦄ ⦃e : Failure⦄ ⦃s' : σ⦄, call s = .error e s' → s' = s

/-- A call that is certain to succeed may follow. -/
lemma AllOrNothing.seq {x : Action σ α} {f : α → Action σ β} (hx : AllOrNothing x)
    (certain : ∀ a s, ∃ b s', f a s = .ok b s') : AllOrNothing (x >>= f) := by
  intro s e s' fails
  cases run : x s with
  | ok a s1 =>
    obtain ⟨b, s2, done⟩ := certain a s1
    rw [bind_ok run, done] at fails
    cases fails
  | error e1 s1 =>
    rw [bind_error run] at fails
    obtain ⟨-, rfl⟩ := EStateM.Result.error.inj fails
    exact hx run

/-- The form of the answer does not matter. -/
lemma AllOrNothing.answer {x : Action σ α} (hx : AllOrNothing x) (g : α → β) :
    AllOrNothing (x >>= fun a => pure (g a)) :=
  hx.seq fun a s => ⟨g a, s, rfl⟩

end Action

/-- Whether a call moves a control tag, which goes bit by bit and may fail between two bits. -/
def Call.isControl : Call → Bool
  | .pushControl _ _ => true
  | .popControl _ => true
  | _ => false

/-! ## The chain -/

/-- A well-formed chain is determined by its size, its memory and its bytes. -/
lemma Chain.WellFormed.ext {c c' : Chain} (wf : c.WellFormed) (wf' : c'.WellFormed)
    (size : c'.size = c.size) (blockSize : c'.blockSize = c.blockSize)
    (memory : c'.memory = c.memory) (bytes : c'.bytes = c.bytes) : c' = c := by
  have blocks : c'.blocks = c.blocks := by
    refine Array.ext size fun i lt' lt => ?_
    have e' := Array.getElem?_eq_getElem lt'
    have e := Array.getElem?_eq_getElem lt
    have place' := wf'.inPlace i _ e'
    have place := wf.inPlace i _ e
    have contents : c'.blocks[i].contents = c.blocks[i].contents := by
      refine Array.ext (place'.contents.trans (blockSize.trans place.contents.symm))
        fun offset in' inside => ?_
      have h := congrFun bytes (i * c.blockSize + offset)
      rw [wf.bytes_at e (place.contents ▸ inside), ← blockSize,
        wf'.bytes_at e' (place'.contents ▸ in'), Array.getElem?_eq_getElem in',
        Array.getElem?_eq_getElem inside] at h
      exact h
    rw [Block.mk.injEq]
    refine ⟨place'.rank.trans place.rank.symm, place'.prev.trans place.prev.symm, ?_, contents⟩
    exact place'.next.trans (size ▸ place.next.symm)
  cases c
  cases c'
  cases blocks
  cases blockSize
  cases memory
  rfl

/-! ## Failing calls on flat memory -/

namespace FlatStack

/-- A byte string is pushed as a whole or not at all. -/
lemma allOrNothing_push (data : List UInt8) (isProtected : Bool) :
    AllOrNothing (push data isProtected) := by
  intro s e s' fails
  obtain run | ⟨blocks, blockSize, run⟩ := push_cases data isProtected s
  · rw [run] at fails
    cases fails
  · rw [run] at fails
    exact (EStateM.Result.error.inj fails).2.symm

/-- A byte string is popped as a whole or not at all. -/
lemma allOrNothing_pop (count : Nat) (isProtected : Bool) :
    AllOrNothing (pop count isProtected) := by
  intro s e s' fails
  rw [pop] at fails
  split at fails
  case isTrue => exact (EStateM.Result.error.inj fails).2.symm
  case isFalse => cases fails

/-- A cursor moves where it is told to, or not at all. -/
lemma allOrNothing_setLocation (l : Location) : AllOrNothing (setLocation l) := by
  intro s e s' fails
  rw [setLocation] at fails
  split at fails
  case isTrue => exact (EStateM.Result.error.inj fails).2.symm
  case isFalse => cases fails

end FlatStack

namespace FlatTape

/-- What changes nothing on the stack changes nothing on the tape. -/
lemma allOrNothing_onStack {α : Type} {call : Action FlatStack α} (h : AllOrNothing call) :
    AllOrNothing (onStack call) := by
  intro f e f' fails
  cases run : call f.stack with
  | ok a stack =>
    rw [onStack_ok run] at fails
    cases fails
  | error e1 stack =>
    rw [onStack_error run, h run] at fails
    exact (EStateM.Result.error.inj fails).2.symm

/-- A scalar that fails to spill its buffer is not buffered. -/
lemma allOrNothing_push (k : ScalarKind) (value : k.Carrier) : AllOrNothing (push k value) := by
  intro f e f' fails
  by_cases room : (f.valid k).length + 1 < f.capacity
  case pos =>
    rw [push_room room] at fails
    cases fails
  case neg =>
    rw [push_spill room] at fails
    have spill := allOrNothing_onStack
      (FlatStack.allOrNothing_push (k.encodeAll (value :: f.valid k).reverse) true)
    exact spill.seq (fun _ f => ⟨(), emptied k f, rfl⟩) fails

/-- A scalar that cannot be popped changes nothing. -/
lemma allOrNothing_pop (k : ScalarKind) : AllOrNothing (pop k) := by
  intro f e f' fails
  cases held : f.valid k with
  | cons value rest =>
    rw [pop_held held] at fails
    cases fails
  | nil =>
    rw [pop_refill held] at fails
    have back := allOrNothing_onStack (FlatStack.allOrNothing_pop (f.capacity * k.width) true)
    exact back.seq (fun _ _ => ⟨_, _, rfl⟩) fails

/-- A bit that cannot be pushed changes nothing. -/
lemma allOrNothing_pushBit (bit : Bool) : AllOrNothing (pushBit bit) := by
  intro f e f' fails
  by_cases full : BitBuffer.wordBits ≤ f.bits.index + 1
  case pos =>
    rw [pushBit_spill full] at fails
    have spill := allOrNothing_onStack
      (FlatStack.allOrNothing_push (BitBuffer.encode (BitBuffer.append f.bits.word bit)) true)
    exact spill.seq (fun _ f => ⟨(), { f with bits := .empty }, rfl⟩) fails
  case neg =>
    rw [pushBit_room full] at fails
    cases fails

/-- A bit that cannot be popped changes nothing. -/
lemma allOrNothing_popBit : AllOrNothing popBit := by
  intro f e f' fails
  cases held : f.bits.index with
  | zero =>
    rw [popBit_refill held] at fails
    have back := allOrNothing_onStack (FlatStack.allOrNothing_pop 4 true)
    exact back.seq (fun _ _ => ⟨_, _, rfl⟩) fails
  | succ index =>
    rw [popBit_held held] at fails
    cases fails

/-- A level of a sound tape has its marks, so a restart fails only where no level is open. -/
lemma resetRepeat_error {f f' : FlatTape} {e : Failure} (sound : f.Sound)
    (fails : resetRepeat f = .error e f') : f' = f := by
  rw [resetRepeat] at fails
  split at fails
  case h_1 => exact (EStateM.Result.error.inj fails).2.symm
  case h_2 level outer levels marked =>
    have nested := sound.nested
    rw [levels, marked] at nested
    cases nested
  case h_3 => cases fails

/-- A level that cannot be closed changes nothing. -/
lemma allOrNothing_endRepeat : AllOrNothing endRepeat := by
  intro f e f' fails
  obtain ⟨-, run⟩ | ⟨level, outer, f1, -, run, -⟩ := endRepeat_spec f
  · rw [run] at fails
    exact (EStateM.Result.error.inj fails).2.symm
  · rw [run] at fails
    cases fails

/-- A call that fails changes nothing, unless it moves a control tag or opens a level. -/
lemma performFlat_error {c : Call} (single : c.isControl = false) (opens : c ≠ .startRepeat)
    {f f' : FlatTape} {e : Failure} (sound : f.Sound) (fails : c.performFlat f = .error e f') :
    f' = f := by
  cases c with
  | push k value => exact (allOrNothing_push k value).answer _ fails
  | pop k => exact (allOrNothing_pop k).answer _ fails
  | pushBit bit => exact (allOrNothing_pushBit bit).answer _ fails
  | popBit => exact allOrNothing_popBit.answer _ fails
  | pushControl value width => cases single
  | popControl width => cases single
  | pushArray k values =>
    exact (allOrNothing_onStack (FlatStack.allOrNothing_push _ true)).answer _ fails
  | popArray k count =>
    exact (allOrNothing_onStack (FlatStack.allOrNothing_pop _ true)).answer _ fails
  | pushBytes data isProtected =>
    exact (allOrNothing_onStack (FlatStack.allOrNothing_push data isProtected)).answer _ fails
  | popBytes count isProtected =>
    exact (allOrNothing_onStack (FlatStack.allOrNothing_pop count isProtected)).answer _ fails
  | startRepeat => exact absurd rfl opens
  | resetRepeat =>
    cases run : resetRepeat f with
    | ok a f1 =>
      rw [Call.performFlat, bind_ok run] at fails
      cases fails
    | error e1 f1 =>
      rw [Call.performFlat, bind_error run] at fails
      obtain ⟨-, rfl⟩ := EStateM.Result.error.inj fails
      exact resetRepeat_error sound run
  | endRepeat => exact allOrNothing_endRepeat.answer _ fails
  | setLocation l =>
    exact (allOrNothing_onStack (FlatStack.allOrNothing_setLocation l)).answer _ fails

/-! ## A level that cannot be opened -/

/-- Saving buffers is no traffic. -/
lemma steps_pushEach (chunks : List (List UInt8)) :
    Steps (fun s s' : FlatStack => s'.traffic = s.traffic) (pushEach chunks) := by
  induction chunks with
  | nil => exact fun s => rfl
  | cons chunk rest ih =>
    refine Steps.seq (fun _ _ _ first next => next.trans first) (fun s => ?_) fun _ => ih
    rw [FlatStack.push]
    split <;> rfl

/-- A tape that is the same up to its frontier, and as far as traffic is counted. -/
structure Intact (f f' : FlatTape) : Prop where
  agrees : f.Agrees f'
  traffic : f'.stack.traffic = f.stack.traffic
  buffered : f'.buffered = f.buffered

/-- A tape that was left alone is intact. -/
lemma Intact.refl (f : FlatTape) : Intact f f :=
  ⟨⟨⟨rfl, rfl, fun _ _ => rfl⟩, rfl, rfl, rfl, rfl⟩, rfl, rfl⟩

/-- What was saved before the room ran out lies behind the frontier. -/
lemma intact_startRepeat {f f' : FlatTape} {e : Failure} (fails : startRepeat f = .error e f') :
    Intact f f' := by
  have traffic := steps_pushEach (Kind.all.map f.chunk) f.stack.begun
  rw [startRepeat] at fails
  obtain ⟨s, run, -⟩ | ⟨blocks, blockSize, s, data, run, wrote⟩ :=
    FlatStack.pushEach_spec (Kind.all.map f.chunk) f.stack.begun
  · rw [run] at fails
    cases fails
  · rw [run] at fails traffic
    obtain ⟨-, rfl⟩ := EStateM.Result.error.inj fails
    refine ⟨⟨⟨rfl, wrote.levels, fun l below => ?_⟩, rfl, rfl, rfl, rfl⟩, traffic, rfl⟩
    exact (congrFun wrote.bytes l).trans (ByteMap.write_below _ _ below)

end FlatTape

/-! ## Failing calls of a tape -/

/-- A call that fails leaves the tape as it was. On every reachable tape, whatever the failure and
whatever room the memory has: the cursor, the levels with their redirects and marks, every buffered
value and bit, the traffic and all bytes up to the cursor or the active `freePush` are the same as
before, and but for a level that could not be opened every block is too. Only a control tag, which
goes bit by bit, may fail halfway. -/
theorem failing_call_changes_nothing {t t' : Tape} {c : Call} {e : Failure}
    (reachable : t.Reachable) (single : c.isControl = false) (fails : c.perform t = .error e t') :
    t.Agrees t' ∧ t'.totalTraffic = t.totalTraffic ∧
      (c ≠ .startRepeat → t'.stack.chain = t.stack.chain) := by
  have sound := reachable.sound
  obtain ⟨sound', view⟩ := Tape.perform_commutes c t sound
  rw [fails] at sound' view
  have failsFlat : c.performFlat t.flat = .error e t'.flat := view.symm
  have intact : t.flat.Intact t'.flat := by
    by_cases opens : c = .startRepeat
    · subst opens
      cases run : FlatTape.startRepeat t.flat with
      | ok a f =>
        rw [Call.performFlat, bind_ok run] at failsFlat
        cases failsFlat
      | error e1 f =>
        rw [Call.performFlat, bind_error run] at failsFlat
        obtain ⟨-, rfl⟩ := EStateM.Result.error.inj failsFlat
        exact FlatTape.intact_startRepeat run
    · rw [FlatTape.performFlat_error single opens sound.levels failsFlat]
      exact .refl _
  refine ⟨Tape.agrees_of_flat sound sound' intact.agrees, ?_, fun opens => ?_⟩
  · exact congrArg₂ Tape.addSaturating intact.traffic intact.buffered
  · have same := congrArg FlatTape.stack
      (FlatTape.performFlat_error single opens sound.levels failsFlat)
    exact sound.blocks.stack.chain.ext sound'.blocks.stack.chain (congrArg FlatStack.blocks same)
      (congrArg FlatStack.blockSize same) (congrArg FlatStack.memory same)
      (congrArg FlatStack.bytes same)

/-- A level that finds room for the first of two buffers only, behind a redirect that stays open. -/
theorem failing_call_changes_nothing_halfway :
    ∃ (t t' : Tape) (e : Failure), t.Reachable ∧ Call.startRepeat.isControl = false ∧
      Call.startRepeat.perform t = .error e t' ∧ t'.stack.chain.size = t.stack.chain.size + 1 ∧
      t.Agrees t' ∧ t'.totalTraffic = t.totalTraffic ∧
        (Call.startRepeat ≠ .startRepeat → t'.stack.chain = t.stack.chain) := by
  have created : Tape.create ⟨4, 4⟩ (some 2) = .ok _ := rfl
  have reachable := (Tape.Reachable.create created).run [.pushBytes [1, 2] true, .startRepeat,
    .popBytes 1 true, .pushBytes [3] true, .push .integer4 7, .push .integer8 9]
  obtain ⟨t, reachable, full, grown⟩ : ∃ t : Tape, t.Reachable ∧
      ranOut (outcome (Call.startRepeat.perform t)) = true ∧
        (after (Call.startRepeat.perform t)).stack.chain.size = t.stack.chain.size + 1 :=
    ⟨_, reachable, by decide +kernel, by decide +kernel⟩
  obtain ⟨blocks, blockSize, fails⟩ := error_of_ranOut full
  exact ⟨t, _, _, reachable, rfl, fails, grown, failing_call_changes_nothing reachable rfl fails⟩

end AdjointTape

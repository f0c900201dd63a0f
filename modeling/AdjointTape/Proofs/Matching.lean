import AdjointTape.Proofs.Checkpoints

/-!
# A tape and a ledger

A tape matches a ledger when it carries the entries, on top of a base that was there before, and its
levels keep the copies.  A call that keeps to the order of the stack answers what the ledger says,
unless memory runs out, and leaves a tape that matches what it leaves.  A pop asks for a little
more: the item must have been pushed since every enclosing level whose redirect is open was opened
or restarted.
-/

open AdjointTape.Action AdjointTape.FlatStack

namespace AdjointTape

/-- Whether a call takes something off the tape. -/
def Call.isPop : Call → Bool
  | .pop _ => true
  | .popBit => true
  | .popControl _ => true
  | .popArray _ _ => true
  | .popBytes _ _ => true
  | _ => false

/-- Whether the last item may be popped under levels: it was pushed since every enclosing level
whose redirect is open was opened or restarted. -/
def Ledger.Due (levels : List RepeatLevel) (s : Ledger) : Prop :=
  ∀ entry ∈ s.entries.head?,
    AdjointTape.Due levels.tail (s.checkpoints.map Checkpoint.since).tail entry.serial

instance (levels : List RepeatLevel) (s : Ledger) : Decidable (s.Due levels) :=
  inferInstanceAs (Decidable (∀ entry ∈ s.entries.head?,
    AdjointTape.Due levels.tail (s.checkpoints.map Checkpoint.since).tail entry.serial))

/-- An orderly ledger that is kept on top of a base from before. -/
structure Ledger.Above (base : Stage) (s : Ledger) : Prop where
  orderly : s.Orderly
  later : ∀ x ∈ base.segments, s.Later x.serial

/-- Calls that keep to the order of the stack keep a ledger above its base. -/
lemma Ledger.Move.above {s s' : Ledger} {c : Call} {a : Answer} {base : Stage}
    (move : Move s c a s') (above : s.Above base) : s'.Above base :=
  ⟨move.orderly above.orderly, fun x mem => move.later (above.later x mem)⟩

/-- Before now the base was laid down, and all entries were made. -/
lemma Ledger.Above.early {s : Ledger} {base : Stage} (above : s.Above base) {capacity : Nat} :
    ∀ x ∈ (Stage.ofEntries capacity base s.entries).segments, x.serial < s.pushes :=
  Stage.serial_ofEntries (fun x mem => (above.later x mem).pushes) above.orderly.entries

namespace FlatTape

/-- A sound tape with the items of a ledger on top of a base, and levels that keep its copies. -/
structure Matches (base : Stage) (f : FlatTape) (s : Ledger) : Prop where
  sound : f.Sound
  tidy : base.Tidy f.capacity
  above : s.Above base
  carries : f.Carries (s.checkpoints.map Checkpoint.since) (.ofEntries f.capacity base s.entries)
  kept : Kept f.capacity base f.stack.bytes f.stack.levels f.marks s.checkpoints

/-- Pushing an item is guarded. -/
lemma guarded_pushItem (item : Item) {f : FlatTape} (sound : f.Sound) :
    Guarded f (after (item.pushCall.performFlat f)) := by
  refine guarded_performFlat ?opens ?closes ?bypasses sound
  case opens => cases item <;> exact nofun
  case closes => cases item <;> exact nofun
  case bypasses => cases item <;> rfl

/-- Popping an item is guarded. -/
lemma guarded_popItem (item : Item) {f : FlatTape} (sound : f.Sound) :
    Guarded f (after (item.popCall.performFlat f)) := by
  refine guarded_performFlat ?opens ?closes ?bypasses sound
  case opens => cases item <;> exact nofun
  case closes => cases item <;> exact nofun
  case bypasses => cases item <;> rfl

namespace Matches

variable {base : Stage} {f f' : FlatTape} {s s' : Ledger}

/-- A guarded step matches what the ledger does when the items do. -/
lemma guarded (same : Matches base f s) (step : Guarded f f') (above : s'.Above base)
    (checkpoints : s'.checkpoints = s.checkpoints)
    (carries :
      f'.Carries (s'.checkpoints.map Checkpoint.since) (.ofEntries f.capacity base s'.entries)) :
    Matches base f' s' := by
  refine ⟨step.sound same.sound, step.capacity ▸ same.tidy, above, step.capacity ▸ carries, ?_⟩
  rw [checkpoints]
  exact step.kept same.sound same.kept

/-- A push of an item is matched. -/
lemma push {entries : List Entry} {checkpoints : List Checkpoint} {pushes : Nat} {item : Item}
    (same : Matches base f ⟨entries, checkpoints, pushes⟩) (fits : item.Fits)
    (above : Ledger.Above base ⟨⟨item, pushes⟩ :: entries, checkpoints, pushes + 1⟩)
    (room : ranOut (outcome (item.pushCall.performFlat f)) = false) :
    ∃ f', item.pushCall.performFlat f = .ok .unit f' ∧
      Matches base f' ⟨⟨item, pushes⟩ :: entries, checkpoints, pushes + 1⟩ := by
  obtain ⟨f', run, carries⟩ := carries_pushItem same.carries same.sound
    (List.forall_mem_map.2 same.above.orderly.sinces) fits room
  have step := guarded_pushItem item same.sound
  rw [run] at step
  exact ⟨f', run, same.guarded step above rfl carries⟩

/-- A pop of the last item is matched when it is due. -/
lemma pop {entry : Entry} {entries : List Entry} {checkpoints : List Checkpoint} {pushes : Nat}
    (same : Matches base f ⟨entry :: entries, checkpoints, pushes⟩)
    (above : Ledger.Above base ⟨entries, checkpoints, pushes⟩)
    (due : Ledger.Due f.stack.levels ⟨entry :: entries, checkpoints, pushes⟩) :
    ∃ f', entry.item.popCall.performFlat f = .ok entry.item.answer f' ∧
      Matches base f' ⟨entries, checkpoints, pushes⟩ := by
  obtain ⟨fits, -⟩ := same.above.orderly.entries entry List.mem_cons_self
  obtain ⟨f', run, carries⟩ := carries_popItem same.tidy fits same.carries (due entry rfl)
  have step := guarded_popItem entry.item same.sound
  rw [run] at step
  exact ⟨f', run, same.guarded step above rfl carries⟩

/-- Opening a level is matched by a copy of the items. -/
lemma startRepeat {entries : List Entry} {checkpoints : List Checkpoint} {pushes : Nat}
    (same : Matches base f ⟨entries, checkpoints, pushes⟩)
    (above : Ledger.Above base ⟨entries, ⟨entries, pushes⟩ :: checkpoints, pushes⟩)
    (room : ranOut (outcome (Call.startRepeat.performFlat f)) = false) :
    ∃ f', Call.startRepeat.performFlat f = .ok .unit f' ∧
      Matches base f' ⟨entries, ⟨entries, pushes⟩ :: checkpoints, pushes⟩ := by
  obtain ⟨f', run, opened⟩ | ⟨_, _, f', run, -⟩ := startRepeat_spec f
  case inr =>
    have room := ranOut_first room
    rw [run] at room
    cases room
  obtain ⟨sound, tidy, -, carries, kept⟩ := same
  refine ⟨f', bind_ok run, opened.sound sound, opened.capacity ▸ tidy, above, ?_,
    opened.kept sound pushes carries kept⟩
  rw [opened.capacity]
  exact carries.opened opened above.early above.orderly.sorted

/-- Restarting a level is matched by going back to its copy. -/
lemma resetRepeat {entries copy : List Entry} {since : Nat} {others : List Checkpoint}
    {pushes : Nat} (same : Matches base f ⟨entries, ⟨copy, since⟩ :: others, pushes⟩)
    (above : Ledger.Above base ⟨copy, ⟨copy, pushes⟩ :: others, pushes⟩) :
    ∃ f', Call.resetRepeat.performFlat f = .ok .unit f' ∧
      Matches base f' ⟨copy, ⟨copy, pushes⟩ :: others, pushes⟩ := by
  obtain ⟨sound, tidy, -, -, kept⟩ := same
  obtain ⟨level, outer, rest, saved, levels, marks, clean, valid, bits, bytes, lies, kept⟩ :=
    kept.of_cons
  have nested := sound.nested
  rw [levels, marks] at nested
  obtain _ | ⟨freePush, -, -, -⟩ := nested
  have restarted := restarted_spec outer clean (freePush ▸ Nat.le_add_left _ _) bytes
  have step := guarded_resetRepeat sound
  rw [resetRepeat_eq levels marks] at step
  refine ⟨_, bind_ok (resetRepeat_eq levels marks), step.sound sound, step.capacity ▸ tidy, above,
    ⟨?_, ?_, ?_⟩, ?_⟩
  · rw [restarted.stack, restarted.capacity]
    exact .coveredBy rfl rfl above.early lies above.orderly.sorted
  · rw [restarted.valid, restarted.capacity, valid]
  · rw [restarted.bits, restarted.capacity, bits]
  · rw [restarted.stack, restarted.capacity, restarted.marks, marks]
    exact .inner clean valid bits bytes lies kept

/-- Closing a level is matched when no item is newer than the level. -/
lemma endRepeat {entries : List Entry} {inner : Checkpoint} {outer : List Checkpoint} {pushes : Nat}
    (same : Matches base f ⟨entries, inner :: outer, pushes⟩)
    (above : Ledger.Above base ⟨entries, outer, pushes⟩)
    (old : ∀ entry ∈ entries, entry.serial < inner.since) :
    ∃ f', Call.endRepeat.performFlat f = .ok .unit f' ∧
      Matches base f' ⟨entries, outer, pushes⟩ := by
  have sound' := sound_performFlat .endRepeat same.sound
  obtain ⟨sound, tidy, before, carries, kept⟩ := same
  obtain ⟨level, others, rest, saved, levels, marks, -, -, -, -, -, kept⟩ := kept.of_cons
  have made : Ledger.Before inner.since entries := fun entry mem =>
    ⟨(before.orderly.entries entry mem).1, old entry mem⟩
  have early x (mem : x ∈ base.segments) : x.serial < inner.since :=
    (before.later x mem).sinces inner List.mem_cons_self
  have run : Call.endRepeat.performFlat f = .ok .unit
      { f with stack := f.stack.ended level others, marks := f.marks.tail } :=
    bind_ok (by rw [FlatTape.endRepeat, levels])
  rw [run] at sound'
  refine ⟨_, run, sound', tidy, above,
    carries.ended levels (Stage.serial_ofEntries early made) kept.timed, ?_⟩
  change Kept f.capacity base (f.stack.ended level others).bytes
    (f.stack.ended level others).levels f.marks.tail outer
  rw [ended, marks, bytes_rejoined]
  exact kept.redirects (guarded_rejoined
    { f.stack with cursor := level.backPop.getD f.stack.cursor, levels := others }).levels

/-- A call that keeps to the order of the stack answers what the ledger says, unless memory runs out
or it pops an item that is not due. -/
lemma move {c : Call} {a : Answer} (same : Matches base f s) (move : Ledger.Move s c a s')
    (due : c.isPop = true → s.Due f.stack.levels)
    (room : ranOut (outcome (c.performFlat f)) = false) :
    ∃ f', c.performFlat f = .ok a f' ∧ Matches base f' s' := by
  have above := move.above same.above
  cases move with
  | push item fits => exact same.push fits above room
  | @pop entry _ _ _ => exact same.pop above (due (by cases entry.item <;> rfl))
  | startRepeat => exact same.startRepeat above room
  | resetRepeat => exact same.resetRepeat above
  | endRepeat old => exact same.endRepeat above old

end Matches

/-- A new tape matches the empty ledger. -/
lemma matches_empty {geometry : Geometry} {limit : Option Nat}
    (sound : (empty geometry limit).Sound) :
    Matches .empty (empty geometry limit) .empty := by
  have positive : 0 < geometry.capacity := Nat.zero_lt_of_lt (sound.roomy.valid .integer4)
  exact ⟨sound, Stage.tidy_empty positive, ⟨Ledger.orderly_empty, nofun⟩,
    ⟨FlatStack.carries_ground rfl (.ground rfl), rfl, rfl⟩, .outermost⟩

end FlatTape

/-- A tape that matches a ledger on flat memory. -/
structure Tape.Matches (base : Stage) (t : Tape) (s : Ledger) : Prop where
  sound : t.Sound
  flat : FlatTape.Matches base t.flat s

/-- A call of the tape that keeps to the order of the stack, unless memory runs out or it pops an
item that is not due. -/
lemma Tape.Matches.move {base : Stage} {t : Tape} {s s' : Ledger} {c : Call} {a : Answer}
    (same : Tape.Matches base t s) (move : Ledger.Move s c a s')
    (due : c.isPop = true → s.Due t.stack.levels)
    (room : ranOut (outcome (c.perform t)) = false) :
    ∃ t', c.perform t = .ok a t' ∧ Tape.Matches base t' s' := by
  obtain ⟨sound', view⟩ := Tape.perform_commutes c t same.sound
  rw [← outcome_through Tape.flat, view] at room
  obtain ⟨f', run, flat⟩ := same.flat.move move due room
  obtain ⟨t', run', rfl⟩ := of_through_ok (view.trans run)
  rw [run'] at sound'
  exact ⟨t', run', sound', flat⟩

end AdjointTape

import AdjointTape.Proofs.Matching

/-!
# A tape keeps its ledger

Every call that the ledger allows answers what the ledger says, unless memory runs out, and leaves a
tape that matches what it leaves.  A new tape matches the empty ledger, so along any allowed run
every answer is the ledger's.
-/

open AdjointTape.Action AdjointTape.FlatStack

namespace AdjointTape

/-- A step pops an item that is due. -/
lemma Ledger.Step.due {s s' : Ledger} {c : Call} {a : Answer} (step : Step s c a s')
    (orderly : s.Orderly) (levels : List RepeatLevel) (pops : c.isPop = true) : s.Due levels := by
  cases step with
  | push item fits => cases item <;> cases pops
  | pop recent =>
    intro entry mem
    obtain rfl := Option.some.inj mem
    exact due_of_recent (orderly.recent recent)
  | startRepeat => cases pops
  | resetRepeat => cases pops
  | endRepeat old => cases pops

namespace FlatTape.Matches

variable {base : Stage} {f : FlatTape} {s s' : Ledger}

/-- An allowed call answers what the ledger says, unless memory runs out. -/
lemma step {c : Call} {a : Answer} (same : Matches base f s) (step : Ledger.Step s c a s')
    (room : ranOut (outcome (c.performFlat f)) = false) :
    ∃ f', c.performFlat f = .ok a f' ∧ Matches base f' s' :=
  same.move step.move (step.due same.above.orderly _) room

/-- A run that is allowed answers what the ledger says, unless memory runs out. -/
lemma run {calls : List Call} {answers : List Answer} (same : Matches base f s)
    (run : Ledger.Run s calls answers s')
    (room : ∀ o ∈ (runAll Call.performFlat calls f).1, ranOut o = false) :
    (runAll Call.performFlat calls f).1 = answers.map .ok := by
  induction run generalizing f with
  | nil => rfl
  | cons step _ ih =>
    rw [runAll_cons] at room ⊢
    obtain ⟨f', first, same⟩ := same.step step (room _ List.mem_cons_self)
    rw [first] at room ⊢
    rw [after, ih same fun o mem => room o (List.mem_cons_of_mem _ mem)]
    rfl

end FlatTape.Matches

/-- A tape keeps its ledger: whatever the block size, the buffer capacity and the calls, as long as
the ledger allows them and memory does not run out, no call fails and every call answers what the
ledger says. -/
theorem tape_keeps_ledger {geometry : Geometry} {limit : Option Nat} {t : Tape}
    (created : Tape.create geometry limit = .ok t) {calls : List Call} {answers : List Answer}
    {s : Ledger} (run : Ledger.Run .empty calls answers s)
    (room : ∀ o ∈ (Call.performAll calls t).1, ranOut o = false) :
    (Call.performAll calls t).1 = answers.map .ok := by
  obtain ⟨sound, flat⟩ := Tape.create_spec created
  obtain ⟨-, same, -⟩ := Commutes.all Tape.perform_commutes calls sound
  rw [Tape.performAll_eq] at room ⊢
  rw [same, flat] at room
  rw [same, flat]
  exact (FlatTape.matches_empty (flat ▸ sound.levels)).run run room

/-- A run with a spill, an inner level that takes an item of the enclosing one, a restart of each
and an empty array. -/
theorem tape_keeps_ledger_of_nested_levels :
    let calls : List Call := [.push .character 3, .push .character 4, .pushControl 5 3,
      .startRepeat, .popControl 3, .pop .character, .pushBytes [7, 8] true, .startRepeat,
      .popBytes 2 true, .pushArray .integer8 [], .resetRepeat, .endRepeat, .resetRepeat,
      .popControl 3, .pop .character, .pop .character, .endRepeat]
    let answers : List Answer := [.unit, .unit, .unit, .unit, .control 5, .scalar .character 4,
      .unit, .unit, .bytes [7, 8], .unit, .unit, .unit, .unit, .control 5, .scalar .character 4,
      .scalar .character 3, .unit]
    ∃ t, Tape.create ⟨2, 2⟩ none = .ok t ∧ (∃ s, Ledger.Run .empty calls answers s) ∧
      (∀ o ∈ (Call.performAll calls t).1, ranOut o = false) ∧
      (Call.performAll calls t).1 = answers.map .ok := by
  intro calls answers
  have created : Tape.create ⟨2, 2⟩ none = .ok _ := rfl
  have run : Ledger.Run .empty calls answers _ :=
    .cons (.push (.scalar .character 3) (by decide)) <|
    .cons (.push (.scalar .character 4) (by decide)) <|
    .cons (.push (.control 5 3) (by decide)) <|
    .cons .startRepeat <|
    .cons (.pop nofun) <|
    .cons (.pop nofun) <|
    .cons (.push (.bytes [7, 8]) (by decide)) <|
    .cons .startRepeat <|
    .cons (.pop fun _ _ _ levels => by cases levels; decide) <|
    .cons (.push (.array .integer8 []) (by decide)) <|
    .cons .resetRepeat <|
    .cons (.endRepeat (by decide)) <|
    .cons .resetRepeat <|
    .cons (.pop nofun) <|
    .cons (.pop nofun) <|
    .cons (.pop nofun) <|
    .cons (.endRepeat (by decide)) .nil
  refine ⟨_, created, ⟨_, run⟩, ?room, tape_keeps_ledger created run ?room⟩
  decide +kernel

end AdjointTape

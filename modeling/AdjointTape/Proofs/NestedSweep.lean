import AdjointTape.Proofs.Lodging
import AdjointTape.Proofs.Sweeping

/-!
# Sweeps under open levels

A sweep opens levels of its own inside those that are open already.  Its snapshots go behind what
the active level protects, and they are popped inside a level of the sweep; when the sweep closes
that level it also follows back the redirect of the enclosing one.  So the tape comes back, with all
its levels.  Only the report does not say so: to a sweep a tape is balanced with no level open, and
not with those that were open when the sweep began.
-/

open AdjointTape.Action AdjointTape.Tape

namespace AdjointTape

/-- A sweep under open levels is neutral, and is reported to be unbalanced. On every reachable tape,
however many levels are open, unless the active redirect is open and the cursor is on its
`freePush`: if segments are replayed at least once where there are any, and the step numbers stay
within a word, a sweep is cut short, or it finds no mismatch and leaves the cursor, the levels with
their redirects, the marks and all that is buffered as they were; and its report calls the tape
balanced if and only if no level was open. -/
theorem sweep_under_levels_is_neutral {t : Tape} (reachable : t.Reachable)
    (off : ∀ level ∈ t.stack.levels.head?, level.backPop = none ∨ level.freePush < t.location)
    (trace : Trace) (o : Overflow) {config : SweepConfig}
    (replays : 0 < config.checkpointEvery → 0 < config.replays)
    (fits : config.steps.toNat + config.checkpointEvery.toNat < wordLimit) :
    (∃ e s, Sweep.run o config (.start t trace) = .error e s ∧ config.CutShort o t e) ∨
    ∃ report s, Sweep.run o config (.start t trace) = .ok report s ∧ report.mismatches = [] ∧
      t.Alike s.tape ∧ s.tape.depth = t.depth ∧
      (report.balanced = true ↔ t.depth = 0) := by
  obtain ⟨host, start, alike⟩ := exists_host reachable.sound off
  have valid : config.flaw? = none :=
    if_neg fun flaw => UInt64.pos_iff_ne_zero.1 (replays flaw.1) flaw.2
  rw [Sweep.run_eq valid]
  obtain ⟨s, run, clean, -⟩ | ⟨e, s, run, short⟩ :=
    Sweep.undertake_ends (o := o) replays fits start trace
  · have same := alike s.tape clean.tape
    have depth : s.tape.depth = t.depth := congrArg List.length same.marks
    refine .inr ⟨_, s, bind_ok run, congrArg List.reverse clean.mismatches, same, depth, ?_⟩
    simp only [Sweep.report, same.location, same.fill, depth, Sweep.start, decide_true,
      Bool.true_and, decide_eq_true_eq]
  · exact .inl ⟨e, s, bind_error run, short⟩

/-- Two steps in two segments that are replayed twice, inside a level and below what it protects. -/
theorem sweep_under_levels_is_neutral_below_its_floor :
    let config : SweepConfig := ⟨2, 1, 2⟩
    ∃ t : Tape, t.Reachable ∧ t.depth = 1 ∧
      (∀ level ∈ t.stack.levels.head?, level.backPop = none ∨ level.freePush < t.location) ∧
      (0 < config.checkpointEvery → 0 < config.replays) ∧
      config.steps.toNat + config.checkpointEvery.toNat < wordLimit ∧
      ∃ report s, Sweep.run .stops config (.start t .off) = .ok report s ∧
        report.mismatches = [] ∧ t.Alike s.tape ∧ s.tape.depth = t.depth ∧
        (report.balanced = true ↔ t.depth = 0) := by
  intro config
  have created : Tape.create ⟨4, 2⟩ none = .ok _ := rfl
  have reachable := (Tape.Reachable.create created).run
    [.pushBytes [1, 2] true, .startRepeat, .popBytes 1 true]
  obtain ⟨t, reachable, depth, off, room⟩ : ∃ t : Tape, t.Reachable ∧ t.depth = 1 ∧
      (∀ level ∈ t.stack.levels.head?, level.backPop = none ∨ level.freePush < t.location) ∧
      (outcome (Sweep.run .stops config (.start t .off))).toBool = true :=
    ⟨_, reachable, by decide +kernel, by decide +kernel, by decide +kernel⟩
  have replays : 0 < config.checkpointEvery → 0 < config.replays := fun _ => by decide
  have fits : config.steps.toNat + config.checkpointEvery.toNat < wordLimit := by decide
  refine ⟨t, reachable, depth, off, replays, fits, ?_⟩
  obtain ⟨e, s, short, -⟩ | neutral :=
    sweep_under_levels_is_neutral reachable off .off .stops replays fits
  · obtain ⟨_, _, run⟩ := ok_of_toBool room
    cases run.symm.trans short
  · exact neutral

/-- A sweep that leaves a level open as it found it, and the cursor and the buffers too, calls the
tape unbalanced all the same. -/
theorem sweep_under_a_level_is_called_unbalanced :
    ¬ ∀ (t : Tape) (o : Overflow) (config : SweepConfig), t.Reachable → 0 < t.depth →
      (∀ level ∈ t.stack.levels.head?, level.backPop = none ∨ level.freePush < t.location) →
      (0 < config.checkpointEvery → 0 < config.replays) →
      config.steps.toNat + config.checkpointEvery.toNat < wordLimit →
      ∀ report s, Sweep.run o config (.start t .off) = .ok report s → report.balanced = true := by
  intro law
  have created : Tape.create ⟨4, 2⟩ none = .ok _ := rfl
  have reachable := (Tape.Reachable.create created).run
    [.pushBytes [1, 2] true, .startRepeat, .popBytes 1 true]
  let verdict : Except Failure SweepReport → Option Bool
    | .ok report => some report.balanced
    | .error _ => none
  obtain ⟨t, reachable, depth, off, found⟩ : ∃ t : Tape, t.Reachable ∧ 0 < t.depth ∧
      (∀ level ∈ t.stack.levels.head?, level.backPop = none ∨ level.freePush < t.location) ∧
      verdict (outcome (Sweep.run .stops ⟨2, 1, 2⟩ (.start t .off))) = some false :=
    ⟨_, reachable, by decide +kernel, by decide +kernel, by decide +kernel⟩
  cases run : Sweep.run .stops ⟨2, 1, 2⟩ (.start t .off) with
  | ok report s =>
    rw [run] at found
    have balanced :=
      law t .stops ⟨2, 1, 2⟩ reachable depth off (fun _ => by decide) (by decide) report s run
    rw [show verdict (outcome (.ok report s)) = some report.balanced from rfl, balanced] at found
    cases found
  | error e s =>
    rw [run] at found
    cases found

end AdjointTape

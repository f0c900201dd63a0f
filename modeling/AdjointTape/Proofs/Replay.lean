import AdjointTape.Proofs.Agreement

/-!
# A restart leaves no trace of what was replayed

Whatever is done inside a level, as long as it heeds the levels and closes those it opens, a restart
brings the tape back to where it was when the level was opened: the same cursor, levels and buffers
and the same bytes within reach.  So what follows the restart goes as it would have gone without the
replay.
-/

open AdjointTape.Action

namespace AdjointTape

/-- The number of open levels after a call, where `depth` were open before; none when the call
closes one too many. -/
def Call.nesting : (depth : Nat) → Call → Option Nat
  | depth, .startRepeat => some (depth + 1)
  | 0, .endRepeat => none
  | depth + 1, .endRepeat => some depth
  | depth, _ => some depth

/-- Whether calls close every level that they open, and no other. -/
def Call.Balanced (calls : List Call) : Prop := calls.foldlM Call.nesting 0 = some 0

namespace FlatTape

/-- A call opens and closes the levels that its nesting says, unless it finds no room. -/
lemma length_performFlat {c : Call} {f : FlatTape} (sound : f.Sound) (heeds : c.bypasses = false)
    (room : ranOut (outcome (c.performFlat f)) = false) {depth depth' others : Nat}
    (nesting : c.nesting depth = some depth') (length : f.stack.levels.length = depth + others) :
    (after (c.performFlat f)).stack.levels.length = depth' + others := by
  by_cases opens : c = .startRepeat
  · subst opens
    obtain rfl : depth + 1 = depth' := Option.some.inj nesting
    have same : after (Call.startRepeat.performFlat f) = after (startRepeat f) := after_answer _ _ f
    rw [same]
    obtain ⟨f', run, opened⟩ | ⟨_, _, f', run, -⟩ := startRepeat_spec f
    · rw [run]
      simp only [after, opened.levels, List.length_cons, length]
      omega
    · have room := ranOut_first room
      rw [run] at room
      cases room
  by_cases closes : c = .endRepeat
  · subst closes
    have same : after (Call.endRepeat.performFlat f) = after (endRepeat f) := after_answer _ _ f
    rw [same]
    cases depth with
    | zero => cases nesting
    | succ depth =>
      obtain rfl : depth = depth' := Option.some.inj nesting
      obtain ⟨none, -⟩ | ⟨level, outer, f', levels, run, closed⟩ := endRepeat_spec f
      · rw [none, List.length_nil] at length
        omega
      · rw [levels, List.length_cons] at length
        rw [run]
        simp only [after, closed.levels.length_eq]
        omega
  have step := guarded_performFlat opens closes heeds sound
  have same : depth' = depth := by
    cases c <;> first | exact absurd rfl opens | exact absurd rfl closes | skip
    all_goals cases depth <;> exact (Option.some.inj nesting).symm
  rw [step.stack.levels.length_eq, length, same]

/-- Calls that close the levels they open, and no others, keep what is sheltered. -/
lemma Shelters.run {f g : FlatTape} {p : List Call} {depth : Nat} (shelters : Shelters f g)
    (sound : g.Sound) (heeds : ∀ c ∈ p, c.bypasses = false)
    (length : g.stack.levels.length = depth + f.stack.levels.length)
    (balanced : p.foldlM Call.nesting depth = some 0)
    (room : ∀ o ∈ (runAll Call.performFlat p g).1, ranOut o = false) :
    (runAll Call.performFlat p g).2.Sound ∧ Shelters f (runAll Call.performFlat p g).2 ∧
      (runAll Call.performFlat p g).2.stack.levels.length = f.stack.levels.length := by
  induction p generalizing g depth with
  | nil =>
    obtain rfl : depth = 0 := Option.some.inj balanced
    exact ⟨sound, shelters, length.trans (Nat.zero_add _)⟩
  | cons c rest ih =>
    rw [List.foldlM_cons] at balanced
    cases nesting : c.nesting depth with
    | none =>
      rw [nesting] at balanced
      cases balanced
    | some depth' =>
      rw [nesting] at balanced
      rw [runAll_cons] at room ⊢
      have heed := heeds c List.mem_cons_self
      have length' := length_performFlat sound heed (room _ List.mem_cons_self) nesting length
      -- no call of a balanced run closes a level that was open before
      have still : f.stack.levels.length ≤ (after (c.performFlat g)).stack.levels.length :=
        length' ▸ Nat.le_add_left _ _
      exact ih (shelters.performFlat sound heed still) (sound_performFlat c sound)
        (fun c mem => heeds c (List.mem_cons_of_mem _ mem)) length' balanced
        fun o mem => room o (List.mem_cons_of_mem _ mem)

/-- A level that is open alone above those of `f` restarts where it was opened. -/
lemma Opened.restart {f f1 f2 : FlatTape} (opened : Opened f f1) (sound : f.Sound) (clean : f.Clean)
    (shelters : Shelters f1 f2) (length : f2.stack.levels.length = f1.stack.levels.length) :
    ∃ f3, resetRepeat f2 = .ok () f3 ∧ Twins f1 f3 := by
  obtain ⟨inner, kept, saved, levels, marks, inside, redirects⟩ := shelters.levels
  have alone : inner.length = 0 := by
    rw [levels, List.length_append, redirects.length_eq] at length
    omega
  obtain rfl := List.length_eq_zero_iff.1 alone
  obtain rfl := List.length_eq_zero_iff.1 (inside.trans alone)
  rw [opened.levels] at redirects
  obtain _ | @⟨_, now, _, redirects⟩ := redirects
  rw [List.nil_append] at levels
  rw [List.nil_append, opened.marks] at marks
  refine ⟨_, resetRepeat_eq levels marks, opened.sound sound, ?_⟩
  have freePush : now.freePush = f.stack.frontier + f.fill.savedBytes := redirects.freePush
  have floor1 : FlatStack.floor f1.stack.levels = f.stack.frontier + f.fill.savedBytes := by
    rw [opened.levels]
    rfl
  -- what the level saved is still there
  have intact : f2.stack.bytes.read (now.freePush - f.fill.savedBytes) f.fill.savedBytes =
      f.saved := by
    rw [freePush, Nat.add_sub_cancel]
    have same : f2.stack.bytes.read f.stack.frontier f.fill.savedBytes =
        f1.stack.bytes.read f.stack.frontier f.fill.savedBytes :=
      ByteMap.read_congr fun l _ below => shelters.bytes l (floor1 ▸ below)
    rw [same, opened.bytes, ← f.length_saved, ByteMap.read_write]
  obtain ⟨stack, valid, bits, marks', capacity⟩ :=
    restarted_spec f.stack.levels clean (freePush ▸ Nat.le_add_left _ _) intact
  refine ⟨⟨?_, ?_, fun l below => ?_⟩, ?_, ?_, ?_, ?_⟩
  · exact (congrArg FlatStack.cursor stack).trans (redirects.resume.trans opened.cursor.symm)
  · refine (congrArg FlatStack.levels stack).trans ?_
    obtain ⟨resume, place, backPop⟩ := now
    obtain rfl : resume = f.newLevel.resume := redirects.resume
    obtain rfl : place = f.newLevel.freePush := redirects.freePush
    rw [opened.levels]
    rfl
  · refine (congrFun (congrArg FlatStack.bytes stack) l).trans (shelters.bytes l ?_)
    have low : f1.stack.cursor ≤ FlatStack.floor f1.stack.levels := by
      rw [floor1, opened.cursor]
      exact Nat.le_trans (Nat.le_max_left _ _) (Nat.le_add_right _ _)
    exact Nat.lt_of_lt_of_le below (Nat.max_le.2 ⟨low, Nat.le_refl _⟩)
  · exact valid.trans opened.valid.symm
  · exact bits.trans opened.bits.symm
  · exact marks'.trans (marks.trans opened.marks.symm)
  · exact capacity.trans shelters.capacity

/-- What a replay that is abandoned leaves on flat memory. -/
lemma replay {f : FlatTape} (sound : f.Sound) (clean : f.Clean) {p q : List Call}
    (heeds : ∀ c ∈ p, c.bypasses = false) (balanced : Call.Balanced p)
    (stays : ∀ c ∈ q, c.seeks = false)
    (roomR : ∀ o ∈ (runAll Call.performFlat (.startRepeat :: (p ++ .resetRepeat :: q)) f).1,
      ranOut o = false)
    (roomF : ∀ o ∈ (runAll Call.performFlat (.startRepeat :: q) f).1, ranOut o = false) :
    ∃ before answers replayed fresh, before.length = p.length + 1 ∧
      runAll Call.performFlat (.startRepeat :: (p ++ .resetRepeat :: q)) f =
        (before ++ .ok .unit :: answers, replayed) ∧
      runAll Call.performFlat (.startRepeat :: q) f = (.ok .unit :: answers, fresh) ∧
      fresh.Agrees replayed := by
  have starts := ranOut_first (roomF _ List.mem_cons_self)
  obtain ⟨f1, run1, opened⟩ | ⟨_, _, f1, run1, -⟩ := startRepeat_spec f
  case inr =>
    rw [run1] at starts
    cases starts
  have start : Call.startRepeat.performFlat f = .ok .unit f1 := bind_ok run1
  have sound1 := opened.sound sound
  have nesting : f1.stack.levels.length = 0 + f1.stack.levels.length := (Nat.zero_add _).symm
  rw [runAll_cons, start] at roomR roomF
  have roomP : ∀ o ∈ (runAll Call.performFlat p f1).1, ranOut o = false := fun o mem => by
    refine roomR o (List.mem_cons_of_mem _ ?_)
    rw [after, runAll_append]
    exact List.mem_append_left _ mem
  obtain ⟨sound2, shelters, length⟩ := (Shelters.refl f1).run sound1 heeds nesting balanced roomP
  obtain ⟨f3, run3, twins⟩ := opened.restart sound clean shelters length
  have reset : Call.resetRepeat.performFlat (runAll Call.performFlat p f1).2 = .ok .unit f3 :=
    bind_ok run3
  have roomQ : ∀ o ∈ (runAll Call.performFlat q f3).1, ranOut o = false := fun o mem => by
    refine roomR o (List.mem_cons_of_mem _ ?_)
    rw [after, runAll_append]
    refine List.mem_append_right _ ?_
    rw [runAll_cons, reset]
    exact List.mem_cons_of_mem _ mem
  -- after the restart both runs make the same calls from tapes that agree
  obtain ⟨answers, last⟩ := Parallel.all (fun c mem => parallel_performFlat (stays c mem)) twins
    (fun o mem => roomF o (List.mem_cons_of_mem _ mem)) roomQ
  refine ⟨.ok .unit :: (runAll Call.performFlat p f1).1, (runAll Call.performFlat q f1).1,
    (runAll Call.performFlat q f3).2, (runAll Call.performFlat q f1).2, ?_, ?_, ?_, last.agrees⟩
  · rw [List.length_cons, length_runAll]
  · rw [runAll_cons, start, after, runAll_append, runAll_cons, reset, after, answers]
    rfl
  · rw [runAll_cons, start]
    rfl

end FlatTape

namespace Tape

/-- Two tapes with the same cursor, levels and buffers, and the same bytes up to the cursor or to
the `freePush` of the active level, whichever lies higher. -/
structure Agrees (t u : Tape) : Prop where
  location : u.location = t.location
  levels : u.stack.levels = t.stack.levels
  marks : u.marks = t.marks
  fill : u.area.marks = t.area.marks
  valid : ∀ k, (u.area.get k).valid = (t.area.get k).valid
  bits : u.area.bits = t.area.bits
  bytes : ∀ l < max t.location (FlatStack.floor t.stack.levels), u.byteAt l = t.byteAt l

/-- What is replayed in a new level and then abandoned by a restart cannot be told afterwards: the
restart succeeds, and the calls `q` answer what they answer in a new level without a replay, and
leave tapes that agree. This is asked only where memory does not run out. -/
def ReplayLaw (t : Tape) (p q : List Call) : Prop :=
  let replayed := Call.performAll ([.startRepeat] ++ p ++ [.resetRepeat] ++ q) t
  let fresh := Call.performAll ([.startRepeat] ++ q) t
  (∀ o ∈ replayed.1, ranOut o = false) → (∀ o ∈ fresh.1, ranOut o = false) →
    replayed.1[p.length + 1]? = some (.ok .unit) ∧
      replayed.1.drop (p.length + 2) = fresh.1.drop 1 ∧ fresh.2.Agrees replayed.2

/-- Tapes agree when their flat views do. -/
lemma agrees_of_flat {t u : Tape} (sound : t.Sound) (sound' : u.Sound)
    (agrees : t.flat.Agrees u.flat) : t.Agrees u := by
  have fill := agrees.saved.2
  rw [sound.blocks.fill, sound'.blocks.fill] at fill
  refine ⟨agrees.stack.cursor, agrees.stack.levels, agrees.marks, fill, fun k => ?_, agrees.bits,
    agrees.stack.bytes⟩
  exact List.reverse_injective (congrFun agrees.valid k)

end Tape

/-- A restart leaves no trace of what was replayed. From every reachable tape on which an empty bit
buffer holds a zero word, whatever is done in a new level, as long as it heeds the levels and closes
those it opens, seeks and failing calls included: the restart succeeds, and everything that follows
but a seek answers, fails and leaves the tape as it would have done without the replay. -/
theorem restart_leaves_no_trace {t : Tape} (reachable : t.Reachable)
    (clean : t.area.bits.index = 0 → t.area.bits.word = 0) {p q : List Call}
    (heeds : ∀ c ∈ p, c.bypasses = false) (balanced : Call.Balanced p)
    (stays : ∀ c ∈ q, c.seeks = false) : t.ReplayLaw p q := by
  have sound := reachable.sound
  have shape : ([.startRepeat] ++ p ++ [.resetRepeat] ++ q : List Call) =
      .startRepeat :: (p ++ .resetRepeat :: q) := by simp
  rw [Tape.ReplayLaw, shape, Tape.performAll_eq, Tape.performAll_eq]
  intro roomR roomF
  obtain ⟨soundR, answersR, viewR⟩ :=
    Commutes.all Tape.perform_commutes (.startRepeat :: (p ++ .resetRepeat :: q)) sound
  obtain ⟨soundF, answersF, viewF⟩ :=
    Commutes.all Tape.perform_commutes ([.startRepeat] ++ q) sound
  rw [answersR] at roomR
  rw [answersF] at roomF
  obtain ⟨before, answers, replayed, fresh, length, runR, runF, agrees⟩ :=
    FlatTape.replay sound.levels clean heeds balanced stays roomR roomF
  rw [runR] at answersR viewR
  rw [show ([.startRepeat] ++ q : List Call) = .startRepeat :: q from rfl, runF] at answersF viewF
  refine ⟨?_, ?_, Tape.agrees_of_flat soundF soundR ?_⟩
  · rw [answersR, ← length, List.getElem?_append_right (Nat.le_refl _), Nat.sub_self]
    rfl
  · rw [answersR, show p.length + 2 = before.length + 1 by rw [length]]
    refine Eq.trans ?_ (congrArg (List.drop 1) answersF).symm
    rw [List.drop_append, Nat.add_sub_cancel_left, List.drop_of_length_le (Nat.le_succ _)]
    rfl
  · exact viewF ▸ viewR ▸ agrees

/-- A replay that spills a buffer, opens a level of its own and reads past where it began. -/
theorem restart_leaves_no_trace_of_a_spill :
    ∃ t : Tape, t.Reachable ∧ (t.area.bits.index = 0 → t.area.bits.word = 0) ∧
      let p := [.push .character 3, .push .character 4, .startRepeat, .pop .character,
        .popBytes 3 true, .endRepeat, .setLocation 1]
      let q := [.pop .character, .popBytes 2 true, .resetRepeat, .pop .pointer]
      (∀ c ∈ p, c.bypasses = false) ∧ Call.Balanced p ∧ (∀ c ∈ q, c.seeks = false) ∧
        (∀ o ∈ (Call.performAll ([.startRepeat] ++ p ++ [.resetRepeat] ++ q) t).1,
          ranOut o = false) ∧
        (∀ o ∈ (Call.performAll ([.startRepeat] ++ q) t).1, ranOut o = false) ∧
        t.ReplayLaw p q := by
  have created : Tape.create ⟨2, 2⟩ none = .ok _ := rfl
  have reachable := (Tape.Reachable.create created).run [.pushBytes [1, 2] true, .push .character 5]
  refine ⟨_, reachable, by decide +kernel, by decide, rfl, by decide, by decide +kernel,
    by decide +kernel, restart_leaves_no_trace reachable ?_ (by decide) rfl (by decide)⟩
  decide +kernel

/-- Where an empty bit buffer holds a word that is not zero a restart does leave a trace: a push
that bypassed a level gave it bits it had not saved, the restart drops them, and the next level that
is opened saves a different word. -/
theorem restart_leaves_a_trace_of_stale_bits :
    ¬ ∀ (t : Tape) (p q : List Call), t.Reachable → (∀ c ∈ p, c.bypasses = false) →
      Call.Balanced p → (∀ c ∈ q, c.seeks = false) → t.ReplayLaw p q := by
  intro law
  have created : Tape.create ⟨4, 2⟩ none = .ok _ := rfl
  have reachable := (Tape.Reachable.create created).run [.pushBit true, .startRepeat,
    .pushBytes [255, 255, 255, 255] false, .resetRepeat, .popBit]
  obtain ⟨-, answers, -⟩ := law _ []
    [.pushBit true, .startRepeat, .pushBytes [] true, .popBytes 4 false] reachable (by decide) rfl
    (by decide) (by decide +kernel) (by decide +kernel)
  let bytes : Except Failure Answer → List UInt8
    | .ok (.bytes data) => data
    | _ => []
  exact absurd (congrArg (List.map bytes) answers) (by decide +kernel)

end AdjointTape

import AdjointTape.Proofs.Holding
import Mathlib.Algebra.Order.BigOperators.Group.List
import Mathlib.Algebra.Order.Ring.Nat

/-!
# Items on top of open levels

A tape with open levels is host to a program that opens and closes levels of its own, one at a time.
The program puts items on top of what it finds.  Nothing is known of what the levels of the host
have saved, and none of them is restarted; but they keep the bytes they protect, and a pop inside a
level of the program asks for an item that was pushed since the levels of the host were opened.
When nothing is left on top, the tape is as the program found it.
-/

open AdjointTape.Action AdjointTape.FlatStack

namespace AdjointTape

namespace FlatTape

/-- A sound tape with entries on top of a base, every one of them pushed since the enclosing levels
were opened. -/
structure Bears (sinces : List Nat) (base : Stage) (entries : List Entry) (f : FlatTape) :
    Prop where
  sound : f.Sound
  tidy : base.Tidy f.capacity
  fits : ∀ entry ∈ entries, entry.item.Fits
  recent : ∀ entry ∈ entries, ∀ since ∈ sinces.tail, since ≤ entry.serial
  carries : f.Carries sinces (.ofEntries f.capacity base entries)

namespace Bears

variable {sinces : List Nat} {base : Stage} {entries : List Entry} {f : FlatTape}

/-- A push puts its item on top of the entries. -/
lemma push (bears : Bears sinces base entries f) {item : Item} (fits : item.Fits) {serial : Nat}
    (recent : ∀ since ∈ sinces, since ≤ serial)
    (room : ranOut (outcome (item.pushCall.performFlat f)) = false) :
    ∃ f', item.pushCall.performFlat f = .ok .unit f' ∧ Guarded f f' ∧
      Bears sinces base (⟨item, serial⟩ :: entries) f' := by
  obtain ⟨f', run, carries⟩ := carries_pushItem bears.carries bears.sound recent fits room
  have step : Guarded f f' := after_ok run ▸ guarded_pushItem item bears.sound
  refine ⟨f', run, step, step.sound bears.sound, step.capacity ▸ bears.tidy,
    List.forall_mem_cons.2 ⟨fits, bears.fits⟩, ?_, step.capacity ▸ carries⟩
  exact List.forall_mem_cons.2
    ⟨fun since mem => recent since (List.mem_of_mem_tail mem), bears.recent⟩

/-- A pop takes the last entry off and answers its item. -/
lemma pop {entry : Entry} (bears : Bears sinces base (entry :: entries) f) :
    ∃ f', entry.item.popCall.performFlat f = .ok entry.item.answer f' ∧ Guarded f f' ∧
      Bears sinces base entries f' := by
  obtain ⟨fits, others⟩ := List.forall_mem_cons.1 bears.fits
  obtain ⟨recent, earlier⟩ := List.forall_mem_cons.1 bears.recent
  obtain ⟨f', run, carries⟩ :=
    carries_popItem bears.tidy fits bears.carries (due_of_recent recent)
  have step : Guarded f f' := after_ok run ▸ guarded_popItem entry.item bears.sound
  exact ⟨f', run, step, step.sound bears.sound, step.capacity ▸ bears.tidy, others, earlier,
    step.capacity ▸ carries⟩

end Bears

/-- Where no further level is open, what is sheltered is what a guarded run leaves. -/
lemma Shelters.alone {f g : FlatTape} (shelters : Shelters f g)
    (depth : g.stack.levels.length = f.stack.levels.length) (roomy : g.Roomy) : Guarded f g := by
  obtain ⟨inner, kept, saved, levels, marks, length, redirects⟩ := shelters.levels
  have none : inner.length = 0 := by
    rw [levels, List.length_append, redirects.length_eq] at depth
    omega
  obtain rfl := List.length_eq_zero_iff.1 none
  obtain rfl := List.length_eq_zero_iff.1 (length.trans none)
  exact ⟨⟨levels ▸ redirects, shelters.bytes⟩, marks, shelters.capacity, fun _ => roomy⟩

/-- A restart brings a level back whatever stray bits there were when it was opened. -/
lemma Opened.both_cleaned {f g : FlatTape} (opened : Opened f g) : Opened f.cleaned g.cleaned := by
  have level : f.cleaned.newLevel = f.newLevel := by
    rw [newLevel, newLevel, fill_cleaned]
    rfl
  refine ⟨?_, opened.cursor, ?_, opened.valid, ?_, ?_, opened.capacity⟩
  · rw [saved_cleaned]
    exact opened.bytes
  · rw [level]
    exact opened.levels
  · change (if g.bits.index = 0 then BitBuffer.empty else g.bits) = _
    rw [opened.bits]
    rfl
  · rw [fill_cleaned]
    exact opened.marks

end FlatTape

/-! ## Hosts and guests -/

/-- A tape whose levels a program leaves open, and what the program finds on it. -/
structure Host where
  tape : FlatTape
  /-- The time that the active level is given, if there is one. -/
  times : List Nat
  base : Stage
  /-- The time that is given to the levels of the program. -/
  since : Nat
  tidy : base.Tidy tape.capacity
  sound : tape.Sound
  recent : ∀ time ∈ times, time ≤ 1
  late : 1 < since
  early : ∀ x ∈ base.segments, x.serial < since

namespace Host

open FlatTape

/-- A tape with the levels of its host and entries on top of it. -/
structure Rests (host : Host) (entries : List Entry) (f : FlatTape) : Prop where
  bears : Bears host.times host.base entries f
  made : ∀ entry ∈ entries, entry.serial = 1
  guarded : Guarded host.tape f

/-- A tape that holds items on top of its host, in the scope of one further level or of none. -/
inductive Lodges (host : Host) : Option Scope → List Item → FlatTape → Prop where
  | outside {entries : List Entry} {f : FlatTape} (rests : host.Rests entries f) :
    Lodges host none (entries.map Entry.item) f
  | inside {copied lower upper : List Entry} {g g' f : FlatTape}
    (rests : host.Rests (copied ++ lower) g) (opened : Opened g g') (guarded : Guarded g' f)
    (bears : Bears (host.since :: host.times) host.base (upper ++ lower) f) :
    Lodges host (some ⟨copied.map Entry.item, lower.map Entry.item⟩) (upper.map Entry.item) f

variable {host : Host} {scope : Option Scope} {items saved below : List Item}

/-- A push adds its item above the host. -/
lemma pushItem (item : Item) (fits : item.Fits) :
    Answers (host.Lodges scope items) item.pushCall.performFlat .unit
      (host.Lodges scope (item :: items)) := by
  intro f lodges room
  cases lodges with
  | outside rests =>
    obtain ⟨f', run, step, bears⟩ := rests.bears.push fits host.recent room
    exact ⟨f', run, .outside ⟨bears, List.forall_mem_cons.2 ⟨rfl, rests.made⟩,
      rests.guarded.trans step⟩⟩
  | @inside _ lower upper _ _ _ rests opened guarded bears =>
    have recent : ∀ since ∈ host.since :: host.times, since ≤ host.since :=
      List.forall_mem_cons.2 ⟨Nat.le_refl _, fun time mem =>
        Nat.le_trans (host.recent time mem) (Nat.le_of_lt host.late)⟩
    obtain ⟨f', run, step, bears'⟩ := bears.push fits recent room
    have bears' : Bears (host.since :: host.times) host.base
        ((⟨item, host.since⟩ :: upper) ++ lower) f' := bears'
    exact ⟨f', run, .inside rests opened (guarded.trans step) bears'⟩

/-- The pop that asks for the last item above the host answers it. -/
lemma popItem (item : Item) :
    Answers (host.Lodges scope (item :: items)) item.popCall.performFlat item.answer
      (host.Lodges scope items) := by
  intro f lodges _
  generalize listed : item :: items = all at lodges
  cases lodges with
  | outside rests =>
    obtain ⟨entry, entries, rfl, rfl, rfl⟩ := List.map_eq_cons_iff.1 listed.symm
    obtain ⟨f', run, step, bears⟩ := rests.bears.pop
    exact ⟨f', run, .outside ⟨bears, (List.forall_mem_cons.1 rests.made).2,
      rests.guarded.trans step⟩⟩
  | inside rests opened guarded bears =>
    obtain ⟨entry, entries, rfl, rfl, rfl⟩ := List.map_eq_cons_iff.1 listed.symm
    obtain ⟨f', run, step, bears'⟩ := bears.pop
    exact ⟨f', run, .inside rests opened (guarded.trans step) bears'⟩

/-! ### Levels of the guest -/

/-- What is below a level of the guest was put on the stack before it was opened. -/
lemma Rests.early {entries : List Entry} {f : FlatTape} (rests : host.Rests entries f)
    (capacity : Nat) :
    ∀ x ∈ (Stage.ofEntries capacity host.base entries).segments, x.serial < host.since :=
  Stage.serial_ofEntries host.early fun entry mem =>
    ⟨rests.bears.fits entry mem, rests.made entry mem ▸ host.late⟩

/-- A level that the guest opens bears what was there. -/
lemma Rests.opened {entries : List Entry} {f g : FlatTape} (rests : host.Rests entries f)
    (opened : Opened f g) : Bears (host.since :: host.times) host.base entries g := by
  have bears := rests.bears
  refine ⟨opened.sound bears.sound, opened.capacity ▸ bears.tidy, bears.fits, ?_, ?_⟩
  · intro entry mem time mem'
    rw [rests.made entry mem]
    exact host.recent time mem'
  · rw [opened.capacity]
    refine bears.carries.opened opened (rests.early _) (List.pairwise_cons.2 ⟨?_, ?_⟩)
    · exact fun time mem => Nat.le_trans (host.recent time mem) (Nat.le_of_lt host.late)
    · exact bears.carries.stack.sorted

/-- A level that is opened above the host saves the items at hand. -/
lemma startRepeat :
    Answers (host.Lodges none (saved ++ below)) Call.startRepeat.performFlat .unit
      (host.Lodges (some ⟨saved, below⟩) saved) := by
  intro f lodges room
  generalize listed : saved ++ below = all at lodges
  obtain ⟨rests⟩ := lodges
  obtain ⟨copied, lower, rfl, rfl, rfl⟩ := List.map_eq_append_iff.1 listed.symm
  obtain ⟨f', run, opened⟩ | ⟨_, _, f', run, -⟩ := startRepeat_spec f
  case inr =>
    have room := ranOut_first room
    rw [run] at room
    cases room
  exact ⟨f', bind_ok run, .inside rests opened (.refl f') (rests.opened opened)⟩

/-- A restart brings back the items that were saved above the host. -/
lemma resetRepeat :
    Answers (host.Lodges (some ⟨saved, below⟩) items) Call.resetRepeat.performFlat .unit
      (host.Lodges (some ⟨saved, below⟩) saved) := by
  intro f lodges _
  cases lodges with
  | @inside copied lower upper g g' f rests opened guarded bears =>
    have before := rests.opened opened
    have sound : g.cleaned.Sound :=
      ⟨rests.bears.sound.nested, rests.bears.sound.roomy.valid,
        g.index_cleaned ▸ rests.bears.sound.roomy.bits⟩
    have shelters := (Shelters.refl g').guarded before.sound guarded
    have kept : Shelters g'.cleaned f := ⟨shelters.levels, shelters.capacity, shelters.bytes⟩
    obtain ⟨f', run, -, agrees⟩ := opened.both_cleaned.restart sound g.clean_cleaned kept
      guarded.stack.levels.length_eq
    have step := guarded.trans (after_ok run ▸ guarded_resetRepeat bears.sound)
    refine ⟨f', bind_ok run, .inside rests opened step ⟨step.sound before.sound,
      step.capacity ▸ before.tidy, before.fits, before.recent, step.capacity ▸ ?_⟩⟩
    have stack : g'.stack.Agrees f'.stack :=
      ⟨agrees.stack.cursor, agrees.stack.levels, agrees.stack.bytes⟩
    exact before.carries.agrees stack agrees.valid (agrees.bits ▸ g'.valid_cleaned)

/-- A level of the guest is closed when nothing is left that was pushed inside. -/
lemma endRepeat :
    Answers (host.Lodges (some ⟨saved, below⟩) []) Call.endRepeat.performFlat .unit
      (host.Lodges none below) := by
  intro f lodges _
  generalize listed : ([] : List Item) = items at lodges
  cases lodges with
  | @inside copied lower upper g g' f rests opened guarded bears =>
    obtain rfl := List.map_eq_nil_iff.1 listed.symm
    have sound' := (rests.opened opened).sound
    have below : ∀ entry ∈ lower, entry.serial = 1 := fun entry mem =>
      rests.made entry (List.mem_append_right _ mem)
    have levels := guarded.stack.levels
    rw [opened.levels] at levels
    generalize now : f.stack.levels = all at levels
    obtain _ | @⟨_, level, _, -⟩ := levels
    have run : Call.endRepeat.performFlat f = .ok .unit
        { f with stack := f.stack.ended level g.stack.levels, marks := f.marks.tail } :=
      bind_ok (by rw [FlatTape.endRepeat, now])
    have sound := sound_performFlat .endRepeat bears.sound
    rw [run] at sound
    refine ⟨_, run, .outside ⟨⟨sound, bears.tidy, bears.fits, ?recent, ?carries⟩, below, ?guarded⟩⟩
    case recent =>
      intro entry mem time mem'
      exact bears.recent entry mem time (List.mem_of_mem_tail mem')
    case carries =>
      refine bears.carries.ended now ?_ rests.bears.carries.stack.timed
      exact Stage.serial_ofEntries host.early fun entry mem =>
        ⟨bears.fits entry mem, below entry mem ▸ host.late⟩
    case guarded =>
      have shelters := (((Shelters.refl host.tape).guarded host.sound rests.guarded).opened
        rests.bears.sound opened).guarded sound' guarded
      have depth : (f.stack.ended level g.stack.levels).levels.length =
          host.tape.stack.levels.length := by
        have same := (guarded_rejoined { f.stack with
          cursor := level.backPop.getD f.stack.cursor, levels := g.stack.levels }).levels.length_eq
        exact same.trans rests.guarded.stack.levels.length_eq
      have last := shelters.performFlat bears.sound (c := .endRepeat) rfl
        (by rw [run]; exact Nat.le_of_eq depth.symm)
      rw [run] at last
      exact last.alone depth sound.roomy

/-! ### Guests as programs on a tape -/

/-- A tape that holds items on top of its host on flat memory. -/
def Hosts (host : Host) (scope : Option Scope) (items : List Item) (t : Tape) : Prop :=
  t.Sound ∧ host.Lodges scope items t.flat

/-- What a call answers on flat memory it answers on a tape. -/
lemma hosts_answers {scope' : Option Scope} {items' : List Item} {c : Call} {a : Answer}
    (flat : Answers (host.Lodges scope items) c.performFlat a (host.Lodges scope' items')) :
    Answers (host.Hosts scope items) c.perform a (host.Hosts scope' items') := by
  rintro t ⟨sound, lodges⟩ room
  rw [← outcome_through Tape.flat, (Tape.perform_commutes c t sound).2] at room
  obtain ⟨f, run, lodges'⟩ := flat t.flat lodges room
  obtain ⟨t', run', sound', rfl⟩ := (Tape.perform_commutes c).back sound run
  exact ⟨t', run', sound', lodges'⟩

instance : Tape.ItemView host.Hosts where
  pushItem item fits := hosts_answers (pushItem item fits)
  popItem item := hosts_answers (popItem item)
  startRepeat := (hosts_answers startRepeat).of_answer (g := fun _ => Answer.unit) fun _ _ _ => rfl
  resetRepeat := (hosts_answers resetRepeat).of_answer (g := fun _ => Answer.unit) fun _ _ _ => rfl
  endRepeat := (hosts_answers endRepeat).of_answer (g := fun _ => Answer.unit) fun _ _ _ => rfl

end Host

/-- A tape with its cursor off an open active redirect can be host, and when nothing is left on top
of it, it is as it was. -/
lemma Tape.exists_host {t : Tape} (sound : t.Sound)
    (off : ∀ level ∈ t.stack.levels.head?, level.backPop = none ∨ level.freePush < t.location) :
    ∃ host : Host, host.Hosts none [] t ∧ ∀ u : Tape, host.Hosts none [] u → t.Alike u := by
  obtain ⟨times, segments, carries, recent, back⟩ :=
    FlatStack.exists_determined sound.levels.back off
  have early x (mem : x ∈ segments) : x.serial ≤ (segments.map ByteSegment.serial).sum :=
    List.le_sum_of_mem (List.mem_map_of_mem mem)
  let host : Host :=
    { tape := t.flat
      times
      base := ⟨segments, t.flat.valid, t.flat.bits⟩
      since := (segments.map ByteSegment.serial).sum + 2
      tidy := ⟨sound.levels.roomy.valid, sound.levels.roomy.bits⟩
      sound := sound.levels
      recent
      late := by lia
      early := fun x mem => Nat.lt_of_le_of_lt (early x mem) (Nat.lt_add_of_pos_right (by decide)) }
  have start : t.flat.Carries times (.ofEntries t.flat.capacity host.base []) := ⟨carries, rfl, rfl⟩
  have rests : host.Rests [] t.flat :=
    ⟨⟨sound.levels, host.tidy, nofun, nofun, start⟩, nofun, .refl _⟩
  refine ⟨host, ⟨sound, .outside rests⟩, ?_⟩
  rintro u ⟨sound', lodges⟩
  generalize listed : ([] : List Item) = items at lodges
  obtain ⟨rests⟩ := lodges
  obtain rfl := List.map_eq_nil_iff.1 listed.symm
  have last := rests.bears.carries
  exact alike_of_flat sound sound' (back rests.guarded.stack last.stack) last.valid last.bits
    rests.guarded.marks

end AdjointTape

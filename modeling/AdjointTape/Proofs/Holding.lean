import AdjointTape.Proofs.Answers
import AdjointTape.Proofs.Bracketed

/-!
# Tapes that hold items

What a program on a tape has to know of the ledger while no more than one level is open: which
items are on the tape, and which ones a restart is to bring back.  Serial numbers are left out.  A
push adds an item and the pop that asks for the last one answers it, in whatever buffer or block it
is.  What is said of items of every kind needs no more than such a view of the tape.  Here what was
on the tape before is the base; when nothing is left on top of it and no level is open, the tape is
as it was.
-/

open AdjointTape.Action

namespace AdjointTape

/-- What a level is about: the items that a restart brings back, and what lies below them and is not
popped as long as the level is open. -/
structure Scope where
  saved : List Item
  below : List Item

/-- The entries that the open scope rests on, and the checkpoint of its level. -/
inductive Scope.RestsOn : Option Scope → List Entry → List Checkpoint → Prop where
  | outside : RestsOn none [] []
  | inside (copied lower : List Entry) (since : Nat) :
    RestsOn (some ⟨copied.map Entry.item, lower.map Entry.item⟩) lower
      [⟨copied ++ lower, since⟩]

/-- No level encloses another one. -/
lemma Scope.RestsOn.single {scope : Option Scope} {lower : List Entry}
    {checkpoints : List Checkpoint} (rests : Scope.RestsOn scope lower checkpoints) :
    checkpoints.tail = [] := by
  cases rests <;> rfl

/-- A view of tapes by the items that are on them: a push adds an item, the pop that asks for the
last one answers it, and a level brings back what it saved, unless memory runs out. -/
class Tape.ItemView (view : Option Scope → List Item → Tape → Prop) : Prop where
  pushItem {scope : Option Scope} {items : List Item} (item : Item) (fits : item.Fits) :
    Answers (view scope items) item.pushCall.perform .unit (view scope (item :: items))
  popItem {scope : Option Scope} {items : List Item} (item : Item) :
    Answers (view scope (item :: items)) item.popCall.perform item.answer (view scope items)
  startRepeat {saved below : List Item} :
    Answers (view none (saved ++ below)) Tape.startRepeat () (view (some ⟨saved, below⟩) saved)
  resetRepeat {saved below items : List Item} :
    Answers (view (some ⟨saved, below⟩) items) Tape.resetRepeat ()
      (view (some ⟨saved, below⟩) saved)
  endRepeat {saved below : List Item} :
    Answers (view (some ⟨saved, below⟩) []) Tape.endRepeat () (view none below)

/-- A tape that holds items on top of a base and of what lies below the open scope. -/
def Tape.Holds (base : Stage) (scope : Option Scope) (items : List Item) (t : Tape) : Prop :=
  ∃ upper lower checkpoints pushes, upper.map Entry.item = items ∧
    Scope.RestsOn scope lower checkpoints ∧
    t.Matches base ⟨upper ++ lower, checkpoints, pushes⟩

namespace Tape.Holds

variable {base : Stage} {scope : Option Scope} {items saved below : List Item}

/-- No pop under a single level is ever too early. -/
lemma move {t : Tape} {s s' : Ledger} {c : Call} {a : Answer} (same : t.Matches base s)
    (single : s.checkpoints.tail = []) (move : Ledger.Move s c a s')
    (room : ranOut (outcome (c.perform t)) = false) :
    ∃ t', c.perform t = .ok a t' ∧ t'.Matches base s' := by
  refine same.move move (fun _ entry _ => due_of_recent fun since mem => ?_) room
  rw [← List.map_tail, single] at mem
  cases mem

/-- A push adds its item. -/
lemma pushItem (item : Item) (fits : item.Fits) :
    Answers (Holds base scope items) item.pushCall.perform .unit
      (Holds base scope (item :: items)) := by
  rintro t ⟨upper, lower, checkpoints, pushes, rfl, rests, same⟩ room
  obtain ⟨t', run, same'⟩ := move same rests.single (.push item fits) room
  exact ⟨t', run, ⟨item, pushes⟩ :: upper, lower, checkpoints, pushes + 1, rfl, rests, same'⟩

/-- The pop that asks for the last item answers it. -/
lemma popItem (item : Item) :
    Answers (Holds base scope (item :: items)) item.popCall.perform item.answer
      (Holds base scope items) := by
  rintro t ⟨upper, lower, checkpoints, pushes, listed, rests, same⟩ room
  obtain ⟨entry, upper, rfl, rfl, rfl⟩ := List.map_eq_cons_iff.1 listed
  obtain ⟨t', run, same'⟩ := move same rests.single .pop room
  exact ⟨t', run, upper, lower, checkpoints, pushes, rfl, rests, same'⟩

/-! ## Levels -/

/-- A level that is opened saves the items at hand. -/
lemma startRepeat :
    Answers (Holds base none (saved ++ below)) Tape.startRepeat ()
      (Holds base (some ⟨saved, below⟩) saved) := by
  refine Answers.of_answer (g := fun _ => Answer.unit) ?_ fun _ _ _ => rfl
  rintro t ⟨entries, lower, checkpoints, pushes, listed, rests, same⟩ room
  obtain ⟨copied, lower, rfl, rfl, rfl⟩ := List.map_eq_append_iff.1 listed
  cases rests
  rw [List.append_nil] at same
  obtain ⟨t', run, same'⟩ := move (c := .startRepeat) same rfl .startRepeat room
  exact ⟨t', run, copied, lower, _, pushes, rfl, .inside copied lower pushes, same'⟩

/-- A restart brings back the items that were saved. -/
lemma resetRepeat :
    Answers (Holds base (some ⟨saved, below⟩) items) Tape.resetRepeat ()
      (Holds base (some ⟨saved, below⟩) saved) := by
  refine Answers.of_answer (g := fun _ => Answer.unit) ?_ fun _ _ _ => rfl
  rintro t ⟨upper, lower, checkpoints, pushes, -, rests, same⟩ room
  obtain _ | ⟨copied, lower, since⟩ := rests
  obtain ⟨t', run, same'⟩ := move (c := .resetRepeat) same rfl .resetRepeat room
  exact ⟨t', run, copied, lower, _, pushes, rfl, .inside copied lower pushes, same'⟩

/-- A level is closed when all is popped down to what its scope rests on. -/
lemma endRepeat :
    Answers (Holds base (some ⟨saved, below⟩) []) Tape.endRepeat () (Holds base none below) := by
  refine Answers.of_answer (g := fun _ => Answer.unit) ?_ fun _ _ _ => rfl
  rintro t ⟨upper, lower, checkpoints, pushes, listed, rests, same⟩ room
  obtain rfl := List.map_eq_nil_iff.1 listed
  obtain _ | ⟨copied, lower, since⟩ := rests
  have copies := same.flat.above.orderly.copies _ List.mem_cons_self
  have old entry (mem : entry ∈ lower) : entry.serial < since :=
    (copies entry (List.mem_append_right _ mem)).2
  obtain ⟨t', run, same'⟩ := move (c := .endRepeat) same rfl (.endRepeat old) room
  refine ⟨t', run, lower, [], [], pushes, rfl, .outside, ?_⟩
  rw [List.append_nil]
  exact same'

instance : ItemView (Holds base) where
  pushItem := pushItem
  popItem := popItem
  startRepeat := startRepeat
  resetRepeat := resetRepeat
  endRepeat := endRepeat

end Tape.Holds

/-! ## Items of every kind -/

namespace Tape.ItemView

variable {view : Option Scope → List Item → Tape → Prop} [ItemView view] {scope : Option Scope}
  {items : List Item}

/-- The last item comes back, a scalar. -/
lemma pop {k : ScalarKind} {value : k.Carrier} :
    Answers (view scope (.scalar k value :: items)) (Tape.pop k) value
      (view scope items) :=
  (popItem (.scalar k value)).of_answer fun _ _ same => by cases same; rfl

/-- The last item comes back, a bit. -/
lemma popBit {bit : Bool} :
    Answers (view scope (.bit bit :: items)) Tape.popBit bit (view scope items) :=
  (popItem (.bit bit)).of_answer fun _ _ same => by cases same; rfl

/-- The last item comes back, a control tag. -/
lemma popControl {value width : Nat} :
    Answers (view scope (.control value width :: items)) (Tape.popControl width) value
      (view scope items) :=
  (popItem (.control value width)).of_answer fun _ _ same => by cases same; rfl

/-- The last item comes back, an array. -/
lemma popArray {k : ScalarKind} {values : List k.Carrier} :
    Answers (view scope (.array k values :: items)) (Tape.popArray k values.length) values
      (view scope items) :=
  (popItem (.array k values)).of_answer fun _ _ same => by cases same; rfl

end Tape.ItemView

/-! ## The tape as a base -/

namespace Tape

/-- What is on a tape under no level. -/
def base (t : Tape) : Stage where
  segments := [⟨0, t.flat.stack.bytes.read 0 t.flat.stack.cursor⟩]
  valid := t.flat.valid
  bits := t.flat.bits

variable {t u : Tape}

/-- A sound tape of depth zero has no levels. -/
lemma Sound.levels_eq (sound : t.Sound) (closed : t.depth = 0) : t.flat.stack.levels = [] :=
  List.length_eq_zero_iff.1 (sound.depth_eq.trans closed)

/-- A tape under no level holds no items on top of itself. -/
lemma holds_base (sound : t.Sound) (closed : t.depth = 0) : t.Holds t.base none [] := by
  have levels := sound.levels_eq closed
  have marks : t.flat.marks = [] := List.length_eq_zero_iff.1 closed
  have later x (mem : x ∈ t.base.segments) : Ledger.Later x.serial ⟨[], [], 1⟩ := by
    obtain rfl := List.mem_singleton.1 mem
    exact ⟨Nat.one_pos, nofun⟩
  refine ⟨[], [], [], 1, rfl, .outside, sound, sound.levels,
    ⟨sound.levels.roomy.valid, sound.levels.roomy.bits⟩, ⟨⟨nofun, nofun, nofun, .nil⟩, later⟩,
    ⟨(FlatStack.determined_ground levels).carries, rfl, rfl⟩, ?_⟩
  rw [levels, marks]
  exact .outermost

/-- A tape that holds nothing on top of another one is like it. -/
lemma Holds.alike (sound : t.Sound) (closed : t.depth = 0) (holds : u.Holds t.base none []) :
    t.Alike u := by
  obtain ⟨upper, lower, checkpoints, pushes, listed, rests, sound', same⟩ := holds
  obtain rfl := List.map_eq_nil_iff.1 listed
  cases rests
  have levels := sound.levels_eq closed
  have levels' : u.flat.stack.levels = [] := same.kept.timed rfl
  have closed' : u.depth = 0 := by rw [← sound'.depth_eq, levels', List.length_nil]
  have guarded : FlatStack.Guarded t.flat.stack u.flat.stack := by
    refine ⟨?_, fun l below => ?_⟩
    · rw [levels, levels']
      exact .outermost
    · rw [levels] at below
      cases below
  refine alike_of_flat sound sound' ?_ same.carries.valid same.carries.bits ?_
  · exact (FlatStack.determined_ground levels).back guarded same.carries.stack
  · exact (List.length_eq_zero_iff.1 closed').trans (List.length_eq_zero_iff.1 closed).symm

end Tape

end AdjointTape

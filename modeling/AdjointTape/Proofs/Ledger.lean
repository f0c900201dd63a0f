import AdjointTape.Tape.Call
import Mathlib.Algebra.Ring.Nat

/-!
# The ledger

The machine that a checkpointed tape is meant to be: a stack of items and, for every open level, a
copy of the stack as it was when the level was opened.  A push adds an item, a pop removes the last
one and answers it, a restart brings the copy back and closing a level forgets it.  Every item
remembers how many pushes came before it, and every level how many came before it was opened or last
restarted; this is what the rules for pops and for closing a level are about.
-/

namespace AdjointTape

/-- What a push puts on a tape. -/
inductive Item where
  | scalar (k : ScalarKind) (value : k.Carrier)
  | bit (value : Bool)
  | control (value width : Nat)
  | array (k : ScalarKind) (values : List k.Carrier)
  | bytes (data : List UInt8)

namespace Item

/-- A control tag has one to eight bits and a value that fits into them. -/
def Fits : Item → Prop
  | control value width => 1 ≤ width ∧ width ≤ 8 ∧ value < 2 ^ width
  | _ => True

instance (item : Item) : Decidable item.Fits :=
  match item with
  | control value width => inferInstanceAs (Decidable (1 ≤ width ∧ width ≤ 8 ∧ value < 2 ^ width))
  | scalar _ _ | bit _ | array _ _ | bytes _ => isTrue trivial

/-- The call that pushes an item. -/
def pushCall : Item → Call
  | scalar k value => .push k value
  | bit value => .pushBit value
  | control value width => .pushControl value width
  | array k values => .pushArray k values
  | bytes data => .pushBytes data true

/-- The call that asks for an item by its kind and its length. -/
def popCall : Item → Call
  | scalar k _ => .pop k
  | bit _ => .popBit
  | control _ width => .popControl width
  | array k values => .popArray k values.length
  | bytes data => .popBytes data.length true

/-- What the call that asks for an item is to answer. -/
def answer : Item → Answer
  | scalar k value => .scalar k value
  | bit value => .bit value
  | control value _ => .control value
  | array k values => .array k values
  | bytes data => .bytes data

end Item

/-- An item and the number of pushes that came before its own. -/
structure Entry where
  item : Item
  serial : Nat

/-- What is kept for an open level. -/
structure Checkpoint where
  /-- The stack as it was when the level was opened, the last item first. -/
  copy : List Entry
  /-- The number of pushes that came before the level was opened or last restarted. -/
  since : Nat

/-- A stack of items and its checkpoints. -/
structure Ledger where
  /-- The items that are on the stack, the last one first. -/
  entries : List Entry
  /-- The open levels, the innermost one first. -/
  checkpoints : List Checkpoint
  /-- The number of pushes so far. -/
  pushes : Nat

namespace Ledger

/-- The empty ledger. -/
def empty : Ledger where
  entries := []
  checkpoints := []
  pushes := 0

/-- The calls that are allowed, what they answer, and what they leave. A pop asks for the last item,
and while two or more levels are open this is one that was pushed since the level around the
innermost one was opened or last restarted. A level is closed only when no item is left that was
pushed since it was opened or last restarted. -/
inductive Step : Ledger → Call → Answer → Ledger → Prop where
  | push {entries : List Entry} {checkpoints : List Checkpoint} {pushes : Nat} (item : Item)
    (fits : item.Fits) :
    Step ⟨entries, checkpoints, pushes⟩ item.pushCall .unit
      ⟨⟨item, pushes⟩ :: entries, checkpoints, pushes + 1⟩
  | pop {entry : Entry} {entries : List Entry} {checkpoints : List Checkpoint} {pushes : Nat}
    (recent : ∀ inner outer others, checkpoints = inner :: outer :: others →
      outer.since ≤ entry.serial) :
    Step ⟨entry :: entries, checkpoints, pushes⟩ entry.item.popCall entry.item.answer
      ⟨entries, checkpoints, pushes⟩
  | startRepeat {entries : List Entry} {checkpoints : List Checkpoint} {pushes : Nat} :
    Step ⟨entries, checkpoints, pushes⟩ .startRepeat .unit
      ⟨entries, ⟨entries, pushes⟩ :: checkpoints, pushes⟩
  | resetRepeat {entries copy : List Entry} {since : Nat} {outer : List Checkpoint} {pushes : Nat} :
    Step ⟨entries, ⟨copy, since⟩ :: outer, pushes⟩ .resetRepeat .unit
      ⟨copy, ⟨copy, pushes⟩ :: outer, pushes⟩
  | endRepeat {entries : List Entry} {inner : Checkpoint} {outer : List Checkpoint} {pushes : Nat}
    (old : ∀ entry ∈ entries, entry.serial < inner.since) :
    Step ⟨entries, inner :: outer, pushes⟩ .endRepeat .unit ⟨entries, outer, pushes⟩

/-- The calls that keep to the order of the stack, what they answer, and what they leave: the steps
without the rule on the age of a popped item. -/
inductive Move : Ledger → Call → Answer → Ledger → Prop where
  | push {entries : List Entry} {checkpoints : List Checkpoint} {pushes : Nat} (item : Item)
    (fits : item.Fits) :
    Move ⟨entries, checkpoints, pushes⟩ item.pushCall .unit
      ⟨⟨item, pushes⟩ :: entries, checkpoints, pushes + 1⟩
  | pop {entry : Entry} {entries : List Entry} {checkpoints : List Checkpoint} {pushes : Nat} :
    Move ⟨entry :: entries, checkpoints, pushes⟩ entry.item.popCall entry.item.answer
      ⟨entries, checkpoints, pushes⟩
  | startRepeat {entries : List Entry} {checkpoints : List Checkpoint} {pushes : Nat} :
    Move ⟨entries, checkpoints, pushes⟩ .startRepeat .unit
      ⟨entries, ⟨entries, pushes⟩ :: checkpoints, pushes⟩
  | resetRepeat {entries copy : List Entry} {since : Nat} {outer : List Checkpoint} {pushes : Nat} :
    Move ⟨entries, ⟨copy, since⟩ :: outer, pushes⟩ .resetRepeat .unit
      ⟨copy, ⟨copy, pushes⟩ :: outer, pushes⟩
  | endRepeat {entries : List Entry} {inner : Checkpoint} {outer : List Checkpoint} {pushes : Nat}
    (old : ∀ entry ∈ entries, entry.serial < inner.since) :
    Move ⟨entries, inner :: outer, pushes⟩ .endRepeat .unit ⟨entries, outer, pushes⟩

/-- An allowed call keeps to the order of the stack. -/
lemma Step.move {s s' : Ledger} {c : Call} {a : Answer} (step : Step s c a s') : Move s c a s' := by
  cases step with
  | push item fits => exact .push item fits
  | pop recent => exact .pop
  | startRepeat => exact .startRepeat
  | resetRepeat => exact .resetRepeat
  | endRepeat old => exact .endRepeat old

/-- Runs of allowed calls, and their answers. -/
inductive Run : Ledger → List Call → List Answer → Ledger → Prop where
  | nil {s : Ledger} : Run s [] [] s
  | cons {s s' s'' : Ledger} {c : Call} {a : Answer} {calls : List Call} {answers : List Answer}
    (step : Step s c a s') (run : Run s' calls answers s'') :
    Run s (c :: calls) (a :: answers) s''

/-! ## Orderly ledgers -/

/-- Entries of items that fit, made before a time. -/
def Before (time : Nat) (entries : List Entry) : Prop :=
  ∀ entry ∈ entries, entry.item.Fits ∧ entry.serial < time

/-- Entries from before a time are from before any later one. -/
lemma Before.le {time time' : Nat} {entries : List Entry} (before : Before time entries)
    (h : time ≤ time') : Before time' entries :=
  fun entry mem => ⟨(before entry mem).1, Nat.lt_of_lt_of_le (before entry mem).2 h⟩

/-- A ledger whose levels were opened or restarted after the enclosing ones, each after its copy was
made, and all before now. -/
structure Orderly (s : Ledger) : Prop where
  entries : Before s.pushes s.entries
  copies : ∀ checkpoint ∈ s.checkpoints, Before checkpoint.since checkpoint.copy
  sinces : ∀ checkpoint ∈ s.checkpoints, checkpoint.since ≤ s.pushes
  sorted : (s.checkpoints.map Checkpoint.since).Pairwise (· ≥ ·)

/-- The rule for pops speaks of one level; those further out were opened or restarted before it. -/
lemma Orderly.recent {entries : List Entry} {checkpoints : List Checkpoint} {pushes serial : Nat}
    (orderly : Orderly ⟨entries, checkpoints, pushes⟩)
    (recent : ∀ inner outer others, checkpoints = inner :: outer :: others → outer.since ≤ serial) :
    ∀ since ∈ (checkpoints.map Checkpoint.since).tail, since ≤ serial := by
  intro since mem
  obtain _ | ⟨inner, _ | ⟨outer, others⟩⟩ := checkpoints
  · cases mem
  · cases mem
  · have late := recent inner outer others rfl
    obtain rfl | mem := List.mem_cons.1 mem
    · exact late
    · obtain ⟨-, sorted⟩ := List.pairwise_cons.1 orderly.sorted
      exact Nat.le_trans ((List.pairwise_cons.1 sorted).1 since mem) late

/-- The empty ledger is orderly. -/
lemma orderly_empty : empty.Orderly := ⟨nofun, nofun, nofun, .nil⟩

/-- Calls that keep to the order of the stack leave an orderly ledger orderly. -/
lemma Move.orderly {s s' : Ledger} {c : Call} {a : Answer} (move : Move s c a s')
    (orderly : s.Orderly) : s'.Orderly := by
  obtain ⟨made, copies, sinces, sorted⟩ := orderly
  cases move with
  | push item fits =>
    refine ⟨List.forall_mem_cons.2 ⟨⟨fits, Nat.lt_succ_self _⟩, ?_⟩, copies, ?_, sorted⟩
    · exact made.le (Nat.le_succ _)
    · exact fun checkpoint mem => Nat.le_succ_of_le (sinces checkpoint mem)
  | pop => exact ⟨(List.forall_mem_cons.1 made).2, copies, sinces, sorted⟩
  | startRepeat =>
    refine ⟨made, List.forall_mem_cons.2 ⟨made, copies⟩,
      List.forall_mem_cons.2 ⟨Nat.le_refl _, sinces⟩, ?_⟩
    exact List.pairwise_cons.2 ⟨List.forall_mem_map.2 sinces, sorted⟩
  | resetRepeat =>
    obtain ⟨copied, copies⟩ := List.forall_mem_cons.1 copies
    obtain ⟨late, sinces⟩ := List.forall_mem_cons.1 sinces
    refine ⟨copied.le late, List.forall_mem_cons.2 ⟨copied.le late, copies⟩,
      List.forall_mem_cons.2 ⟨Nat.le_refl _, sinces⟩, ?_⟩
    exact List.pairwise_cons.2 ⟨List.forall_mem_map.2 sinces, (List.pairwise_cons.1 sorted).2⟩
  | endRepeat old =>
    exact ⟨made, (List.forall_mem_cons.1 copies).2, (List.forall_mem_cons.1 sinces).2,
      (List.pairwise_cons.1 sorted).2⟩

/-- A serial number from before all times that a ledger knows. -/
structure Later (serial : Nat) (s : Ledger) : Prop where
  pushes : serial < s.pushes
  sinces : ∀ checkpoint ∈ s.checkpoints, serial < checkpoint.since

/-- A number from before all times stays one. -/
lemma Move.later {s s' : Ledger} {c : Call} {a : Answer} {serial : Nat} (move : Move s c a s')
    (later : s.Later serial) : s'.Later serial := by
  obtain ⟨pushes, sinces⟩ := later
  cases move with
  | push item fits => exact ⟨Nat.lt_succ_of_lt pushes, sinces⟩
  | pop => exact ⟨pushes, sinces⟩
  | startRepeat => exact ⟨pushes, List.forall_mem_cons.2 ⟨pushes, sinces⟩⟩
  | resetRepeat =>
    exact ⟨pushes, List.forall_mem_cons.2 ⟨pushes, (List.forall_mem_cons.1 sinces).2⟩⟩
  | endRepeat old => exact ⟨pushes, (List.forall_mem_cons.1 sinces).2⟩

end Ledger

end AdjointTape

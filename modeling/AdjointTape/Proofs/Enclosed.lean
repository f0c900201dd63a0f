import AdjointTape.Proofs.Failing
import Mathlib.Data.List.Infix

/-!
# A level around calls that stay above it

A level that is opened with empty buffers, and not inside what the enclosing level protects, saves
nothing and protects what lies below the cursor.  Transfers that stay above that place never reach
it: none of them is redirected or comes back from a redirect, neither in the new level nor, without
it, in the enclosing one.  So the level might as well not be there, and closing it takes it away
without a trace.
-/

open AdjointTape.Action

namespace AdjointTape

/-- Whether a call pushes or pops. -/
def Call.transfers : Call → Bool
  | .startRepeat => false
  | .resetRepeat => false
  | .endRepeat => false
  | .setLocation _ => false
  | _ => true

namespace FlatStack

/-- The stack with one more level open, which protects what lies below a location and has nothing
saved. -/
def enclosed (l : Location) (s : FlatStack) : FlatStack :=
  { s with levels := ⟨l, l, none⟩ :: s.levels }

/-- Whether no jump is made at a location or above: what the active level protects ends there, and
an open redirect ends below. -/
def Clear (l : Location) (levels : List RepeatLevel) : Prop :=
  ∀ level ∈ levels.head?, level.freePush ≤ l ∧
    ∀ back, level.backPop = some back → back < level.freePush ∧ level.freePush < l

/-- A stack with its cursor at a location or above, where no jump is made. -/
structure Above (l : Location) (s : FlatStack) : Prop where
  clear : Clear l s.levels
  cursor : l ≤ s.cursor

variable {l : Location} {s : FlatStack}

/-- What the active level protects ends at a clear location or below it. -/
lemma Clear.floor_le {levels : List RepeatLevel} (clear : Clear l levels) : floor levels ≤ l := by
  cases levels with
  | nil => exact Nat.zero_le l
  | cons level outer => exact (clear level rfl).1

/-- No jump back is made where it would lead too far down. -/
lemma Clear.rejoined_eq (clear : Clear l s.levels) (cursor : l ≤ s.rejoined.cursor) :
    s.rejoined = s := by
  obtain still | ⟨level, outer, back, levels, backPop, on, jump⟩ := s.rejoined_cases
  · exact still
  · rw [jump] at cursor
    obtain ⟨lower, low⟩ := (clear level (levels ▸ rfl)).2 back backPop
    exact absurd cursor (Nat.not_le.2 (Nat.lt_trans lower low))

/-- Above a clear location no push jumps. -/
lemma Above.start (above : Above l s) (isProtected : Bool) : s.start isProtected = s :=
  start_of_le (Nat.le_trans above.clear.floor_le above.cursor) isProtected

/-- A stack above a location is above it under one more level, too. -/
lemma Above.enclosed (above : Above l s) : Above l (s.enclosed l) := by
  refine ⟨fun level mem => ?_, above.cursor⟩
  obtain rfl := Option.some.inj mem
  exact ⟨Nat.le_refl l, nofun⟩

/-! ## Transfers under one more level -/

/-- Above the location a push does the same under one more level. -/
lemma Above.push (above : Above l s) (data : List UInt8) (isProtected : Bool) :
    push data isProtected (s.enclosed l) =
        through (FlatStack.enclosed l) (push data isProtected s) ∧
      Above l (after (push data isProtected s)) := by
  simp only [FlatStack.push, pushed, above.start, above.enclosed.start]
  have room (l' : Location) : (s.enclosed l).hasRoom l' = s.hasRoom l' := rfl
  rw [room, show (s.enclosed l).cursor = s.cursor from rfl]
  split
  case isTrue =>
    have higher : l ≤ s.cursor + data.length := Nat.le_trans above.cursor (Nat.le_add_right _ _)
    cases isProtected <;> exact ⟨rfl, above.clear, higher⟩
  case isFalse => exact ⟨rfl, above⟩

/-- A pop that stays above the location does the same under one more level. -/
lemma Above.pop (above : Above l s) (count : Nat) (isProtected : Bool)
    (stays : l ≤ (after (pop count isProtected s)).cursor) :
    pop count isProtected (s.enclosed l) =
        through (FlatStack.enclosed l) (pop count isProtected s) ∧
      Above l (after (pop count isProtected s)) := by
  rw [FlatStack.pop] at stays
  rw [FlatStack.pop, FlatStack.pop, show (s.enclosed l).cursor = s.cursor from rfl]
  split
  case isTrue => exact ⟨rfl, above⟩
  case isFalse few =>
    rw [if_neg few] at stays
    cases isProtected with
    | false => exact ⟨rfl, above.clear, stays⟩
    | true =>
      have still : (s.seek (s.cursor - count)).rejoined = s.seek (s.cursor - count) :=
        Clear.rejoined_eq (s := s.seek (s.cursor - count)) above.clear stays
      have same : s.popped count true = s.seek (s.cursor - count) := still
      rw [same]
      exact ⟨rfl, above.clear, by rwa [after, same] at stays⟩

/-- A pop never leads up, also where it makes a jump back. -/
lemma Clear.pop (clear : Clear l s.levels) (count : Nat) (isProtected : Bool) :
    Clear l (after (pop count isProtected s)).levels ∧
      (after (pop count isProtected s)).cursor ≤ s.cursor := by
  rw [FlatStack.pop]
  split
  case isTrue => exact ⟨clear, Nat.le_refl _⟩
  case isFalse =>
    cases isProtected with
    | false => exact ⟨clear, Nat.sub_le _ _⟩
    | true =>
      change Clear l (s.seek (s.cursor - count)).rejoined.levels ∧
        (s.seek (s.cursor - count)).rejoined.cursor ≤ s.cursor
      obtain still | ⟨level, outer, back, levels, backPop, on, jump⟩ :=
        (s.seek (s.cursor - count)).rejoined_cases
      · rw [still]
        exact ⟨clear, Nat.sub_le _ _⟩
      · rw [jump]
        have clear : Clear l (s.seek (s.cursor - count)).levels := clear
        obtain ⟨low, ends⟩ := clear level (levels ▸ rfl)
        have on : s.cursor - count = level.freePush := on
        refine ⟨fun x mem => ?_, ?_⟩
        · obtain rfl := Option.some.inj mem
          exact ⟨low, fun _ none => by cases none⟩
        · have down := (ends back backPop).1
          exact Nat.le_of_lt (Nat.lt_of_lt_of_le (on ▸ down) (Nat.sub_le _ _))

end FlatStack

namespace FlatTape

open FlatStack (Clear Above)

variable {l : Location} {marks : Marks} {α β : Type}

/-- The tape with one more level open, which protects what lies below a location. -/
def enclosed (l : Location) (marks : Marks) (f : FlatTape) : FlatTape :=
  { f with stack := f.stack.enclosed l, marks := marks :: f.marks }

/-- A call that does the same under one more level, as long as it stays above that level. -/
def Undisturbed (l : Location) (marks : Marks) (call : Action FlatTape α) : Prop :=
  ∀ f : FlatTape, Above l f.stack → l ≤ (after (call f)).stack.cursor →
    call (f.enclosed l marks) = through (enclosed l marks) (call f) ∧
      Above l (after (call f)).stack

namespace Undisturbed

/-- Of two calls the first has to stay above the level where both together do. -/
lemma seq {x : Action FlatTape α} {g : α → Action FlatTape β} (hx : Undisturbed l marks x)
    (hg : ∀ a, Undisturbed l marks (g a))
    (stays : ∀ f a f', Above l f.stack → x f = .ok a f' →
      l ≤ (after (g a f')).stack.cursor → l ≤ f'.stack.cursor) :
    Undisturbed l marks (x >>= g) := by
  intro f above higher
  cases run : x f with
  | ok a f' =>
    rw [bind_ok run] at higher ⊢
    obtain ⟨same, above'⟩ := hx f above (run ▸ stays f a f' above run higher)
    rw [run] at same above'
    rw [bind_ok same]
    exact hg a f' above' higher
  | error e f' =>
    rw [bind_error run] at higher ⊢
    obtain ⟨same, above'⟩ := hx f above (run ▸ higher)
    rw [run] at same above'
    rw [bind_error same]
    exact ⟨rfl, above'⟩

/-- A second call may follow that neither changes the stack nor looks at it. -/
lemma staged {x : Action FlatTape α} {g : α → Action FlatTape β} (hx : Undisturbed l marks x)
    (levels : ∀ a f, g a (f.enclosed l marks) = through (enclosed l marks) (g a f))
    (keeps : ∀ a f, (after (g a f)).stack = f.stack) : Undisturbed l marks (x >>= g) := by
  refine hx.seq (fun a f above _ => ⟨levels a f, keeps a f ▸ above⟩) ?_
  exact fun _ a f' _ _ higher => keeps a f' ▸ higher

/-- An answer that is at hand is not disturbed. -/
lemma ret (a : α) : Undisturbed l marks (pure a) := fun _ above _ => ⟨rfl, above⟩

/-- A failure is not disturbed. -/
lemma fail (e : Failure) : Undisturbed (α := α) l marks (throw e) := fun _ above _ => ⟨rfl, above⟩

/-- The form of the answer does not matter. -/
lemma answer {x : Action FlatTape α} (hx : Undisturbed l marks x) (g : α → β) :
    Undisturbed l marks (x >>= fun a => pure (g a)) :=
  hx.staged (fun _ _ => rfl) fun _ _ => rfl

end Undisturbed

/-! ## Calls under one more level -/

/-- A call that does the same on the stack does so on the tape. -/
lemma onStack_enclosed {call : Action FlatStack α} {f : FlatTape}
    (same : call (f.stack.enclosed l) = through (FlatStack.enclosed l) (call f.stack)) :
    onStack call (f.enclosed l marks) = through (enclosed l marks) (onStack call f) := by
  rw [onStack, onStack, show (f.enclosed l marks).stack = f.stack.enclosed l from rfl, same]
  cases call f.stack <;> rfl

/-- A call on the stack leaves the stack that it leaves there. -/
lemma after_onStack (call : Action FlatStack α) (f : FlatTape) :
    (after (onStack call f)).stack = after (call f.stack) := by
  rw [onStack]
  cases call f.stack <;> rfl

/-- Pushing a byte string is not disturbed. -/
lemma undisturbed_onStack_push (data : List UInt8) (isProtected : Bool) :
    Undisturbed l marks (onStack (FlatStack.push data isProtected)) := by
  intro f above _
  obtain ⟨same, above'⟩ := above.push data isProtected
  exact ⟨onStack_enclosed same, after_onStack _ f ▸ above'⟩

/-- Popping a byte string is not disturbed. -/
lemma undisturbed_onStack_pop (count : Nat) (isProtected : Bool) :
    Undisturbed l marks (onStack (FlatStack.pop count isProtected)) := by
  intro f above higher
  rw [after_onStack] at higher ⊢
  obtain ⟨same, above'⟩ := above.pop count isProtected higher
  exact ⟨onStack_enclosed same, above'⟩

/-- Pushing a scalar is not disturbed. -/
lemma undisturbed_push (k : ScalarKind) (value : k.Carrier) :
    Undisturbed l marks (push k value) := by
  intro f above higher
  by_cases room : (f.valid k).length + 1 < f.capacity
  case pos =>
    rw [push_room room, push_room (f := f.enclosed l marks) room]
    exact ⟨rfl, above⟩
  case neg =>
    rw [push_spill room] at higher ⊢
    rw [push_spill (f := f.enclosed l marks) room]
    exact (undisturbed_onStack_push _ true).staged (fun _ _ => rfl) (fun _ _ => rfl) f above higher

/-- Popping a scalar is not disturbed. -/
lemma undisturbed_pop (k : ScalarKind) : Undisturbed l marks (pop k) := by
  intro f above higher
  cases held : f.valid k with
  | cons value rest =>
    rw [pop_held held, pop_held (f := f.enclosed l marks) held]
    exact ⟨rfl, above⟩
  | nil =>
    rw [pop_refill held] at higher ⊢
    rw [pop_refill (f := f.enclosed l marks) held]
    exact (undisturbed_onStack_pop _ true).staged (fun _ _ => rfl) (fun _ _ => rfl) f above higher

/-- Pushing a bit is not disturbed. -/
lemma undisturbed_pushBit (bit : Bool) : Undisturbed l marks (pushBit bit) := by
  intro f above higher
  by_cases full : BitBuffer.wordBits ≤ f.bits.index + 1
  case pos =>
    rw [pushBit_spill full] at higher ⊢
    rw [pushBit_spill (f := f.enclosed l marks) full]
    exact (undisturbed_onStack_push _ true).staged (fun _ _ => rfl) (fun _ _ => rfl) f above higher
  case neg =>
    rw [pushBit_room full, pushBit_room (f := f.enclosed l marks) full]
    exact ⟨rfl, above⟩

/-- Popping a bit is not disturbed. -/
lemma undisturbed_popBit : Undisturbed l marks popBit := by
  intro f above higher
  cases held : f.bits.index with
  | zero =>
    rw [popBit_refill held] at higher ⊢
    rw [popBit_refill (f := f.enclosed l marks) held]
    exact (undisturbed_onStack_pop 4 true).staged (fun _ _ => rfl) (fun _ _ => rfl) f above higher
  | succ index =>
    rw [popBit_held held, popBit_held (f := f.enclosed l marks) held]
    exact ⟨rfl, above⟩

/-! ## Control tags -/

/-- A step that stays above a location. -/
def Climbs (l : Location) (f f' : FlatTape) : Prop := Above l f.stack → Above l f'.stack

/-- A step that does not lead up. -/
def Descends (l : Location) (f f' : FlatTape) : Prop :=
  Clear l f.stack.levels → Clear l f'.stack.levels ∧ f'.stack.cursor ≤ f.stack.cursor

/-- Steps that do not lead up can be put together. -/
lemma Descends.trans {f g h : FlatTape} (first : Descends l f g) (next : Descends l g h) :
    Descends l f h := by
  intro clear
  obtain ⟨clear', down⟩ := first clear
  obtain ⟨clear'', down'⟩ := next clear'
  exact ⟨clear'', Nat.le_trans down' down⟩

/-- Pushing a bit stays above a location. -/
lemma climbs_pushBit (bit : Bool) : Steps (Climbs l) (pushBit bit) := by
  intro f
  by_cases full : BitBuffer.wordBits ≤ f.bits.index + 1
  case pos =>
    rw [pushBit_spill full]
    refine Steps.seq (R := Climbs l) (fun _ _ _ first next => next ∘ first) ?_ ?_ f
    · intro f above
      rw [after_onStack]
      exact (above.push _ true).2
    · exact fun _ _ => id
  case neg =>
    rw [pushBit_room full]
    exact id

/-- Popping a bit does not lead up. -/
lemma descends_popBit : Steps (Descends l) popBit := by
  intro f
  cases held : f.bits.index with
  | zero =>
    rw [popBit_refill held]
    refine Steps.seq (R := Descends l) (fun _ _ _ => Descends.trans) ?_ ?_ f
    · intro f clear
      rw [after_onStack]
      exact clear.pop 4 true
    · exact fun _ _ clear => ⟨clear, Nat.le_refl _⟩
  | succ index =>
    rw [popBit_held held]
    exact fun clear => ⟨clear, Nat.le_refl _⟩

/-- Popping bits does not lead up. -/
lemma descends_popBits (count value : Nat) : Steps (Descends l) (popBits count value) := by
  induction count generalizing value with
  | zero => exact fun _ clear => ⟨clear, Nat.le_refl _⟩
  | succ count ih =>
    exact Steps.seq (R := Descends l) (fun _ _ _ => Descends.trans) descends_popBit fun _ => ih _

/-- Every bit is pushed above the level. -/
lemma undisturbed_pushBits (bits : List Bool) : Undisturbed l marks (pushBits bits) := by
  induction bits with
  | nil => exact .ret ()
  | cons bit rest ih =>
    refine (undisturbed_pushBit bit).seq (fun _ => ih) fun f _ f' above run _ => ?_
    have climbs := climbs_pushBit bit f above
    rw [run] at climbs
    exact climbs.cursor

/-- Every bit is popped above the level when the last one is. -/
lemma undisturbed_popBits (count value : Nat) : Undisturbed l marks (popBits count value) := by
  induction count generalizing value with
  | zero => exact .ret value
  | succ count ih =>
    refine undisturbed_popBit.seq (fun _ => ih _) fun f _ f' above run higher => ?_
    have first := descends_popBit f above.clear
    rw [run] at first
    exact Nat.le_trans higher (descends_popBits count _ f' first.1).2

/-- Every transfer does the same under one more level, as long as it stays above. -/
lemma undisturbed_performFlat {c : Call} (transfers : c.transfers = true) :
    Undisturbed l marks c.performFlat := by
  cases c with
  | push k value => exact (undisturbed_push k value).answer _
  | pop k => exact (undisturbed_pop k).answer _
  | pushBit bit => exact (undisturbed_pushBit bit).answer _
  | popBit => exact undisturbed_popBit.answer _
  | pushControl value width =>
    simp only [Call.performFlat]
    split
    case isTrue => exact (undisturbed_pushBits _).answer _
    case isFalse => exact .fail _
  | popControl width =>
    simp only [Call.performFlat]
    split
    case isTrue => exact (undisturbed_popBits width 0).answer _
    case isFalse => exact .fail _
  | pushArray k values => exact (undisturbed_onStack_push _ true).answer _
  | popArray k count => exact (undisturbed_onStack_pop _ true).answer _
  | pushBytes data isProtected => exact (undisturbed_onStack_push data isProtected).answer _
  | popBytes count isProtected => exact (undisturbed_onStack_pop count isProtected).answer _
  | startRepeat => cases transfers
  | resetRepeat => cases transfers
  | endRepeat => cases transfers
  | setLocation l => cases transfers

/-- Transfers answer the same under one more level, as long as all of them stay above. -/
lemma run_enclosed (marks : Marks) {f : FlatTape} {q : List Call}
    (transfers : ∀ c ∈ q, c.transfers = true) (above : Above l f.stack)
    (stays : ∀ p, p <+: q → l ≤ (runAll Call.performFlat p f).2.stack.cursor) :
    runAll Call.performFlat q (f.enclosed l marks) =
        ((runAll Call.performFlat q f).1, (runAll Call.performFlat q f).2.enclosed l marks) ∧
      Above l (runAll Call.performFlat q f).2.stack := by
  induction q generalizing f with
  | nil => exact ⟨rfl, above⟩
  | cons c rest ih =>
    have first : l ≤ (after (c.performFlat f)).stack.cursor :=
      stays [c] (List.prefix_append [c] rest)
    have undisturbed : Undisturbed l marks c.performFlat :=
      undisturbed_performFlat (transfers c List.mem_cons_self)
    obtain ⟨same, above'⟩ := undisturbed f above first
    obtain ⟨others, last⟩ := ih (fun d mem => transfers d (List.mem_cons_of_mem c mem)) above'
      fun p below => stays (c :: p) (List.cons_prefix_cons.2 ⟨rfl, below⟩)
    rw [runAll_cons, same, outcome_through, after_through, others]
    exact ⟨rfl, last⟩

/-! ## The level around them -/

/-- Empty buffers are saved without a byte. -/
lemma pushEach_nil {chunks : List (List UInt8)} (none : ∀ chunk ∈ chunks, chunk = [])
    {s : FlatStack} (room : ByteStack.blocksBelow s.blockSize s.cursor ≤ s.blocks) :
    pushEach chunks s = .ok () s := by
  induction chunks with
  | nil => rfl
  | cons chunk rest ih =>
    obtain ⟨rfl, others⟩ := List.forall_mem_cons.1 none
    rw [pushEach, bind_ok (FlatStack.push_nil room)]
    exact ih others

/-- With empty buffers, a level that is opened above all protection just encloses the tape. -/
lemma startRepeat_enclosed {f : FlatTape} (empty : ∀ kind, f.fill.get kind = 0)
    (room : ByteStack.blocksBelow f.stack.blockSize f.stack.cursor ≤ f.stack.blocks)
    (above : FlatStack.floor f.stack.levels ≤ f.stack.cursor) :
    startRepeat f = .ok () (f.enclosed f.stack.cursor f.fill) := by
  have begun : f.stack.begun = f.stack := by
    rw [FlatStack.begun, Nat.max_eq_left above]
    rfl
  have none : ∀ chunk ∈ Kind.all.map f.chunk, chunk = [] := by
    intro chunk mem
    obtain ⟨kind, -, rfl⟩ := List.mem_map.1 mem
    rw [← List.length_eq_zero_iff, length_chunk, Marks.bytes, empty kind]
    cases kind.scalar? with
    | some k => exact Nat.zero_mul _
    | none => rfl
  rw [startRepeat, begun, pushEach_nil none room]
  rfl

/-- Closing the level that encloses a tape gives the tape back. -/
lemma endRepeat_enclosed {f : FlatTape} (above : Above l f.stack) :
    endRepeat (f.enclosed l marks) = .ok () f := by
  have still : f.stack.rejoined = f.stack := by
    refine FlatStack.rejoined_of_ne fun level mem bent => ?_
    obtain ⟨back, backPop⟩ := Option.ne_none_iff_exists'.1 bent
    exact Nat.ne_of_gt (Nat.lt_of_lt_of_le ((above.clear level mem).2 back backPop).2 above.cursor)
  have ends : endRepeat (f.enclosed l marks) =
      .ok () { f with stack := f.stack.rejoined } := rfl
  rw [ends, still]

/-- With the level or without it, the calls leave the very same tape. -/
lemma run_around {f : FlatTape} {q : List Call} (transfers : ∀ c ∈ q, c.transfers = true)
    (empty : ∀ kind, f.fill.get kind = 0)
    (room : ByteStack.blocksBelow f.stack.blockSize f.stack.cursor ≤ f.stack.blocks)
    (above : Above f.stack.cursor f.stack)
    (stays : ∀ p, p <+: q → f.stack.cursor ≤ (runAll Call.performFlat p f).2.stack.cursor) :
    runAll Call.performFlat (.startRepeat :: (q ++ [.endRepeat])) f =
      (.ok .unit :: ((runAll Call.performFlat q f).1 ++ [.ok .unit]),
        (runAll Call.performFlat q f).2) := by
  have start : Call.startRepeat.performFlat f =
      .ok .unit (f.enclosed f.stack.cursor f.fill) :=
    bind_ok (startRepeat_enclosed empty room above.clear.floor_le)
  obtain ⟨same, above'⟩ := run_enclosed f.fill transfers above stays
  have last : Call.endRepeat.performFlat
      ((runAll Call.performFlat q f).2.enclosed f.stack.cursor f.fill) =
        .ok .unit (runAll Call.performFlat q f).2 := bind_ok (endRepeat_enclosed above')
  rw [runAll_cons_ok start, runAll_append, same, runAll_cons_ok last]
  rfl

end FlatTape

namespace Tape

/-- Two tapes that differ in nothing but slots of their buffers that hold no value, and in where
their cursors are held on a boundary between two blocks. -/
structure Identical (t u : Tape) : Prop where
  location : u.location = t.location
  levels : u.stack.levels = t.stack.levels
  marks : u.marks = t.marks
  fill : u.area.marks = t.area.marks
  valid : ∀ k, (u.area.get k).valid = (t.area.get k).valid
  bits : u.area.bits = t.area.bits
  traffic : u.totalTraffic = t.totalTraffic
  chain : u.stack.chain = t.stack.chain

/-- Tapes with the same flat view are identical. -/
lemma identical_of_flat {t u : Tape} (sound : t.Sound) (sound' : u.Sound)
    (same : u.flat = t.flat) : t.Identical u := by
  have fill := congrArg FlatTape.fill same
  rw [sound.blocks.fill, sound'.blocks.fill] at fill
  have stack : u.stack.flat = t.stack.flat := congrArg FlatTape.stack same
  refine ⟨congrArg FlatStack.cursor stack, congrArg FlatStack.levels stack,
    congrArg FlatTape.marks same, fill, fun k => ?_, congrArg FlatTape.bits same, ?_, ?_⟩
  · exact List.reverse_injective (congrFun (congrArg FlatTape.valid same) k)
  · have traffic : u.stack.traffic = t.stack.traffic := congrArg FlatStack.traffic stack
    have buffered : u.buffered = t.buffered := congrArg FlatTape.buffered same
    rw [totalTraffic, totalTraffic, traffic, buffered]
  · exact sound.blocks.stack.chain.ext sound'.blocks.stack.chain
      (congrArg FlatStack.blocks stack) (congrArg FlatStack.blockSize stack)
      (congrArg FlatStack.memory stack) (congrArg FlatStack.bytes stack)

end Tape

/-- A level around calls that stay above it cannot be told from none. From every reachable tape with
empty buffers and its cursor not inside what the active level protects, and past it when a redirect
is open: pushes and pops of every kind, of either protection, that never leave the cursor below
where it was, answer or fail the same in a level of their own, and when that level is closed the
tape is the same, the blocks and all their bytes included. The level takes no block of its own, so
memory may run out as well. -/
theorem enclosing_level_is_invisible {t : Tape} (reachable : t.Reachable)
    (empty : ∀ kind, t.area.marks.get kind = 0)
    (above : FlatStack.floor t.stack.levels ≤ t.location)
    (off : ∀ level ∈ t.stack.levels.head?, level.backPop = none ∨ level.freePush < t.location)
    {q : List Call} (transfers : ∀ c ∈ q, c.transfers = true)
    (stays : ∀ p, p <+: q → t.location ≤ (Call.performAll p t).2.location) :
    let alone := Call.performAll q t
    let around := Call.performAll ([.startRepeat] ++ q ++ [.endRepeat]) t
    around.1 = [.ok .unit] ++ alone.1 ++ [.ok .unit] ∧ alone.2.Identical around.2 := by
  have sound := reachable.sound
  have clear : FlatStack.Clear t.location t.stack.levels := by
    intro level mem
    obtain ⟨outer, levels⟩ := List.head?_eq_some_iff.1 mem
    refine ⟨by rwa [levels] at above, fun back backPop => ?_⟩
    exact ⟨sound.levels.back level outer levels back backPop,
      (off level mem).resolve_left (by simp [backPop])⟩
  have stays' : ∀ p, p <+: q →
      t.flat.stack.cursor ≤ (runAll Call.performFlat p t.flat).2.stack.cursor := by
    intro p below
    have higher := stays p below
    rw [Tape.performAll_eq] at higher
    obtain ⟨-, -, view⟩ := Commutes.all Tape.perform_commutes p sound
    rw [← view]
    exact higher
  have empty' : ∀ kind, t.flat.fill.get kind = 0 := sound.blocks.fill ▸ empty
  have shape : ([.startRepeat] ++ q ++ [.endRepeat] : List Call) =
      .startRepeat :: (q ++ [.endRepeat]) := rfl
  rw [shape, Tape.performAll_eq, Tape.performAll_eq]
  obtain ⟨soundQ, answersQ, viewQ⟩ := Commutes.all Tape.perform_commutes q sound
  obtain ⟨soundA, answersA, viewA⟩ :=
    Commutes.all Tape.perform_commutes (.startRepeat :: (q ++ [.endRepeat])) sound
  rw [FlatTape.run_around transfers empty' sound.blocks.stack.blocksBelow_le
    ⟨clear, Nat.le_refl _⟩ stays'] at answersA viewA
  refine ⟨?_, Tape.identical_of_flat soundQ soundA (viewA.trans viewQ.symm)⟩
  rw [answersA, answersQ]
  rfl

/-- A spill and a refill, a push over two blocks and a pop that fails, behind an open redirect of
the enclosing level. -/
theorem enclosing_level_is_invisible_behind_a_redirect :
    ∃ t : Tape, t.Reachable ∧ t.stack.levels = [⟨3, 3, some 2⟩] ∧
      let q : List Call := [.push .integer4 1, .push .integer4 2, .push .character 9,
        .pushBytes [5, 6, 7] false, .popBytes 3 true, .pop .integer4, .popBytes 99 true]
      (∀ kind, t.area.marks.get kind = 0) ∧ FlatStack.floor t.stack.levels ≤ t.location ∧
        (∀ level ∈ t.stack.levels.head?, level.backPop = none ∨ level.freePush < t.location) ∧
        (∀ c ∈ q, c.transfers = true) ∧
        (∀ p, p <+: q → t.location ≤ (Call.performAll p t).2.location) ∧
        let alone := Call.performAll q t
        let around := Call.performAll ([.startRepeat] ++ q ++ [.endRepeat]) t
        around.1 = [.ok .unit] ++ alone.1 ++ [.ok .unit] ∧ alone.2.Identical around.2 := by
  have created : Tape.create ⟨2, 2⟩ none = .ok _ := rfl
  have reachable := (Tape.Reachable.create created).run [.pushBytes [1, 2, 3] true, .startRepeat,
    .popBytes 1 true, .pushBytes [7, 8] true]
  let q : List Call := [.push .integer4 1, .push .integer4 2, .push .character 9,
    .pushBytes [5, 6, 7] false, .popBytes 3 true, .pop .integer4, .popBytes 99 true]
  obtain ⟨t, reachable, levels, empty, above, off, inits⟩ : ∃ t : Tape, t.Reachable ∧
      t.stack.levels = [⟨3, 3, some 2⟩] ∧ (∀ kind ∈ Kind.all, t.area.marks.get kind = 0) ∧
        FlatStack.floor t.stack.levels ≤ t.location ∧
        (∀ level ∈ t.stack.levels.head?, level.backPop = none ∨ level.freePush < t.location) ∧
        ∀ p ∈ q.inits, t.location ≤ (Call.performAll p t).2.location :=
    ⟨_, reachable, by decide +kernel, by decide +kernel, by decide +kernel, by decide +kernel,
      by decide +kernel⟩
  have empty : ∀ kind, t.area.marks.get kind = 0 := fun kind =>
    empty kind (by cases kind <;> decide)
  have stays : ∀ p, p <+: q → t.location ≤ (Call.performAll p t).2.location := fun p below =>
    inits p ((List.mem_inits p q).2 below)
  have transfers : ∀ c ∈ q, c.transfers = true := by decide
  exact ⟨t, reachable, levels, empty, above, off, transfers, stays,
    enclosing_level_is_invisible reachable empty above off transfers stays⟩

end AdjointTape

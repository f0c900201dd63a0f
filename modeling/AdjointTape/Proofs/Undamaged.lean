import AdjointTape.Proofs.Session

/-!
# No call finds a stack damaged

A call reports damage where it misses a link or a block, reaches over the end of one, or visits more
blocks than there are.  On flat memory nothing of the kind exists, and the chain answers as flat
memory does, so the report is never made.  The walk of a seek compares ranks block by block; on a
well-formed chain each link brings it one rank closer, so it ends at the block of the rank.
-/

open AdjointTape.Action

namespace AdjointTape

/-! ## Walks along the links -/

/-- The walk from a block to the block of a rank, which goes by the link that leads there, block by
block, until the rank is reached. -/
inductive Chain.Walks (c : Chain) (rank : Nat) : (id target : Nat) → Prop where
  | arrived {id : Nat} (here : c.rank id = rank) : Walks c rank id id
  | forward {id next target : Nat} (below : c.rank id < rank) (link : c.next? id = some next)
    (rest : Walks c rank next target) : Walks c rank id target
  | backward {id prev target : Nat} (above : rank < c.rank id) (link : c.prev? id = some prev)
    (rest : Walks c rank prev target) : Walks c rank id target

namespace Chain

/-- A walk ends at one block only. -/
lemma Walks.unique {c : Chain} {rank id target target' : Nat} (walk : c.Walks rank id target)
    (walk' : c.Walks rank id target') : target' = target := by
  induction walk with
  | arrived here =>
    cases walk' with
    | arrived _ => rfl
    | forward below _ _ => exact absurd here (Nat.ne_of_lt below)
    | backward above _ _ => exact absurd here (Nat.ne_of_gt above)
  | forward below link _ ih =>
    cases walk' with
    | arrived here => exact absurd here (Nat.ne_of_lt below)
    | forward _ link' rest' =>
      obtain rfl := Option.some.inj (link.symm.trans link')
      exact ih rest'
    | backward above _ _ => exact absurd above (Nat.lt_asymm below)
  | backward above link _ ih =>
    cases walk' with
    | arrived here => exact absurd here (Nat.ne_of_gt above)
    | forward below _ _ => exact absurd above (Nat.lt_asymm below)
    | backward _ link' rest' =>
      obtain rfl := Option.some.inj (link.symm.trans link')
      exact ih rest'

section Walks

variable {c : Chain} (wf : c.WellFormed)
include wf

/-- The induction is on the links to the block, each of which raises the rank by one. -/
lemma WellFormed.walks_up {id steps : Nat} (h : id + steps < c.size) :
    c.Walks (id + steps) id (id + steps) := by
  induction steps generalizing id with
  | zero => exact .arrived (wf.rank_eq h)
  | succ steps ih =>
    have e : id + 1 + steps = id + (steps + 1) := Nat.succ_add_eq_add_succ id steps
    have rank := wf.rank_eq (show id < c.size by lia)
    refine .forward (by lia) (wf.next?_eq (by lia)) ?_
    exact e ▸ ih (by lia)

/-- The way back goes down block by block. -/
lemma WellFormed.walks_down {id steps : Nat} (h : id + steps < c.size) :
    c.Walks id (id + steps) id := by
  induction steps with
  | zero => exact .arrived (wf.rank_eq h)
  | succ steps ih =>
    have rank := wf.rank_eq h
    exact .backward (by lia) (wf.prev?_eq h) (ih (Nat.lt_of_succ_lt h))

/-- From every block a walk ends at the block of every rank. -/
lemma WellFormed.walks {id rank : Nat} (hid : id < c.size) (hrank : rank < c.size) :
    c.Walks rank id rank := by
  obtain le | le := Nat.le_total id rank
  · obtain ⟨steps, rfl⟩ := Nat.exists_eq_add_of_le le
    exact wf.walks_up hrank
  · obtain ⟨steps, rfl⟩ := Nat.exists_eq_add_of_le le
    exact wf.walks_down hid

end Walks

end Chain

/-! ## Flat memory reports no damage -/

namespace Action

variable {σ α β : Type} {size : σ → Nat}

/-- A result that reports no damage, in a state with blocks of the same size. -/
inductive Unbroken (size : σ → Nat) (s : σ) : EStateM.Result Failure σ α → Prop where
  | ok {a : α} {s' : σ} (same : size s' = size s) : Unbroken size s (.ok a s')
  | error {e : Failure} {s' : σ} (undamaged : e ≠ .damaged) (same : size s' = size s) :
    Unbroken size s (.error e s')

/-- An unbroken result does not report damage. -/
lemma Unbroken.undamaged {s : σ} {r : EStateM.Result Failure σ α} (unbroken : Unbroken size s r) :
    outcome r ≠ .error .damaged := by
  intro damaged
  cases unbroken with
  | ok same => cases damaged
  | error undamaged same => exact undamaged (Except.error.inj damaged)

/-- An unbroken result keeps the size of blocks. -/
lemma Unbroken.same {s : σ} {r : EStateM.Result Failure σ α} (unbroken : Unbroken size s r) :
    size (after r) = size s := by
  cases unbroken with
  | ok same => exact same
  | error undamaged same => exact same

/-- A call that never reports damage and keeps the size of blocks. -/
def Solid (size : σ → Nat) (call : Action σ α) : Prop := ∀ s, Unbroken size s (call s)

/-- The form of the answer does not matter. -/
lemma Solid.answer {x : Action σ α} (hx : Solid size x) (g : α → β) :
    Solid size (x >>= fun a => pure (g a)) := by
  intro s
  have unbroken := hx s
  generalize run : x s = r at unbroken
  cases unbroken with
  | ok same =>
    rw [bind_ok run]
    exact .ok same
  | error undamaged same =>
    rw [bind_error run]
    exact .error undamaged same

end Action

namespace FlatStack

/-- Pushing a byte string is solid. -/
lemma solid_push (data : List UInt8) (isProtected : Bool) :
    Solid FlatStack.blockSize (push data isProtected) := by
  intro s
  rw [push]
  split
  case isFalse =>
    apply Unbroken.error _ rfl
    intro damaged
    cases damaged
  case isTrue =>
    apply Unbroken.ok
    cases isProtected with
    | false => rfl
    | true =>
      have same := congrArg FlatStack.blockSize (redirected_eq s)
      exact same

/-- Popping a byte string is solid. -/
lemma solid_pop (count : Nat) (isProtected : Bool) :
    Solid FlatStack.blockSize (pop count isProtected) := by
  intro s
  rw [pop]
  split
  case isTrue =>
    apply Unbroken.error _ rfl
    intro damaged
    cases damaged
  case isFalse =>
    apply Unbroken.ok
    cases isProtected with
    | false => rfl
    | true =>
      have same := congrArg FlatStack.blockSize (rejoined_eq (s.seek (s.cursor - count)))
      exact same

/-- Moving the cursor is solid. -/
lemma solid_setLocation (l : Location) : Solid FlatStack.blockSize (setLocation l) := by
  intro s
  rw [setLocation]
  split
  case isTrue =>
    apply Unbroken.error _ rfl
    intro damaged
    cases damaged
  case isFalse => exact .ok rfl

/-- Opening a level is solid. -/
lemma solid_commitRepeat (pending : PendingLevel) :
    Solid FlatStack.blockSize (commitRepeat pending) := fun _ => .ok rfl

/-- Dropping a level that was begun is solid. -/
lemma solid_abandonRepeat (pending : PendingLevel) :
    Solid FlatStack.blockSize (abandonRepeat pending) := fun _ => .ok rfl

/-- That no level is open is no damage. -/
lemma unbroken_noActiveRepeat {α : Type} (call : LevelCall) (s : FlatStack) :
    Unbroken FlatStack.blockSize s
      (.error (.noActiveRepeat call) s : EStateM.Result Failure FlatStack α) := by
  apply Unbroken.error _ rfl
  intro damaged
  cases damaged

/-- Beginning a restart is solid. -/
lemma solid_beginReset : Solid FlatStack.blockSize beginReset := by
  intro s
  rw [beginReset]
  split
  case h_1 => exact unbroken_noActiveRepeat _ s
  case h_2 => exact .ok rfl

/-- Finishing a restart is solid. -/
lemma solid_finishReset : Solid FlatStack.blockSize finishReset := by
  intro s
  rw [finishReset]
  split
  case h_1 => exact unbroken_noActiveRepeat _ s
  case h_2 => exact .ok rfl

/-- Closing a level is solid. -/
lemma solid_endRepeat : Solid FlatStack.blockSize endRepeat := by
  intro s
  rw [endRepeat]
  split
  case h_1 => exact unbroken_noActiveRepeat _ s
  case h_2 level outer _ =>
    have same := congrArg FlatStack.blockSize
      (rejoined_eq { s with cursor := level.backPop.getD s.cursor, levels := outer })
    exact .ok same

end FlatStack

namespace FlatSession

/-- The size of a block of the stack. -/
def blockSize (s : FlatSession) : Nat := s.stack.blockSize

/-- A call that is solid on the stack is so in a session. -/
lemma solid_onStack {α : Type} {call : Action FlatStack α}
    (solid : Solid FlatStack.blockSize call) : Solid blockSize (onStack call) := by
  intro s
  have unbroken := solid s.stack
  rw [onStack]
  generalize call s.stack = r at unbroken
  cases unbroken with
  | ok same => exact .ok same
  | error undamaged same => exact .error undamaged same

/-- Resolving a pending level is solid when the call on it is. -/
lemma solid_resolve (number : Nat) {call : PendingLevel → Action FlatStack Unit}
    (solid : ∀ level, Solid FlatStack.blockSize (call level)) :
    Solid blockSize (resolve number call) := by
  intro s
  rw [resolve]
  cases s.pending.getD number none with
  | none => exact .ok rfl
  | some level =>
    have unbroken := solid level s.stack
    dsimp only
    generalize call level s.stack = r at unbroken
    cases unbroken with
    | ok same => exact .ok same
    | error undamaged same => exact .error undamaged same

end FlatSession

open FlatSession in
/-- Every call is solid. -/
lemma StackCall.solid_performFlat (call : StackCall) :
    Solid FlatSession.blockSize call.performFlat := by
  cases call with
  | pushBytes data isProtected =>
    exact (solid_onStack (FlatStack.solid_push data isProtected)).answer _
  | popBytes count isProtected =>
    exact (solid_onStack (FlatStack.solid_pop count isProtected)).answer _
  | setLocation l => exact (solid_onStack (FlatStack.solid_setLocation l)).answer _
  | beginRepeat => exact fun _ => .ok rfl
  | commitRepeat number => exact solid_resolve number FlatStack.solid_commitRepeat
  | abandonRepeat number => exact solid_resolve number FlatStack.solid_abandonRepeat
  | beginReset => exact (solid_onStack FlatStack.solid_beginReset).answer _
  | finishReset => exact (solid_onStack FlatStack.solid_finishReset).answer _
  | endRepeat => exact (solid_onStack FlatStack.solid_endRepeat).answer _

/-! ## Reachable sessions -/

namespace StackSession

/-- The session with its chain on another memory. -/
def withMemory (memory : Memory) (s : StackSession) : StackSession :=
  { s with stack := { s.stack with chain := { s.stack.chain with memory } } }

/-- Sessions that calls lead to from a new one with blocks of a size. In between the memory that
blocks are taken from may change in any way, so growth may fail at any point. -/
inductive Reachable (blockSize : Nat) : StackSession → Prop where
  | create {limit : Option Nat} {s : StackSession} (created : create blockSize limit = .ok s) :
    Reachable blockSize s
  | call {s : StackSession} (c : StackCall) (reachable : Reachable blockSize s) :
    Reachable blockSize (after (c.perform s))
  | memory {s : StackSession} (m : Memory) (reachable : Reachable blockSize s) :
    Reachable blockSize (s.withMemory m)

/-- Calls lead from a reachable session to a reachable one. -/
lemma Reachable.run {blockSize : Nat} {s : StackSession} (reachable : s.Reachable blockSize)
    (calls : List StackCall) : (runAll StackCall.perform calls s).2.Reachable blockSize := by
  induction calls generalizing s with
  | nil => exact reachable
  | cons c rest ih => exact ih (reachable.call c)

/-- A session stays well formed on another memory. -/
lemma WellFormed.withMemory {s : StackSession} (wf : s.WellFormed) (m : Memory) :
    (s.withMemory m).WellFormed := by
  obtain ⟨⟨⟨positive, inhabited, inPlace⟩, current, top, levels⟩, pending⟩ := wf
  exact ⟨⟨⟨positive, inhabited, inPlace⟩, current, top, levels⟩, pending⟩

/-- Every reachable session is well formed and has blocks of the size it was made with. -/
lemma Reachable.wellFormed {blockSize : Nat} {s : StackSession} (reachable : s.Reachable blockSize)
    (positive : 0 < blockSize) : s.WellFormed ∧ s.stack.blockSize = blockSize := by
  induction reachable with
  | create created =>
    obtain ⟨wf, view⟩ := create_spec positive created
    exact ⟨wf, congrArg FlatSession.blockSize view⟩
  | @call s c _ ih =>
    obtain ⟨wf, same⟩ := ih
    obtain ⟨wf', e⟩ := perform_commutes c s wf
    have kept := (c.solid_performFlat s.flat).same
    rw [← e, after_through] at kept
    exact ⟨wf', kept.trans same⟩
  | memory m _ ih => exact ⟨ih.1.withMemory m, ih.2⟩

/-- A stack of blocks of one size with nothing missing: every block is in its place, the cursor is
on one of them, all locations that are kept lie within them, no call reports damage, and every seek
to a location within the blocks walks to the block that holds it. -/
structure Undamaged (blockSize : Nat) (s : StackSession) : Prop where
  inPlace : ∀ (i : Nat) (b : Block), s.stack.chain.blocks[i]? = some b →
    b.InPlace blockSize s.stack.chain.size i
  current : s.stack.current < s.stack.chain.size
  top : s.stack.top ≤ blockSize
  levels : ∀ level ∈ s.stack.levels, level.Within (s.stack.chain.size * blockSize)
  pending : ∀ level, some level ∈ s.pending → level.resume ≤ s.stack.chain.size * blockSize
  answers : ∀ call : StackCall, outcome (call.perform s) ≠ .error .damaged
  seeks : ∀ l ≤ s.stack.chain.size * blockSize, ∃ stack,
    ByteStack.seek l s.stack = .ok () stack ∧ stack.location = l ∧
      ∀ target, s.stack.chain.Walks (ByteStack.seat blockSize l).1 s.stack.current target ↔
        target = stack.current

end StackSession

/-- A walk ends at the block that a seek puts the cursor on, and nowhere else. -/
lemma ByteStack.WellFormed.walks_seated {s : ByteStack} (wf : s.WellFormed) {l : Location}
    (within : l ≤ s.chain.capacity) (target : Nat) :
    s.chain.Walks (seat s.blockSize l).1 s.current target ↔ target = (s.seated l).current := by
  have walk := wf.chain.walks wf.current (seat_rank wf.chain.inhabited within)
  constructor
  · exact walk.unique
  · rintro rfl
    exact walk

/-- Nothing is ever missing from a byte stack. Whatever the size of a block, whatever was called,
pending levels resolved in any order and growth that failed included: the chain has all its blocks
in their places, the cursor, the levels and the pending levels lie within them, no transfer misses a
link, reaches over the end of a block or visits more blocks than there are, and every seek ends. -/
theorem byte_stack_stays_undamaged {blockSize : Nat} {s : StackSession} (positive : 0 < blockSize)
    (reachable : s.Reachable blockSize) : s.Undamaged blockSize := by
  obtain ⟨wf, same⟩ := reachable.wellFormed positive
  subst same
  refine ⟨wf.stack.chain.inPlace, wf.stack.current, wf.stack.top, wf.stack.levels, wf.pending,
    fun call => ?_, fun l within => ?_⟩
  · have undamaged := (call.solid_performFlat s.flat).undamaged
    rw [← (StackSession.perform_commutes call s wf).2, outcome_through] at undamaged
    exact undamaged
  · refine ⟨_, wf.stack.seek_eq within, ?_, wf.stack.walks_seated within⟩
    exact congrArg FlatStack.cursor (wf.stack.flat_seated within)

/-- Two pending levels resolved out of order, around a push that finds no room for its blocks. -/
theorem byte_stack_stays_undamaged_out_of_order :
    ∃ s : StackSession, 0 < 2 ∧ s.Reachable 2 ∧ s.stack.chain.size = 3 ∧ s.Undamaged 2 := by
  have created : StackSession.create 2 (some 3) = .ok _ := rfl
  have reachable := (StackSession.Reachable.create created).run [.pushBytes [1, 2, 3] true,
    .beginRepeat, .pushBytes [4, 5] false, .beginRepeat, .pushBytes [6, 7, 8] true, .commitRepeat 0,
    .setLocation 1, .pushBytes [9] true, .commitRepeat 1, .abandonRepeat 0, .beginReset, .endRepeat]
  obtain ⟨s, reachable, size⟩ :
      ∃ s : StackSession, s.Reachable 2 ∧ s.stack.chain.size = 3 :=
    ⟨_, reachable, by decide +kernel⟩
  exact ⟨s, Nat.two_pos, reachable, size, byte_stack_stays_undamaged Nat.two_pos reachable⟩

end AdjointTape

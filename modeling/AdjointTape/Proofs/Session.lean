import AdjointTape.Proofs.Transparency

/-!
# Runs of a byte stack and its pending levels

A session is well formed when its stack is and its pending levels resume within the blocks.  As
blocks are never given back, a pending level stays within them however long it is pending, so a
whole run of calls answers as flat memory does.
-/

open AdjointTape.Action

namespace AdjointTape

namespace FlatStack

/-! ## Blocks are never given back -/

/-- A call after which no fewer bytes are within reach. -/
def Grows {α : Type} (call : Action FlatStack α) : Prop :=
  Steps (fun s s' => s.capacity ≤ s'.capacity) call

/-- A jump takes no bytes out of reach. -/
@[simp]
lemma capacity_redirected (s : FlatStack) : s.redirected.capacity = s.capacity := by
  simp only [redirected]
  split
  case h_1 => rfl
  case h_2 => split <;> rfl

/-- A jump back takes no bytes out of reach. -/
@[simp]
lemma capacity_rejoined (s : FlatStack) : s.rejoined.capacity = s.capacity := by
  simp only [rejoined]
  split
  case h_1 => rfl
  case h_2 =>
    split
    case h_1 => rfl
    case h_2 => split <;> rfl

/-- The start of a push takes no bytes out of reach. -/
lemma capacity_start (isProtected : Bool) (s : FlatStack) :
    (s.start isProtected).capacity = s.capacity := by
  cases isProtected with
  | false => rfl
  | true => exact capacity_redirected s

/-- Pushing takes no bytes out of reach. -/
lemma grows_push (data : List UInt8) (isProtected : Bool) : Grows (push data isProtected) := by
  intro s
  simp only [push]
  split
  case isFalse => exact Nat.le_refl _
  case isTrue =>
    have same := capacity_start isProtected s
    have more : (s.start isProtected).capacity ≤ (s.pushed data isProtected).capacity := by
      have le := Nat.mul_le_mul_right (s.start isProtected).blockSize (Nat.le_max_left
        (s.start isProtected).blocks (ByteStack.blocksBelow (s.start isProtected).blockSize
          ((s.start isProtected).cursor + data.length)))
      cases isProtected <;> exact le
    exact same ▸ more

/-- Popping takes no bytes out of reach. -/
lemma grows_pop (count : Nat) (isProtected : Bool) : Grows (pop count isProtected) := by
  intro s
  simp only [pop]
  split
  case isTrue => exact Nat.le_refl _
  case isFalse =>
    cases isProtected with
    | false => exact Nat.le_refl _
    | true => exact Nat.le_of_eq (capacity_rejoined (s.seek (s.cursor - count))).symm

/-- Moving the cursor takes no bytes out of reach. -/
lemma grows_setLocation (l : Location) : Grows (setLocation l) := by
  intro s
  simp only [setLocation]
  split <;> exact Nat.le_refl _

/-- Opening a level takes no bytes out of reach. -/
lemma grows_commitRepeat (pending : PendingLevel) : Grows (commitRepeat pending) :=
  fun _ => Nat.le_refl _

/-- Dropping a level that was begun takes no bytes out of reach. -/
lemma grows_abandonRepeat (pending : PendingLevel) : Grows (abandonRepeat pending) :=
  fun _ => Nat.le_refl _

/-- Beginning a restart takes no bytes out of reach. -/
lemma grows_beginReset : Grows beginReset := by
  intro s
  simp only [beginReset]
  split <;> exact Nat.le_refl _

/-- Finishing a restart takes no bytes out of reach. -/
lemma grows_finishReset : Grows finishReset := by
  intro s
  simp only [finishReset]
  split <;> exact Nat.le_refl _

/-- Closing a level takes no bytes out of reach. -/
lemma grows_endRepeat : Grows endRepeat := by
  intro s
  simp only [endRepeat]
  split
  case h_1 => exact Nat.le_refl _
  case h_2 level outer _ =>
    exact Nat.le_of_eq (capacity_rejoined
      { s with cursor := level.backPop.getD s.cursor, levels := outer }).symm

end FlatStack

/-- A new stack is well formed, and its view is a new one. -/
lemma ByteStack.create_spec {blockSize : Nat} {limit : Option Nat} {s : ByteStack}
    (positive : 0 < blockSize) (created : create blockSize limit = .ok s) :
    s.WellFormed ∧ s.flat = .empty blockSize limit := by
  rw [create] at created
  cases e : Chain.create blockSize limit with
  | error err =>
    rw [e] at created
    cases created
  | ok chain =>
    rw [e] at created
    cases created
    obtain ⟨wf, blockSize, blocks, bytes, memory⟩ := Chain.create_spec e positive
    have wf' : WellFormed { chain, current := 0, top := 0, levels := [], traffic := 0 } :=
      ⟨wf, wf.inhabited, Nat.zero_le _, nofun⟩
    refine ⟨wf', ?_⟩
    have loc := wf'.location_eq
    simp only [Nat.zero_mul, Nat.add_zero] at loc
    simp only [flat, FlatStack.empty, loc, blockSize, blocks, bytes, memory]

namespace StackSession

/-- The session without the blocks of its stack. -/
def flat (s : StackSession) : FlatSession := { stack := s.stack.flat, pending := s.pending }

/-- The stack is well formed, and every pending level resumes within its blocks. -/
structure WellFormed (s : StackSession) : Prop where
  stack : s.stack.WellFormed
  pending : ∀ level, some level ∈ s.pending → level.resume ≤ s.stack.chain.capacity

/-- A call on the stack of a session commutes with the view when it takes no bytes out of reach. -/
lemma onStack_commutes {α : Type} {call : Action ByteStack α} {call' : Action FlatStack α}
    (commutes : Commutes ByteStack.WellFormed ByteStack.flat call call')
    (grows : FlatStack.Grows call') :
    Commutes WellFormed flat (onStack call) (FlatSession.onStack call') := by
  intro s wf
  obtain ⟨stack, pending⟩ := s
  obtain ⟨wf', e⟩ := commutes stack wf.stack
  have le := grows stack.flat
  rw [← e, after_through] at le
  have keeps : ∀ level, some level ∈ pending →
      level.resume ≤ (after (call stack)).chain.capacity :=
    fun level mem => Nat.le_trans (wf.pending level mem) le
  cases r : call stack with
  | ok a stack' =>
    rw [r] at wf' e keeps
    simp only [onStack, FlatSession.onStack, r, flat, ← e, through_ok]
    exact ⟨⟨wf', keeps⟩, trivial⟩
  | error err stack' =>
    rw [r] at wf' e keeps
    simp only [onStack, FlatSession.onStack, r, flat, ← e, through_error]
    exact ⟨⟨wf', keeps⟩, trivial⟩

/-- Beginning a level commutes with the view. -/
lemma begin_commutes :
    Commutes WellFormed flat
      (do
        let level ← onStack ByteStack.beginRepeat
        Action.update (add level)
        return StackAnswer.resume level.resume)
      FlatSession.begin := by
  intro s wf
  obtain ⟨stack, pending⟩ := s
  obtain ⟨wf', e⟩ := ByteStack.beginRepeat_commutes stack wf.stack
  cases r : ByteStack.beginRepeat stack with
  | error err stack' =>
    rw [r] at e
    cases e
  | ok level stack' =>
    rw [r] at wf' e
    obtain ⟨resume, view⟩ := EStateM.Result.ok.inj e
    have le : stack.chain.capacity ≤ stack'.chain.capacity :=
      Nat.le_of_eq (congrArg FlatStack.capacity view).symm
    have run : onStack ByteStack.beginRepeat ⟨stack, pending⟩ = .ok level ⟨stack', pending⟩ := by
      simp only [onStack, r]
    rw [bind_ok run, update_bind, pure_apply]
    refine ⟨⟨wf', fun x mem => ?_⟩, ?_⟩
    · obtain mem | mem := List.mem_append.1 mem
      · exact Nat.le_trans (wf.pending x mem) le
      · cases List.mem_singleton.1 mem
        rw [resume]
        exact Nat.le_trans wf.stack.location_le le
    · simp only [through_ok, FlatSession.begin, flat, add, view, resume]

/-- A level that a number stands for is pending. -/
lemma mem_of_number {pending : List (Option PendingLevel)} {number : Nat} {level : PendingLevel}
    (e : pending.getD number none = some level) : some level ∈ pending := by
  rw [List.getD_eq_getElem?_getD] at e
  cases g : pending[number]? with
  | none =>
    rw [g] at e
    cases e
  | some x =>
    rw [g] at e
    cases e
    exact List.mem_of_getElem? g

/-- Resolving a pending level commutes when resolving one within the blocks does. -/
lemma resolve_commutes (number : Nat) {call : PendingLevel → Action ByteStack Unit}
    {call' : PendingLevel → Action FlatStack Unit}
    (commutes : ∀ s, ByteStack.WellFormed s → ∀ level : PendingLevel,
      level.resume ≤ s.chain.capacity →
      (after (call level s)).WellFormed ∧
        through ByteStack.flat (call level s) = call' level s.flat)
    (grows : ∀ level, FlatStack.Grows (call' level)) :
    Commutes WellFormed flat (do resolve number call; return StackAnswer.unit)
      (FlatSession.resolve number call') := by
  intro s wf
  obtain ⟨stack, pending⟩ := s
  have rest : ∀ x, some x ∈ pending.set number none → some x ∈ pending := by
    intro x mem
    obtain mem | e := List.mem_or_eq_of_mem_set mem
    · exact mem
    · cases e
  simp only [FlatSession.resolve, flat]
  cases e : pending.getD number none with
  | none =>
    have taken : take number ⟨stack, pending⟩ = .ok none ⟨stack, pending.set number none⟩ := by
      rw [take, e]
    have run : resolve number call ⟨stack, pending⟩ = .ok () ⟨stack, pending.set number none⟩ := by
      rw [resolve, bind_ok taken]
      rfl
    rw [bind_ok run]
    exact ⟨⟨wf.stack, fun x mem => wf.pending x (rest x mem)⟩, rfl⟩
  | some level =>
    have taken : take number ⟨stack, pending⟩ =
        .ok (some level) ⟨stack, pending.set number none⟩ := by
      rw [take, e]
    obtain ⟨wf', view⟩ := commutes stack wf.stack level (wf.pending level (mem_of_number e))
    have le := grows level stack.flat
    rw [← view, after_through] at le
    have keeps : ∀ x, some x ∈ pending.set number none →
        x.resume ≤ (after (call level stack)).chain.capacity :=
      fun x mem => Nat.le_trans (wf.pending x (rest x mem)) le
    cases r : call level stack with
    | ok a stack' =>
      rw [r] at wf' view keeps
      have run : resolve number call ⟨stack, pending⟩ =
          .ok () ⟨stack', pending.set number none⟩ := by
        rw [resolve, bind_ok taken]
        simp only [onStack, r]
      dsimp only
      rw [bind_ok run, ← view]
      exact ⟨⟨wf', keeps⟩, rfl⟩
    | error err stack' =>
      rw [r] at wf' view keeps
      have run : resolve number call ⟨stack, pending⟩ =
          .error err ⟨stack', pending.set number none⟩ := by
        rw [resolve, bind_ok taken]
        simp only [onStack, r]
      dsimp only
      rw [bind_error run, ← view]
      exact ⟨⟨wf', keeps⟩, rfl⟩

/-- Every call of a session commutes with the call on flat memory. -/
lemma perform_commutes (call : StackCall) :
    Commutes WellFormed flat call.perform call.performFlat := by
  cases call with simp only [StackCall.perform, StackCall.performFlat]
  | pushBytes data isProtected =>
    exact Commutes.seq (onStack_commutes (ByteStack.pushBytes_commutes data isProtected)
      (FlatStack.grows_push data isProtected)) fun _ => .ret _
  | popBytes count isProtected =>
    exact Commutes.seq (onStack_commutes (ByteStack.popBytes_commutes count isProtected)
      (FlatStack.grows_pop count isProtected)) fun _ => .ret _
  | setLocation l =>
    exact Commutes.seq (onStack_commutes (ByteStack.setLocation_commutes l)
      (FlatStack.grows_setLocation l)) fun _ => .ret _
  | beginRepeat => exact begin_commutes
  | commitRepeat number =>
    exact resolve_commutes number
      (fun s wf level within => ByteStack.commitRepeat_commutes wf within)
      FlatStack.grows_commitRepeat
  | abandonRepeat number =>
    exact resolve_commutes number
      (fun s wf level within => ByteStack.abandonRepeat_commutes wf within)
      FlatStack.grows_abandonRepeat
  | beginReset =>
    exact Commutes.seq (onStack_commutes ByteStack.beginReset_commutes FlatStack.grows_beginReset)
      fun _ => .ret _
  | finishReset =>
    exact Commutes.seq (onStack_commutes ByteStack.finishReset_commutes FlatStack.grows_finishReset)
      fun _ => .ret _
  | endRepeat =>
    exact Commutes.seq (onStack_commutes ByteStack.endRepeat_commutes FlatStack.grows_endRepeat)
      fun _ => .ret _

/-- A new session is well formed, and its view is a new one. -/
lemma create_spec {blockSize : Nat} {limit : Option Nat} {s : StackSession}
    (positive : 0 < blockSize) (created : create blockSize limit = .ok s) :
    s.WellFormed ∧ s.flat = .empty blockSize limit := by
  rw [create] at created
  cases e : ByteStack.create blockSize limit with
  | error err =>
    rw [e] at created
    cases created
  | ok stack =>
    rw [e] at created
    cases created
    obtain ⟨wf, view⟩ := ByteStack.create_spec positive e
    exact ⟨⟨wf, nofun⟩, by rw [flat, view]; rfl⟩

end StackSession

/-- The chain of blocks cannot be seen. Whatever the size of a block, any run of calls on a byte
stack, with its levels resolved in any order, gets call by call the answers and the failures of flat
memory, and leaves the location, the levels, the pending levels, the traffic, the number of blocks
and every byte that flat memory has. -/
theorem block_chain_invisible {blockSize : Nat} {limit : Option Nat} {s : StackSession}
    (positive : 0 < blockSize) (created : StackSession.create blockSize limit = .ok s)
    (calls : List StackCall) :
    (runAll StackCall.perform calls s).1 =
        (runAll StackCall.performFlat calls (.empty blockSize limit)).1 ∧
      (runAll StackCall.perform calls s).2.flat =
        (runAll StackCall.performFlat calls (.empty blockSize limit)).2 := by
  obtain ⟨wf, view⟩ := StackSession.create_spec positive created
  obtain ⟨_, answers, states⟩ := Commutes.all StackSession.perform_commutes calls wf
  rw [view] at answers states
  exact ⟨answers, states⟩

/-- A redirected push, a seek and a pop over blocks of two bytes. -/
theorem block_chain_invisible_over_two_bytes :
    ∃ s, 0 < 2 ∧ StackSession.create 2 none = .ok s ∧
      let calls := [.pushBytes [1, 2, 3] true, .beginRepeat, .pushBytes [4, 5] false,
        .commitRepeat 0, .pushBytes [6] true, .popBytes 1 true, .setLocation 5, .popBytes 9 true]
      (runAll StackCall.perform calls s).1 =
        (runAll StackCall.performFlat calls (.empty 2 none)).1 ∧
        (runAll StackCall.perform calls s).2.flat =
          (runAll StackCall.performFlat calls (.empty 2 none)).2 :=
  ⟨_, Nat.two_pos, rfl, block_chain_invisible Nat.two_pos rfl _⟩

end AdjointTape

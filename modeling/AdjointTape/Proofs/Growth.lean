import AdjointTape.Proofs.Failing
import AdjointTape.Proofs.Matching

/-!
# How many blocks there are

The blocks of a chain reach up to the highest place where a transfer onto the byte stack ever ended,
and no further.  Every write of a call reserves the blocks up to its own end and takes no more, and
a write that fails takes none; nothing else takes blocks, and nothing gives them back.  So the
number of blocks is that of the highest transfer, whether the transfer was a byte string, a buffer
that got full, a write behind a redirect or a buffer saved for a level that was not opened in the
end.
-/

open AdjointTape.Action AdjointTape.FlatStack

namespace AdjointTape

/-- A byte string that a call puts on the byte stack. -/
structure Write where
  data : List UInt8
  isProtected : Bool

/-- The words that get full when bits are put into the buffer one after the other. -/
def BitBuffer.writes (b : BitBuffer) : List Bool → List Write
  | [] => []
  | bit :: rest =>
    let longer := append b.word bit
    if wordBits ≤ b.index + 1 then ⟨encode longer, true⟩ :: empty.writes rest
    else writes ⟨longer, b.index + 1⟩ rest

/-- What a call puts on the byte stack, as long as there is room: an array or a byte string itself,
a buffer or a word that gets full, and the buffers that a new level saves, bits only if there are
any. -/
def Call.writes (f : FlatTape) : Call → List Write
  | .push k value =>
    if (f.valid k).length + 1 < f.capacity then []
    else [⟨k.encodeAll (value :: f.valid k).reverse, true⟩]
  | .pushBit bit => f.bits.writes [bit]
  | .pushControl value width =>
    if 1 ≤ width ∧ width ≤ 8 then f.bits.writes (Tape.controlBits (width - 1) value) else []
  | .pushArray k values => [⟨k.encodeAll values, true⟩]
  | .pushBytes data isProtected => [⟨data, isProtected⟩]
  | .startRepeat =>
    (Kind.all.filter fun kind => kind ≠ .bit ∨ f.bits.index ≠ 0).map fun kind =>
      ⟨f.chunk kind, false⟩
  | _ => []

/-- The stacks that writes leave, one after the other, up to the first that finds no room. -/
def ByteStack.transfers : List Write → ByteStack → List ByteStack
  | [], _ => []
  | write :: rest, s =>
    match pushBytes write.data write.isProtected s with
    | .ok _ s => s :: transfers rest s
    | .error _ _ => []

/-- Where the first write of a call starts. -/
def Call.origin (s : ByteStack) : Call → ByteStack
  | .startRepeat => after (ByteStack.beginRepeat s)
  | _ => s

/-- The stacks that the transfers of a call leave, one after the other. -/
def Call.deposits (c : Call) (t : Tape) : List ByteStack :=
  ByteStack.transfers (c.writes t.flat) (c.origin t.stack)

/-! ## The bytes, the blocks and the memory -/

namespace FlatStack

variable {s : FlatStack}

/-- What a stack keeps its bytes in. -/
def store (s : FlatStack) : ByteMap × Nat × Nat × Memory :=
  (s.bytes, s.blockSize, s.blocks, s.memory)

/-- The stack after writes, up to the first that finds no room. -/
def pushAll : List Write → FlatStack → FlatStack
  | [], s => s
  | write :: rest, s =>
    match push write.data write.isProtected s with
    | .ok _ s => pushAll rest s
    | .error _ s => s

/-- A push leaves the size of blocks as it is. -/
lemma blockSize_pushed (data : List UInt8) (isProtected : Bool) (s : FlatStack) :
    (s.pushed data isProtected).blockSize = s.blockSize := by
  cases isProtected with
  | false => rfl
  | true =>
    rw [pushed, start, if_pos rfl, redirected_eq]
    rfl

/-- A push takes the blocks up to its end and no more. -/
lemma blocks_pushed (data : List UInt8) (isProtected : Bool) (s : FlatStack) :
    (s.pushed data isProtected).blocks =
      max s.blocks (ByteStack.blocksBelow s.blockSize (s.pushed data isProtected).cursor) := by
  rw [cursor_pushed]
  cases isProtected with
  | false => rfl
  | true =>
    simp only [pushed, start, if_pos]
    rw [redirected_eq]
    rfl

/-- A pop leaves bytes, blocks and memory alone. -/
lemma store_popped (count : Nat) (isProtected : Bool) (s : FlatStack) :
    (s.popped count isProtected).store = s.store := by
  cases isProtected with
  | false => rfl
  | true =>
    rw [popped, if_pos rfl, rejoined_eq]
    rfl

/-! ## Writes one after the other -/

variable {data : List UInt8} {isProtected : Bool} {rest : List Write} {s' : FlatStack}

/-- After a write that finds room come the others. -/
lemma pushAll_ok (run : push data isProtected s = .ok () s') :
    pushAll (⟨data, isProtected⟩ :: rest) s = pushAll rest s' := by
  rw [pushAll, run]

/-- After a write that finds no room comes nothing. -/
lemma pushAll_error {e : Failure} (run : push data isProtected s = .error e s') :
    pushAll (⟨data, isProtected⟩ :: rest) s = s' := by
  rw [pushAll, run]

/-- A single write is a push. -/
lemma pushAll_single (data : List UInt8) (isProtected : Bool) (s : FlatStack) :
    pushAll [⟨data, isProtected⟩] s = after (push data isProtected s) := by
  rw [pushAll]
  cases push data isProtected s <;> rfl

/-- The chunks of the buffers are written one after the other. -/
lemma pushAll_pushEach (chunks : List (List UInt8)) (s : FlatStack) :
    pushAll (chunks.map (⟨·, false⟩)) s = after (FlatTape.pushEach chunks s) := by
  induction chunks generalizing s with
  | nil => rfl
  | cons chunk rest ih =>
    rw [FlatTape.pushEach, List.map_cons]
    cases run : push chunk false s with
    | ok _ s' => rw [bind_ok run, pushAll_ok run, ih]
    | error e s' =>
      rw [bind_error run, pushAll_error run]
      rfl

/-- A write of no bytes is no write, where the cursor has its blocks. -/
lemma pushAll_without_nil {before after : List Write}
    (housed : ByteStack.blocksBelow s.blockSize s.cursor ≤ s.blocks) :
    pushAll (before ++ ⟨[], false⟩ :: after) s = pushAll (before ++ after) s := by
  induction before generalizing s with
  | nil => exact pushAll_ok (push_nil housed)
  | cons first rest ih =>
    obtain ⟨data, isProtected⟩ := first
    obtain run | ⟨blocks, blockSize, run⟩ := push_cases data isProtected s
    · rw [List.cons_append, List.cons_append, pushAll_ok run, pushAll_ok run]
      refine ih ?_
      rw [blocks_pushed, blockSize_pushed]
      exact Nat.le_max_right _ _
    · rw [List.cons_append, List.cons_append, pushAll_error run, pushAll_error run]

end FlatStack

namespace FlatTape

variable {f : FlatTape}

/-- Bits write the words that get full with them. -/
lemma stack_pushBits (bits : List Bool) (f : FlatTape) :
    (after (pushBits bits f)).stack = pushAll (f.bits.writes bits) f.stack := by
  induction bits generalizing f with
  | nil => rfl
  | cons bit rest ih =>
    rw [pushBits, BitBuffer.writes]
    by_cases full : BitBuffer.wordBits ≤ f.bits.index + 1
    case pos =>
      rw [if_pos full]
      obtain run | ⟨blocks, blockSize, run⟩ := push_cases
        (BitBuffer.encode (BitBuffer.append f.bits.word bit)) true f.stack
      · have spill : pushBit bit f = .ok () _ :=
          (pushBit_spill full).trans (bind_ok (onStack_ok run))
        rw [bind_ok spill, ih, pushAll_ok run]
      · have stuck : pushBit bit f = .error _ _ :=
          (pushBit_spill full).trans (bind_error (onStack_error run))
        rw [bind_error stuck, pushAll_error run]
        rfl
    case neg =>
      rw [if_neg full, bind_ok (pushBit_room full), ih]

/-- A scalar writes the buffer that gets full with it. -/
lemma stack_push (k : ScalarKind) (value : k.Carrier) (f : FlatTape) :
    (after (push k value f)).stack = pushAll ((Call.push k value).writes f) f.stack := by
  rw [Call.writes]
  split
  case isTrue room =>
    rw [push_room room]
    rfl
  case isFalse full =>
    rw [push_spill full, pushAll_single]
    cases run : FlatStack.push (k.encodeAll (value :: f.valid k).reverse) true f.stack with
    | ok _ stack =>
      rw [bind_ok (onStack_ok run)]
      rfl
    | error e stack =>
      rw [bind_error (onStack_error run)]
      rfl

/-- A call on the stack leaves the stack that it leaves there. -/
lemma stack_onStack {α : Type} (call : Action FlatStack α) (f : FlatTape) :
    (after (onStack call f)).stack = after (call f.stack) := by
  rw [onStack]
  cases call f.stack <;> rfl

/-! ## Calls that write nothing -/

/-- A call that leaves the bytes, the blocks and the memory alone. -/
def Idle {α : Type} (call : Action FlatTape α) : Prop :=
  Steps (fun f f' => f'.stack.store = f.stack.store) call

/-- One idle call behind another one is idle. -/
lemma idle_seq {α β : Type} {x : Action FlatTape α} {g : α → Action FlatTape β} (hx : Idle x)
    (hg : ∀ a, Idle (g a)) : Idle (x >>= g) :=
  Steps.seq (fun _ _ _ first next => next.trans first) hx hg

/-- Popping a byte string is idle. -/
lemma idle_stackPop (count : Nat) (isProtected : Bool) :
    Idle (onStack (FlatStack.pop count isProtected)) := by
  intro f
  rw [stack_onStack, FlatStack.pop]
  split
  case isTrue => rfl
  case isFalse => exact store_popped count isProtected f.stack

/-- Popping a scalar is idle. -/
lemma idle_pop (k : ScalarKind) : Idle (pop k) := by
  intro f
  cases held : f.valid k with
  | cons value rest =>
    rw [pop_held held]
    rfl
  | nil =>
    rw [pop_refill held]
    exact idle_seq (idle_stackPop _ true) (fun _ _ => rfl) f

/-- Popping a bit is idle. -/
lemma idle_popBit : Idle popBit := by
  intro f
  cases held : f.bits.index with
  | succ index =>
    rw [popBit_held held]
    rfl
  | zero =>
    rw [popBit_refill held]
    exact idle_seq (idle_stackPop 4 true) (fun _ _ => rfl) f

/-- Popping bits is idle. -/
lemma idle_popBits (count value : Nat) : Idle (popBits count value) := by
  induction count generalizing value with
  | zero => exact fun _ => rfl
  | succ count ih => exact idle_seq idle_popBit fun _ => ih _

/-- Moving the cursor is idle. -/
lemma idle_setLocation (l : Location) : Idle (onStack (FlatStack.setLocation l)) := by
  intro f
  rw [stack_onStack, FlatStack.setLocation]
  split <;> rfl

/-- Restarting a level is idle. -/
lemma idle_resetRepeat : Idle resetRepeat := by
  intro f
  rw [resetRepeat]
  split
  case h_1 => rfl
  case h_2 => rfl
  case h_3 level outer marks _ _ _ =>
    have back := stack_takeBackEach { f with stack := f.stack.rewound level outer } marks
      Kind.all.reverse
    change ((takeBackEach marks Kind.all.reverse
      { f with stack := f.stack.rewound level outer }).stack.seek level.resume).store =
        f.stack.store
    rw [back]
    rfl

/-- Closing a level is idle. -/
lemma idle_endRepeat : Idle endRepeat := by
  intro f
  rw [endRepeat]
  split
  case h_1 => rfl
  case h_2 level outer _ =>
    have same := congrArg FlatStack.store (FlatStack.rejoined_eq
      { f.stack with cursor := level.backPop.getD f.stack.cursor, levels := outer })
    exact same

/-! ## What calls write -/

/-- A new level saves the buffers, one write for each that there is. -/
lemma store_startRepeat (f : FlatTape)
    (housed : ByteStack.blocksBelow f.stack.begun.blockSize f.stack.begun.cursor ≤
      f.stack.begun.blocks) :
    (after (startRepeat f)).stack.store =
      (pushAll (Call.startRepeat.writes f) f.stack.begun).store := by
  have saved : pushAll (Call.startRepeat.writes f) f.stack.begun =
      after (pushEach (Kind.all.map f.chunk) f.stack.begun) := by
    rw [← pushAll_pushEach, List.map_map, Call.writes]
    by_cases none : f.bits.index = 0
    case pos =>
      have empty : f.chunk .bit = [] := if_pos none
      have parts : Kind.all.map ((fun data => (⟨data, false⟩ : Write)) ∘ f.chunk) =
          (Kind.all.take 7).map ((fun data => (⟨data, false⟩ : Write)) ∘ f.chunk) ++
            ⟨[], false⟩ :: [⟨f.chunk .pointer, false⟩] := by
        rw [← empty]
        rfl
      rw [parts, pushAll_without_nil housed]
      simp [Kind.all, none]
    case neg => simp [Kind.all, none]
  rw [saved, startRepeat]
  cases pushEach (Kind.all.map f.chunk) f.stack.begun <;> rfl

/-- What any other call leaves of bytes, blocks and memory is what its writes leave. -/
lemma store_performFlat {c : Call} (opens : c ≠ .startRepeat) (f : FlatTape) :
    (after (c.performFlat f)).stack.store = (pushAll (c.writes f) f.stack).store := by
  have idle {α : Type} {call : Action FlatTape α} (idle : Idle call) (answer : α → Answer) :
      (after ((call >>= fun a => pure (answer a)) f)).stack.store = f.stack.store :=
    Steps.answer idle answer f
  cases c with
  | push k value =>
    rw [Call.performFlat, after_answer, stack_push]
  | pop k => exact idle (idle_pop k) _
  | pushBit bit =>
    rw [Call.performFlat, after_answer, Call.writes, ← stack_pushBits, pushBits_singleton]
  | popBit => exact idle idle_popBit _
  | pushControl value width =>
    rw [Call.performFlat, Call.writes]
    split
    case isTrue => rw [after_answer, stack_pushBits]
    case isFalse => rfl
  | popControl width =>
    rw [Call.performFlat]
    split
    case isTrue => exact idle (idle_popBits width 0) _
    case isFalse => rfl
  | pushArray k values =>
    rw [Call.performFlat, after_answer, Call.writes, pushAll_single, stack_onStack]
  | popArray k count => exact idle (idle_stackPop _ true) _
  | pushBytes data isProtected =>
    rw [Call.performFlat, after_answer, Call.writes, pushAll_single, stack_onStack]
  | popBytes count isProtected => exact idle (idle_stackPop count isProtected) _
  | startRepeat => exact absurd rfl opens
  | resetRepeat => exact idle idle_resetRepeat _
  | endRepeat => exact idle idle_endRepeat _
  | setLocation l => exact idle (idle_setLocation l) _

end FlatTape

namespace ByteStack

/-- The last of the stacks that writes leave has the blocks that were there, and those up to where
each of the writes ended. -/
lemma transfers_spec {s : ByteStack} (wf : s.WellFormed) (writes : List Write) :
    ((transfers writes s).getLastD s).WellFormed ∧
      ((transfers writes s).getLastD s).flat = FlatStack.pushAll writes s.flat ∧
      ((transfers writes s).getLastD s).chain.blockSize = s.chain.blockSize ∧
      ((transfers writes s).getLastD s).chain.size = (transfers writes s).foldl
        (fun blocks s' => max blocks (blocksBelow s.chain.blockSize s'.location)) s.chain.size := by
  induction writes generalizing s with
  | nil => exact ⟨wf, rfl, rfl, rfl⟩
  | cons write rest ih =>
    obtain ⟨data, isProtected⟩ := write
    obtain ⟨wf', view⟩ := pushBytes_commutes data isProtected s wf
    obtain done | ⟨blocks, blockSize, full⟩ := push_cases data isProtected s.flat
    · obtain ⟨s', run, same⟩ := of_through_ok (view.trans done)
      have first : transfers (⟨data, isProtected⟩ :: rest) s = s' :: transfers rest s' := by
        rw [transfers, run]
      obtain ⟨last, left, blockSize, size⟩ := ih (after_ok run ▸ wf')
      have blockSize' : s'.chain.blockSize = s.chain.blockSize :=
        (congrArg FlatStack.blockSize same).trans (blockSize_pushed _ _ _)
      have size' : s'.chain.size =
          max s.chain.size (blocksBelow s.chain.blockSize s'.location) := by
        have blocks := blocks_pushed data isProtected s.flat
        rw [← same] at blocks
        exact blocks
      rw [first, List.getLastD_cons, pushAll_ok done, ← same]
      refine ⟨last, left, blockSize.trans blockSize', ?_⟩
      rw [size, List.foldl_cons, size', blockSize']
    · obtain ⟨s', run, same⟩ := of_through_error (view.trans full)
      have none : transfers (⟨data, isProtected⟩ :: rest) s = [] := by
        rw [transfers, run]
      rw [none, pushAll_error full]
      exact ⟨wf, rfl, rfl, rfl⟩

/-- The flat view knows the chain. -/
lemma chain_of_store {s s' : ByteStack} (wf : s.WellFormed) (wf' : s'.WellFormed)
    (same : s'.flat.store = s.flat.store) : s'.chain = s.chain := by
  obtain ⟨bytes, blockSize, blocks, memory⟩ := Prod.mk.inj same |>.imp id fun rest =>
    (Prod.mk.inj rest).imp id Prod.mk.inj
  exact wf.chain.ext wf'.chain blocks blockSize memory bytes

/-- Beginning a level moves the cursor and nothing else. -/
lemma beginRepeat_spec {s : ByteStack} (wf : s.WellFormed) :
    (after (beginRepeat s)).WellFormed ∧ (after (beginRepeat s)).flat = s.flat.begun ∧
      (after (beginRepeat s)).chain = s.chain := by
  obtain ⟨wf', view⟩ := beginRepeat_commutes s wf
  have begun : (after (beginRepeat s)).flat = s.flat.begun := by
    rw [← after_through flat, view]
    rfl
  exact ⟨wf', begun, chain_of_store wf wf' ((congrArg FlatStack.store begun).trans rfl)⟩

end ByteStack

namespace Tape

/-- Where the first write of a call starts the chain is that of the tape, and the call leaves of
bytes, blocks and memory what its writes leave from there. -/
lemma origin_spec {t : Tape} (sound : t.Sound) (c : Call) :
    (c.origin t.stack).WellFormed ∧ (c.origin t.stack).chain = t.stack.chain ∧
      (after (c.performFlat t.flat)).stack.store =
        (FlatStack.pushAll (c.writes t.flat) (c.origin t.stack).flat).store := by
  by_cases opens : c = .startRepeat
  · subst opens
    obtain ⟨wf, begun, chain⟩ := ByteStack.beginRepeat_spec sound.blocks.stack
    have housed := wf.blocksBelow_le
    rw [begun] at housed
    refine ⟨wf, chain, ?_⟩
    have start : (Call.startRepeat.origin t.stack).flat = t.flat.stack.begun := begun
    rw [Call.performFlat, after_answer, FlatTape.store_startRepeat t.flat housed, start]
  · have same : c.origin t.stack = t.stack := by
      cases c with
      | startRepeat => exact absurd rfl opens
      | _ => rfl
    rw [same]
    exact ⟨sound.blocks.stack, rfl, FlatTape.store_performFlat opens t.flat⟩

/-- The chain that a call leaves is the one that its transfers leave, with the blocks that were
there and those up to where each of the transfers ended. -/
lemma chain_perform {t : Tape} (sound : t.Sound) (c : Call) :
    (after (c.perform t)).stack.chain = ((c.deposits t).getLastD t.stack).chain ∧
      (after (c.perform t)).stack.chain.blockSize = t.stack.chain.blockSize ∧
      (after (c.perform t)).stack.chain.size = (c.deposits t).foldl (fun blocks s =>
        max blocks (ByteStack.blocksBelow t.stack.chain.blockSize s.location))
          t.stack.chain.size := by
  obtain ⟨wf, chain, store⟩ := origin_spec sound c
  obtain ⟨sound', view⟩ := Tape.perform_commutes c t sound
  obtain ⟨last, left, blockSize, size⟩ := ByteStack.transfers_spec wf (c.writes t.flat)
  have same : (after (c.perform t)).stack.chain =
      ((c.deposits t).getLastD (c.origin t.stack)).chain := by
    refine ByteStack.chain_of_store last sound'.blocks.stack ?_
    rw [Call.deposits, left, ← store, ← view, after_through]
    rfl
  have default : ((c.deposits t).getLastD (c.origin t.stack)).chain =
      ((c.deposits t).getLastD t.stack).chain := by
    cases c.deposits t with
    | nil => exact chain
    | cons => rfl
  rw [chain] at blockSize size
  exact ⟨same.trans default, same ▸ blockSize, same ▸ size⟩

/-- Tapes that calls lead to from a new one, with the place that the transfers on the way have
reached. In between the memory that blocks are taken from may change in any way. -/
inductive Watermark (geometry : Geometry) : Tape → Location → Prop where
  | create {limit : Option Nat} {t : Tape} (created : create geometry limit = .ok t) :
    Watermark geometry t 0
  | call {t : Tape} {high : Location} (c : Call) (run : Watermark geometry t high) :
    Watermark geometry (after (c.perform t))
      ((c.deposits t).foldl (fun high s => max high s.location) high)
  | memory {t : Tape} {high : Location} (m : Memory) (run : Watermark geometry t high) :
    Watermark geometry (t.withMemory m) high

end Tape

/-! ## The highest transfer -/

/-- The blocks below the higher of two locations are the more of both. -/
lemma ByteStack.blocksBelow_max (blockSize : Nat) (l l' : Location) :
    blocksBelow blockSize (max l l') = max (blocksBelow blockSize l) (blocksBelow blockSize l') :=
  Monotone.map_max fun _ _ => blocksBelow_mono blockSize

/-- Blocks up to the ends of all transfers are blocks up to the highest of them. -/
lemma ByteStack.foldl_blocksBelow (blockSize : Nat) (left : List ByteStack) (high : Location) :
    left.foldl (fun blocks s => max blocks (blocksBelow blockSize s.location))
        (blocksBelow blockSize high) =
      blocksBelow blockSize (left.foldl (fun high s => max high s.location) high) := by
  induction left generalizing high with
  | nil => rfl
  | cons s rest ih => rw [List.foldl_cons, List.foldl_cons, ← blocksBelow_max, ih]

/-- The most of what stacks need is at least what there was, and no more than what is enough for
all. -/
lemma ByteStack.le_foldl_max (needed : ByteStack → Nat) (left : List ByteStack) (blocks : Nat) :
    blocks ≤ left.foldl (fun blocks s => max blocks (needed s)) blocks ∧
      ((∀ s ∈ left, needed s ≤ blocks) →
        left.foldl (fun blocks s => max blocks (needed s)) blocks = blocks) := by
  induction left generalizing blocks with
  | nil => exact ⟨Nat.le_refl _, fun _ => rfl⟩
  | cons s rest ih =>
    obtain ⟨le, same⟩ := ih (max blocks (needed s))
    refine ⟨Nat.le_trans (Nat.le_max_left _ _) le, fun enough => ?_⟩
    have first : max blocks (needed s) = blocks := Nat.max_eq_left (enough s List.mem_cons_self)
    rw [first] at same
    rw [List.foldl_cons, first, same fun s mem => enough s (List.mem_cons_of_mem _ mem)]

/-- The blocks of a tape are those below the place that transfers have reached. -/
lemma Tape.Watermark.spec {geometry : Geometry} {t : Tape} {high : Location}
    (run : t.Watermark geometry high) :
    t.Sound ∧ t.stack.chain.blockSize = geometry.blockSize ∧
      t.stack.chain.size = ByteStack.blocksBelow geometry.blockSize high := by
  induction run with
  | @create limit t created =>
    obtain ⟨sound, flat⟩ := create_spec created
    have blockSize : t.stack.chain.blockSize = geometry.blockSize :=
      congrArg (fun f => f.stack.blockSize) flat
    have blocks : t.stack.chain.size = 1 := congrArg (fun f => f.stack.blocks) flat
    have positive : 0 < geometry.blockSize := blockSize ▸ sound.blocks.stack.chain.positive
    refine ⟨sound, blockSize, blocks.trans (Nat.le_antisymm (Nat.le_max_right _ _) ?_)⟩
    exact ByteStack.blocksBelow_le positive (Nat.le_refl 1) (Nat.zero_le _)
  | @call t high c run ih =>
    obtain ⟨sound, blockSize, size⟩ := ih
    obtain ⟨-, blockSize', size'⟩ := chain_perform sound c
    rw [blockSize] at blockSize' size'
    refine ⟨(perform_commutes c t sound).1, blockSize', ?_⟩
    rw [size', size, ByteStack.foldl_blocksBelow]
  | memory m run ih => exact ⟨ih.1.withMemory m, ih.2⟩

/-- Blocks are taken exactly when they are needed. After every run of calls from a new tape, failing
ones among them, there are as many blocks as it takes to get up to the highest end of a transfer so
far, and one at least. A transfer is a byte string that did find room on the byte stack, with or
without a redirect, also one of those that a new level saved before it failed. Whatever call comes
next leaves the chain that its last transfer leaves, and so gives no block back; it takes none where
all of its transfers end within the blocks there are, on the end of the last one among them; pops,
seeks, restarts and closings of levels do not touch the chain. -/
theorem blocks_follow_the_highest_transfer {geometry : Geometry} {t : Tape} {high : Location}
    (run : t.Watermark geometry high) :
    t.stack.chain.size = max 1 ((high + geometry.blockSize - 1) / geometry.blockSize) ∧
      ∀ c : Call,
        (after (c.perform t)).stack.chain = ((c.deposits t).getLastD t.stack).chain ∧
        t.stack.chain.size ≤ (after (c.perform t)).stack.chain.size ∧
        ((∀ s ∈ c.deposits t, s.location ≤ t.stack.chain.size * geometry.blockSize) →
          (after (c.perform t)).stack.chain.size = t.stack.chain.size) ∧
        (c.isPop = true ∨ c.seeks = true ∨ c = .resetRepeat ∨ c = .endRepeat →
          (after (c.perform t)).stack.chain = t.stack.chain) := by
  obtain ⟨sound, blockSize, size⟩ := run.spec
  refine ⟨size.trans (Nat.max_comm _ _), fun c => ?_⟩
  obtain ⟨chain, -, grown⟩ := Tape.chain_perform sound c
  obtain ⟨more, same⟩ := ByteStack.le_foldl_max
    (fun s => ByteStack.blocksBelow t.stack.chain.blockSize s.location) (c.deposits t)
    t.stack.chain.size
  rw [← grown] at more same
  refine ⟨chain, more, fun within => same fun s mem => ?_, fun idle => chain.trans ?_⟩
  · exact ByteStack.blocksBelow_le sound.blocks.stack.chain.positive
      sound.blocks.stack.chain.inhabited (blockSize ▸ within s mem)
  · have none : c.deposits t = [] := by
      cases c with
      | pop | popBit | popControl | popArray | popBytes | resetRepeat | endRepeat | setLocation =>
        rfl
      | _ => simp [Call.isPop, Call.seeks] at idle
    rw [none]
    rfl

/-- A level cannot save the second of two buffers: the first one was saved, in a block of its own,
right behind a byte string that ends with its block. -/
theorem blocks_follow_the_highest_transfer_of_a_failing_save :
    ∃ t : Tape, t.Watermark ⟨4, 4⟩ 8 ∧ t.stack.chain.size = 2 ∧ t.location = 4 := by
  have created : Tape.create ⟨4, 4⟩ (some 2) = .ok _ := rfl
  have run := ((((Tape.Watermark.create created).call (.pushBytes [1, 2, 3, 4] true)).call
    (.push .integer4 5)).call (.push .real8 ⟨7⟩)).call .startRepeat
  obtain ⟨t, high, run, eight, location⟩ : ∃ (t : Tape) (high : Location),
      t.Watermark ⟨4, 4⟩ high ∧ high = 8 ∧ t.location = 4 :=
    ⟨_, _, run, by decide +kernel, by decide +kernel⟩
  subst eight
  exact ⟨t, run, (blocks_follow_the_highest_transfer run).1, location⟩

end AdjointTape

import AdjointTape.Proofs.Growth
import AdjointTape.Proofs.LevelGeometry

/-!
# Tapes that go abreast

Where the cursor is, which levels are open, how far the buffers are filled and how many blocks there
are does not depend on the values that are pushed.  Two tapes of the same shape keep it under the
same calls, whatever their bytes; and one that already has the blocks the other one is still to take
goes the same way and takes none.
-/

open AdjointTape.Action

namespace AdjointTape

/-! ## Byte stacks -/

namespace FlatStack

/-- The same stack but for its bytes and its traffic, with `ahead` blocks at least, which come out
of the same memory. -/
structure Abreast (ahead : Nat) (s t : FlatStack) : Prop where
  cursor : t.cursor = s.cursor
  levels : t.levels = s.levels
  blockSize : t.blockSize = s.blockSize
  blocks : t.blocks = max s.blocks ahead
  memory : t.memory = s.memory.take (t.blocks - s.blocks)

namespace Abreast

variable {ahead : Nat} {s t u : FlatStack}

/-- A stack that has the blocks already is abreast with itself. -/
lemma refl (s : FlatStack) (there : ahead ≤ s.blocks) : Abreast ahead s s :=
  ⟨rfl, rfl, rfl, (Nat.max_eq_left there).symm, by rw [Nat.sub_self]; rfl⟩

variable (abreast : Abreast ahead s t)
include abreast

/-- The second stack has no fewer blocks. -/
lemma blocks_le : s.blocks ≤ t.blocks := abreast.blocks ▸ Nat.le_max_left _ _

/-- Being abreast carries over from the second stack to a third. -/
lemma trans (next : Abreast ahead t u) : Abreast ahead s u := by
  refine ⟨next.cursor.trans abreast.cursor, next.levels.trans abreast.levels,
    next.blockSize.trans abreast.blockSize, ?_, ?_⟩
  · rw [next.blocks, abreast.blocks, Nat.max_assoc, Nat.max_self]
  · have first := abreast.blocks_le
    have second := next.blocks_le
    rw [next.memory, abreast.memory, Memory.take, Memory.take, Memory.take, Nat.add_assoc,
      Nat.add_comm (t.blocks - _), Nat.sub_add_sub_cancel second first]

/-- The cursor and the levels may be moved in both alike. -/
lemma move (cursor : Location) (levels : List RepeatLevel) :
    Abreast ahead { s with cursor, levels } { t with cursor, levels } :=
  ⟨rfl, rfl, abreast.blockSize, abreast.blocks, abreast.memory⟩

/-- A jump to the active `freePush` keeps stacks abreast. -/
lemma redirected : Abreast ahead s.redirected t.redirected := by
  obtain ⟨bytes, cursor, levels, traffic, blockSize, blocks, memory⟩ := s
  obtain ⟨bytes', cursor', levels', traffic', blockSize', blocks', memory'⟩ := t
  obtain rfl : cursor' = cursor := abreast.cursor
  obtain rfl : levels' = levels := abreast.levels
  cases levels' with
  | nil => exact abreast
  | cons level outer =>
    by_cases below : cursor' < level.freePush
    · simp only [FlatStack.redirected, if_pos below]
      exact abreast.move _ _
    · simp only [FlatStack.redirected, if_neg below]
      exact abreast

/-- A jump to the active `backPop` keeps stacks abreast. -/
lemma rejoined : Abreast ahead s.rejoined t.rejoined := by
  obtain ⟨cursor, levels⟩ := rejoined_congr abreast.cursor abreast.levels
  have moved := abreast.move s.rejoined.cursor s.rejoined.levels
  rw [← rejoined_eq s, ← cursor, ← levels, ← rejoined_eq t] at moved
  exact moved

/-- Pushes start at the same place. -/
lemma start (isProtected : Bool) : Abreast ahead (s.start isProtected) (t.start isProtected) := by
  cases isProtected with
  | false => exact abreast
  | true => exact abreast.redirected

/-- The one that is ahead has room where the other one has. -/
lemma hasRoom {l : Location} (room : s.hasRoom l = true) : t.hasRoom l = true := by
  have more := abreast.blocks_le
  rw [FlatStack.hasRoom, decide_eq_true_eq] at room ⊢
  rw [abreast.blockSize, abreast.memory]
  generalize ByteStack.blocksBelow s.blockSize l = needed at room ⊢
  by_cases there : needed ≤ t.blocks
  case pos => exact .inl there
  case neg =>
    obtain few | ⟨small, mapped, room⟩ := room
    · exact absurd (Nat.le_trans few more) there
    · -- both take the same number of blocks together
      have sum : s.memory.live + (t.blocks - s.blocks) + (needed - t.blocks) =
          s.memory.live + (needed - s.blocks) := by omega
      refine .inr ⟨small, mapped, ?_⟩
      rw [Memory.hasRoom, Memory.take, sum]
      exact room

/-- Blocks that are reserved keep stacks abreast. -/
lemma grown (l : Location) : Abreast ahead (s.grown l) (t.grown l) := by
  have more := abreast.blocks_le
  refine ⟨abreast.cursor, abreast.levels, abreast.blockSize, ?_, ?_⟩
  · simp only [FlatStack.grown, abreast.blockSize, abreast.blocks]
    rw [Nat.max_right_comm]
  · simp only [FlatStack.grown, abreast.blockSize, abreast.memory, Memory.take, Nat.add_assoc]
    congr 2
    omega

/-- Byte strings of one length keep stacks abreast. -/
lemma put {data data' : List UInt8} (length : data'.length = data.length) :
    Abreast ahead (s.put data) (t.put data') :=
  ⟨congrArg₂ _ abreast.cursor length, abreast.levels, abreast.blockSize, abreast.blocks,
    abreast.memory⟩

/-- Pushes of one length keep stacks abreast. -/
lemma pushed {data data' : List UInt8} (length : data'.length = data.length)
    (isProtected : Bool) :
    Abreast ahead (s.pushed data isProtected) (t.pushed data' isProtected) := by
  have start := abreast.start isProtected
  have put := (start.grown ((s.start isProtected).cursor + data.length)).put length
  rw [FlatStack.pushed, FlatStack.pushed, start.cursor, length]
  cases isProtected with
  | false => exact put
  | true => exact ⟨put.cursor, put.levels, put.blockSize, put.blocks, put.memory⟩

/-- Pops keep stacks abreast. -/
lemma popped (count : Nat) (isProtected : Bool) :
    Abreast ahead (s.popped count isProtected) (t.popped count isProtected) := by
  have seek : Abreast ahead (s.seek (s.cursor - count)) (t.seek (t.cursor - count)) :=
    ⟨congrArg (· - count) abreast.cursor, abreast.levels, abreast.blockSize, abreast.blocks,
      abreast.memory⟩
  cases isProtected with
  | false => exact seek
  | true => exact seek.rejoined

end Abreast

variable {ahead : Nat}

/-- Where the one push finds room so does the other. -/
lemma together_push {data data' : List UInt8} (length : data'.length = data.length)
    (isProtected : Bool) :
    Together (Abreast ahead) (push data isProtected) (push data' isProtected) := by
  intro s t abreast _ s' run
  rw [push] at run
  split at run
  case isTrue room =>
    obtain ⟨-, rfl⟩ := EStateM.Result.ok.inj run
    refine ⟨(), _, if_pos ?_, abreast.pushed length isProtected⟩
    rw [(abreast.start isProtected).cursor, length]
    exact abreast.hasRoom room
  case isFalse => cases run

/-- A pop asks for the same bytes of both stacks. -/
lemma together_pop (count : Nat) (isProtected : Bool) :
    Together (Abreast ahead) (pop count isProtected) (pop count isProtected) := by
  intro s t abreast _ s' run
  rw [pop] at run
  split at run
  case isTrue => cases run
  case isFalse enough =>
    obtain ⟨-, rfl⟩ := EStateM.Result.ok.inj run
    refine ⟨_, _, if_neg ?_, abreast.popped count isProtected⟩
    rw [abreast.cursor]
    exact enough

/-- A seek leads to the same place in both stacks. -/
lemma together_setLocation (l : Location) :
    Together (Abreast ahead) (setLocation l) (setLocation l) := by
  intro s t abreast _ s' run
  rw [setLocation] at run
  split at run
  case isTrue => cases run
  case isFalse within =>
    obtain ⟨-, rfl⟩ := EStateM.Result.ok.inj run
    refine ⟨_, _, if_neg (Nat.not_lt.2 ?_), ?_⟩
    · rw [abreast.blockSize]
      exact Nat.le_trans (Nat.le_of_not_lt within) (Nat.mul_le_mul_right _ abreast.blocks_le)
    · exact ⟨rfl, abreast.levels, abreast.blockSize, abreast.blocks, abreast.memory⟩

/-- Chunks of the same lengths, one after the other. -/
lemma together_pushEach {chunk chunk' : Kind → List UInt8}
    (lengths : ∀ kind, (chunk' kind).length = (chunk kind).length) (kinds : List Kind) :
    Together (Abreast ahead) (FlatTape.pushEach (kinds.map chunk))
      (FlatTape.pushEach (kinds.map chunk')) := by
  induction kinds with
  | nil => exact .ret () ()
  | cons kind _ ih => exact (together_push (lengths kind) false).seq fun _ _ => ih

end FlatStack

/-! ## Tapes -/

namespace FlatTape

/-- The same tape but for the bytes, the buffered values and what is counted, with `ahead` blocks at
least, which come out of the same memory. -/
structure Abreast (ahead : Nat) (f g : FlatTape) : Prop where
  stack : f.stack.Abreast ahead g.stack
  fill : g.fill = f.fill
  marks : g.marks = f.marks
  capacity : g.capacity = f.capacity

variable {ahead : Nat} {f g h : FlatTape}

/-- The marks follow from the fill indices. -/
lemma fill_congr (same : ∀ kind, g.index kind = f.index kind) : g.fill = f.fill := by
  simp only [FlatTape.fill, same]

namespace Abreast

/-- A tape that has the blocks already is abreast with itself. -/
lemma refl (f : FlatTape) (there : ahead ≤ f.stack.blocks) : Abreast ahead f f :=
  ⟨.refl _ there, rfl, rfl, rfl⟩

variable (abreast : Abreast ahead f g)
include abreast

/-- Being abreast carries over from the second tape to a third. -/
lemma trans (next : Abreast ahead g h) : Abreast ahead f h :=
  ⟨abreast.stack.trans next.stack, next.fill.trans abreast.fill, next.marks.trans abreast.marks,
    next.capacity.trans abreast.capacity⟩

/-- Every buffer is filled as far. -/
lemma index (kind : Kind) : g.index kind = f.index kind := by
  rw [← get_fill, ← get_fill, abreast.fill]

/-- As many values are buffered. -/
lemma length (k : ScalarKind) : (g.valid k).length = (f.valid k).length := by
  have same := abreast.index k.toKind
  rw [FlatTape.index, FlatTape.index, ScalarKind.scalar?_toKind] at same
  exact same

/-- As many bits are buffered. -/
lemma bits : g.bits.index = f.bits.index := abreast.index .bit

/-- Tapes stay abreast when their stacks do. -/
lemma onStack {s t : FlatStack} (stack : s.Abreast ahead t) :
    Abreast ahead { f with stack := s } { g with stack := t } :=
  ⟨stack, abreast.fill, abreast.marks, abreast.capacity⟩

/-- Buffers that are filled as far keep tapes abreast. -/
lemma hold (k : ScalarKind) {values values' : List k.Carrier}
    (length : values'.length = values.length) :
    Abreast ahead (f.hold k values) (g.hold k values') := by
  refine ⟨abreast.stack, fill_congr fun kind => ?_, abreast.marks, abreast.capacity⟩
  rw [FlatTape.index, FlatTape.index]
  cases kind.scalar? with
  | some j =>
    dsimp only
    by_cases same : j = k
    case pos =>
      subst same
      rw [valid_hold, valid_hold, length]
    case neg => rw [valid_hold_of_ne _ _ same, valid_hold_of_ne _ _ same, abreast.length]
  | none => exact abreast.bits

/-- Bit buffers that are filled as far keep tapes abreast. -/
lemma withBits {bits bits' : BitBuffer} (index : bits'.index = bits.index) :
    Abreast ahead { f with bits } { g with bits := bits' } := by
  refine ⟨abreast.stack, fill_congr fun kind => ?_, abreast.marks, abreast.capacity⟩
  rw [FlatTape.index, FlatTape.index]
  cases kind.scalar? with
  | some k => exact abreast.length k
  | none => exact index

/-- What is counted does not matter. -/
lemma count (k : ScalarKind) (spilled : Bool) :
    Abreast ahead (f.countScalar k spilled) (g.countScalar k spilled) :=
  ⟨abreast.stack, abreast.fill, abreast.marks, abreast.capacity⟩

end Abreast

/-! ### Scalars and bits -/

/-- A call on the stacks keeps tapes abreast when it keeps the stacks so. -/
lemma together_onStack {α β : Type} {x : Action FlatStack α} {y : Action FlatStack β}
    (together : Together (FlatStack.Abreast ahead) x y) :
    Together (Abreast ahead) (onStack x) (onStack y) := by
  intro f g abreast a f' run
  cases first : x f.stack with
  | ok a' stack =>
    obtain ⟨b, stack', run', abreast'⟩ := together _ _ abreast.stack _ _ first
    rw [onStack_ok first] at run
    obtain ⟨-, rfl⟩ := EStateM.Result.ok.inj run
    exact ⟨b, _, onStack_ok run', abreast.onStack abreast'⟩
  | error e stack =>
    rw [onStack_error first] at run
    cases run

/-- A scalar goes into both buffers, or fills both. -/
lemma together_push (k : ScalarKind) (value : k.Carrier) :
    Together (Abreast ahead) (push k value) (push k value) := by
  intro f g abreast _ f' run
  have length := abreast.length k
  by_cases room : (f.valid k).length + 1 < f.capacity
  case pos =>
    rw [push_room room] at run
    obtain ⟨-, rfl⟩ := EStateM.Result.ok.inj run
    have room' : (g.valid k).length + 1 < g.capacity := by
      rw [length, abreast.capacity]
      exact room
    refine ⟨_, _, push_room room', (abreast.hold k ?_).count k false⟩
    rw [List.length_cons, List.length_cons, length]
  case neg =>
    have full : ¬ (g.valid k).length + 1 < g.capacity := by
      rw [length, abreast.capacity]
      exact room
    rw [push_spill room] at run
    rw [push_spill full]
    have size : (k.encodeAll (value :: g.valid k).reverse).length =
        (k.encodeAll (value :: f.valid k).reverse).length := by
      rw [k.length_encodeAll, k.length_encodeAll, List.length_reverse, List.length_reverse,
        List.length_cons, List.length_cons, length]
    exact (together_onStack (FlatStack.together_push size true)).seq
      (fun _ _ => .move fun _ _ abreast => (abreast.hold k rfl).count k true) f g abreast _ f' run

/-- Both buffers take back as many values, whatever they are. -/
lemma together_refill (k : ScalarKind) (bytes bytes' : List UInt8) :
    Together (Abreast ahead) (refill k bytes) (refill k bytes') := by
  refine .move fun f g abreast => abreast.hold k ?_
  rw [List.length_tail, List.length_tail, List.length_reverse, List.length_reverse,
    Array.length_toList, Array.length_toList, k.size_decodeAll, k.size_decodeAll, abreast.capacity]

/-- A scalar comes out of both buffers, or both are taken back first. -/
lemma together_pop (k : ScalarKind) : Together (Abreast ahead) (pop k) (pop k) := by
  intro f g abreast _ f' run
  have length := abreast.length k
  cases held : f.valid k with
  | cons value rest =>
    rw [held, List.length_cons] at length
    obtain ⟨value', rest', held'⟩ := List.exists_cons_of_length_eq_add_one length
    rw [held', List.length_cons] at length
    rw [pop_held held] at run
    obtain ⟨-, rfl⟩ := EStateM.Result.ok.inj run
    exact ⟨_, _, pop_held held', abreast.hold k (Nat.succ.inj length)⟩
  | nil =>
    rw [held] at length
    have empty : g.valid k = [] := List.length_eq_zero_iff.1 length
    rw [pop_refill held] at run
    rw [pop_refill empty, abreast.capacity]
    exact (together_onStack (FlatStack.together_pop _ true)).seq
      (together_refill k) f g abreast _ f' run

/-- A bit goes into both words, or fills both. -/
lemma together_pushBit (bit : Bool) : Together (Abreast ahead) (pushBit bit) (pushBit bit) := by
  intro f g abreast _ f' run
  have index := abreast.bits
  by_cases full : BitBuffer.wordBits ≤ f.bits.index + 1
  case pos =>
    rw [pushBit_spill full] at run
    rw [pushBit_spill (index ▸ full)]
    have size : (BitBuffer.encode (BitBuffer.append g.bits.word bit)).length =
        (BitBuffer.encode (BitBuffer.append f.bits.word bit)).length :=
      (LittleEndian.length_encode 4 _).trans (LittleEndian.length_encode 4 _).symm
    exact (together_onStack (FlatStack.together_push size true)).seq
      (fun _ _ => .move fun _ _ abreast => abreast.withBits rfl) f g abreast _ f' run
  case neg =>
    rw [pushBit_room full] at run
    obtain ⟨-, rfl⟩ := EStateM.Result.ok.inj run
    exact ⟨_, _, pushBit_room (index ▸ full), abreast.withBits (congrArg (· + 1) index)⟩

/-- Both words are taken back, whatever their bits are. -/
lemma together_refillBits (bytes bytes' : List UInt8) :
    Together (Abreast ahead) (refillBits bytes) (refillBits bytes') :=
  .move fun _ _ abreast => abreast.withBits rfl

/-- A bit comes out of both words, or both are taken back first. -/
lemma together_popBit : Together (Abreast ahead) popBit popBit := by
  intro f g abreast _ f' run
  have index := abreast.bits
  cases held : f.bits.index with
  | succ rest =>
    rw [popBit_held held] at run
    obtain ⟨-, rfl⟩ := EStateM.Result.ok.inj run
    exact ⟨_, _, popBit_held (index.trans held), abreast.withBits rfl⟩
  | zero =>
    rw [popBit_refill held] at run
    rw [popBit_refill (index.trans held)]
    exact (together_onStack (FlatStack.together_pop 4 true)).seq together_refillBits f g abreast _
      f' run

/-- Bits keep tapes abreast one by one. -/
lemma together_pushBits (bits : List Bool) :
    Together (Abreast ahead) (pushBits bits) (pushBits bits) := by
  induction bits with
  | nil => exact .ret () ()
  | cons bit rest ih => exact (together_pushBit bit).seq fun _ _ => ih

/-- Bits are popped from both tapes, whatever they are. -/
lemma together_popBits (count value value' : Nat) :
    Together (Abreast ahead) (popBits count value) (popBits count value') := by
  induction count generalizing value value' with
  | zero => exact .ret value value'
  | succ count ih => exact together_popBit.seq fun _ _ => ih _ _

/-! ### Repeat levels -/

/-- A level saves as many bytes of both tapes. -/
lemma together_startRepeat : Together (Abreast ahead) startRepeat startRepeat := by
  intro f g abreast _ f' run
  have cursor := abreast.stack.cursor
  have begun : f.stack.begun.Abreast ahead g.stack.begun := by
    have moved := abreast.stack.move (max f.stack.cursor (FlatStack.floor f.stack.levels))
      f.stack.levels
    rw [FlatStack.begun, FlatStack.begun, cursor, abreast.stack.levels]
    exact ⟨rfl, abreast.stack.levels, moved.blockSize, moved.blocks, moved.memory⟩
  rw [startRepeat] at run ⊢
  -- buffers that are filled alike are saved in as many bytes
  have lengths (kind : Kind) : (g.chunk kind).length = (f.chunk kind).length := by
    rw [length_chunk, length_chunk, abreast.fill]
  cases saved : pushEach (Kind.all.map f.chunk) f.stack.begun with
  | ok _ s =>
    obtain ⟨_, t, saved', same⟩ :=
      FlatStack.together_pushEach lengths Kind.all _ _ begun _ s saved
    simp only [saved] at run
    obtain ⟨-, rfl⟩ := EStateM.Result.ok.inj run
    simp only [saved']
    refine ⟨_, _, rfl, ?_, abreast.fill, congrArg₂ _ abreast.fill abreast.marks,
      abreast.capacity⟩
    refine ⟨cursor, ?_, same.blockSize, same.blocks, same.memory⟩
    simp only [FlatStack.committed, cursor, same.cursor, same.levels]
  | error e s =>
    simp only [saved] at run
    cases run

/-- As many values of a kind are taken back on both tapes. -/
lemma Abreast.takeBack (abreast : Abreast ahead f g) (kind : Kind) (count : Nat) :
    Abreast ahead (f.takeBack kind count) (g.takeBack kind count) := by
  rw [FlatTape.takeBack, FlatTape.takeBack]
  cases kind.scalar? with
  | some k =>
    refine (abreast.onStack (abreast.stack.popped _ false)).hold k ?_
    rw [List.length_reverse, List.length_reverse, Array.length_toList, Array.length_toList,
      k.size_decodeAll, k.size_decodeAll]
  | none =>
    dsimp only
    split
    case isTrue => exact abreast.withBits rfl
    case isFalse => exact (abreast.onStack (abreast.stack.popped 4 false)).withBits rfl

/-- Kind by kind as many values are taken back on both tapes. -/
lemma Abreast.takeBackEach (abreast : Abreast ahead f g) (marks : Marks) (kinds : List Kind) :
    Abreast ahead (f.takeBackEach marks kinds) (g.takeBackEach marks kinds) := by
  induction kinds generalizing f g with
  | nil => exact abreast
  | cons kind rest ih => exact ih (abreast.takeBack kind _)

/-- A restart leads both tapes back to the same place. -/
lemma together_resetRepeat : Together (Abreast ahead) resetRepeat resetRepeat := by
  intro f g abreast _ f' run
  cases levels : f.stack.levels with
  | nil =>
    simp only [resetRepeat, levels] at run
    cases run
  | cons level outer =>
    cases marked : f.marks with
    | nil =>
      simp only [resetRepeat, levels, marked] at run
      cases run
    | cons marks rest =>
      rw [resetRepeat_eq levels marked] at run
      obtain ⟨-, rfl⟩ := EStateM.Result.ok.inj run
      have run' := resetRepeat_eq (abreast.stack.levels.trans levels) (abreast.marks.trans marked)
      have rewound : (f.stack.rewound level outer).Abreast ahead (g.stack.rewound level outer) :=
        abreast.stack.move _ _
      have restored := (abreast.onStack rewound).takeBackEach marks Kind.all.reverse
      refine ⟨_, _, run', restored.onStack ?_⟩
      exact ⟨rfl, restored.stack.levels, restored.stack.blockSize, restored.stack.blocks,
        restored.stack.memory⟩

/-- Closing a level leads both tapes back to the same place. -/
lemma together_endRepeat : Together (Abreast ahead) endRepeat endRepeat := by
  intro f g abreast _ f' run
  rw [endRepeat] at run ⊢
  rw [abreast.stack.levels]
  cases levels : f.stack.levels with
  | nil =>
    rw [levels] at run
    cases run
  | cons level outer =>
    rw [levels] at run
    obtain ⟨-, rfl⟩ := EStateM.Result.ok.inj run
    have moved := abreast.stack.move (level.backPop.getD f.stack.cursor) outer
    refine ⟨_, _, rfl, ?_, abreast.fill, congrArg List.tail abreast.marks, abreast.capacity⟩
    rw [FlatStack.ended, FlatStack.ended, abreast.stack.cursor]
    exact moved.rejoined

/-- Every call that succeeds succeeds on a tape that goes abreast, and leaves tapes that do. -/
lemma together_performFlat (c : Call) :
    Together (Abreast ahead) c.performFlat c.performFlat := by
  cases c with
  | push k value => exact (together_push k value).seq fun _ _ => .ret _ _
  | pop k => exact (together_pop k).seq fun _ _ => .ret _ _
  | pushBit bit => exact (together_pushBit bit).seq fun _ _ => .ret _ _
  | popBit => exact together_popBit.seq fun _ _ => .ret _ _
  | pushControl value width =>
    rw [Call.performFlat]
    split
    case isTrue => exact (together_pushBits _).seq fun _ _ => .ret _ _
    case isFalse => exact (Together.fail _ _).seq fun _ _ => .ret _ _
  | popControl width =>
    rw [Call.performFlat]
    split
    case isTrue => exact (together_popBits width 0 0).seq fun _ _ => .ret _ _
    case isFalse => exact (Together.fail _ _).seq fun _ _ => .ret _ _
  | pushArray k values =>
    exact (together_onStack (FlatStack.together_push rfl true)).seq fun _ _ => .ret _ _
  | popArray k count =>
    exact (together_onStack (FlatStack.together_pop _ true)).seq fun _ _ => .ret _ _
  | pushBytes data isProtected =>
    exact (together_onStack (FlatStack.together_push rfl isProtected)).seq fun _ _ => .ret _ _
  | popBytes count isProtected =>
    exact (together_onStack (FlatStack.together_pop count isProtected)).seq fun _ _ => .ret _ _
  | startRepeat => exact together_startRepeat.seq fun _ _ => .ret _ _
  | resetRepeat => exact together_resetRepeat.seq fun _ _ => .ret _ _
  | endRepeat => exact together_endRepeat.seq fun _ _ => .ret _ _
  | setLocation l =>
    exact (together_onStack (FlatStack.together_setLocation l)).seq fun _ _ => .ret _ _

end FlatTape

end AdjointTape

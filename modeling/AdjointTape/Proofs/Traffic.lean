import AdjointTape.Proofs.ControlTags

/-!
# Traffic

A tape counts the bytes that protected pushes put on the stack in one counter.  In another one,
which has a sign, it counts the bytes of the scalars that were buffered and takes away those of
every buffer that spilled.  A buffer that was taken back and spills again is counted twice in the
first counter and makes the second one smaller; their sum counts every scalar once.  Where a counter
leaves its range, a program that is built to stop does so; as long as it has not been stopped, the
counters are exact.
-/

open AdjointTape.Action

namespace AdjointTape

/-! ## Accounts -/

/-- What was pushed on a tape, in bytes and in words. -/
structure Account where
  /-- Bytes of scalars. -/
  scalars : Nat := 0
  /-- Bytes of buffers that were full and spilled. -/
  spilled : Nat := 0
  /-- Bytes of arrays and of protected byte strings. -/
  bulk : Nat := 0
  /-- Words of bits that were full and spilled. -/
  words : Nat := 0
  deriving DecidableEq

namespace Account

instance : Zero Account := ⟨{}⟩

instance : Add Account where
  add a b :=
    { scalars := a.scalars + b.scalars
      spilled := a.spilled + b.spilled
      bulk := a.bulk + b.bulk
      words := a.words + b.words }

/-- Every byte that was pushed, once. -/
def total (a : Account) : Nat := a.scalars + a.bulk + 4 * a.words

/-- The bytes that protected transfers moved onto the stack. -/
def moved (a : Account) : Nat := a.spilled + a.bulk + 4 * a.words

/-- The bytes that were moved fit the counters: those that protected transfers moved onto the stack
stay below `2 ^ 63`, and so do those that scalars moved into buffers, less those that the buffers
spilled. -/
structure Fits (a : Account) : Prop where
  moved : a.moved < 2 ^ 63
  buffered : a.scalars < a.spilled + 2 ^ 63

instance (a : Account) : Decidable a.Fits :=
  decidable_of_iff (a.moved < 2 ^ 63 ∧ a.scalars < a.spilled + 2 ^ 63)
    ⟨fun ⟨moved, buffered⟩ => ⟨moved, buffered⟩, fun fits => ⟨fits.moved, fits.buffered⟩⟩

/-- The account of a call with an outcome: nothing is counted when it fails. -/
def due {α : Type} (a : Account) : Except Failure α → Account
  | .ok _ => a
  | .error _ => 0

/-- Totals add up. -/
lemma total_add (a b : Account) : (a + b).total = a.total + b.total := by
  change a.scalars + b.scalars + (a.bulk + b.bulk) + 4 * (a.words + b.words) = _
  rw [total, total]
  lia

/-- What was moved adds up. -/
lemma moved_add (a b : Account) : (a + b).moved = a.moved + b.moved := by
  change a.spilled + b.spilled + (a.bulk + b.bulk) + 4 * (a.words + b.words) = _
  rw [moved, moved]
  lia

end Account

/-- What a call pushes when it succeeds on buffers that are filled up to `fill` and spill at
`capacity` values: a scalar, and with it a buffer that gets full; the words that its bits fill; all
of an array and of a protected byte string. Other calls push nothing that counts. -/
def Call.account (capacity : Nat) (fill : Marks) : Call → Account
  | .push k _ =>
    { scalars := k.width
      spilled := if fill.get k.toKind + 1 < capacity then 0 else capacity * k.width }
  | .pushBit _ => { words := (fill.bit + 1) / BitBuffer.wordBits }
  | .pushControl _ width => { words := (fill.bit + width) / BitBuffer.wordBits }
  | .pushArray k values => { bulk := values.length * k.width }
  | .pushBytes data true => { bulk := data.length }
  | _ => 0

/-- Only scalars are buffered. -/
lemma Call.scalars_account {c : Call} (other : ∀ k value, c ≠ .push k value)
    (capacity : Nat) (fill : Marks) : (c.account capacity fill).scalars = 0 := by
  cases c with
  | push k value => exact absurd rfl (other k value)
  | pushBytes data isProtected => cases isProtected <;> rfl
  | _ => rfl

/-- A program that goes on performs the call. -/
lemma Call.performIn_wraps (c : Call) : c.performIn .wraps = c.perform := by
  funext t
  rw [performIn]
  cases c.perform t <;> rfl

namespace Tape

/-- What a call on a tape adds to the account of the tape. -/
def adds (t : Tape) (c : Call) : Account :=
  (c.account t.geometry.capacity t.area.marks).due (outcome (c.perform t))

/-- Tapes that calls lead to from a new one, with the account of the calls, in a program that has
not been stopped in any of them. In between the memory that blocks are taken from may change in any
way. -/
inductive Accounted (o : Overflow) : Tape → Account → Prop where
  | create {geometry : Geometry} {limit : Option Nat} {t : Tape}
    (created : create geometry limit = .ok t) : Accounted o t 0
  | call {t : Tape} {a : Account} (c : Call) (accounted : Accounted o t a)
    (goes : c.performIn o t = c.perform t) : Accounted o (after (c.performIn o t)) (a + t.adds c)
  | memory {t : Tape} {a : Account} (m : Memory) (accounted : Accounted o t a) :
    Accounted o (t.withMemory m) a

/-- Tapes with an account are reached by calls. -/
lemma Accounted.reachable {o : Overflow} {t : Tape} {a : Account} (accounted : t.Accounted o a) :
    t.Reachable := by
  induction accounted with
  | create created => exact .create created
  | call c _ goes ih =>
    rw [goes]
    exact .call c ih
  | memory m _ ih => exact .memory m ih

/-- Every tape that is reached by calls has an account in a program that goes on. -/
lemma Reachable.accounted {t : Tape} (reachable : t.Reachable) :
    ∃ a, t.Accounted .wraps a := by
  induction reachable with
  | create created => exact ⟨0, .create created⟩
  | @call t c _ ih =>
    obtain ⟨a, accounted⟩ := ih
    have next := accounted.call c (congrFun c.performIn_wraps t)
    rw [c.performIn_wraps] at next
    exact ⟨_, next⟩
  | memory m _ ih =>
    obtain ⟨a, accounted⟩ := ih
    exact ⟨a, accounted.memory m⟩

end Tape

/-! ## Traffic on flat memory -/

namespace FlatStack

/-- A call that is no traffic. -/
def Silent {α : Type} (call : Action FlatStack α) : Prop :=
  Steps (fun s s' => s'.traffic = s.traffic) call

/-- An unprotected push is no traffic. -/
lemma silent_push (data : List UInt8) : Silent (push data false) := by
  intro s
  rw [push]
  split <;> rfl

/-- A pop is no traffic. -/
lemma silent_pop (count : Nat) (isProtected : Bool) : Silent (pop count isProtected) := by
  intro s
  rw [pop]
  split
  case isTrue => rfl
  case isFalse =>
    cases isProtected with
    | false => rfl
    | true =>
      have same := congrArg FlatStack.traffic (rejoined_eq (s.seek (s.cursor - count)))
      exact same

/-- Moving the cursor is no traffic. -/
lemma silent_setLocation (l : Location) : Silent (setLocation l) := by
  intro s
  rw [setLocation]
  split <;> rfl

/-- A protected push counts its bytes. -/
lemma traffic_pushed (data : List UInt8) (s : FlatStack) :
    (s.pushed data true).traffic = s.traffic + UInt64.ofNat data.length := by
  have same := congrArg FlatStack.traffic (redirected_eq s)
  exact congrArg (· + UInt64.ofNat data.length) same

end FlatStack

namespace FlatTape

/-- Both counters grow by what an account says. -/
structure Counts (a : Account) (f f' : FlatTape) : Prop where
  traffic : f'.stack.traffic = f.stack.traffic + UInt64.ofNat a.moved
  buffered : f'.buffered = f.buffered + Int64.ofNat a.scalars - Int64.ofNat a.spilled

/-- Neither counter changes. -/
structure Quiet (f f' : FlatTape) : Prop where
  traffic : f'.stack.traffic = f.stack.traffic
  buffered : f'.buffered = f.buffered

/-- Nothing was counted where nothing was done. -/
lemma Quiet.refl (f : FlatTape) : Quiet f f := ⟨rfl, rfl⟩

/-- Quiet steps can be put together. -/
lemma Quiet.trans {f g h : FlatTape} (first : Quiet f g) (next : Quiet g h) : Quiet f h :=
  ⟨next.traffic.trans first.traffic, next.buffered.trans first.buffered⟩

/-- A step that counts the empty account is quiet. -/
lemma quiet_iff {f f' : FlatTape} : Counts 0 f f' ↔ Quiet f f' := by
  have traffic : f.stack.traffic + UInt64.ofNat (Account.moved 0) = f.stack.traffic :=
    UInt64.add_zero _
  have buffered : f.buffered + Int64.ofNat (Account.scalars 0) - Int64.ofNat (Account.spilled 0) =
      f.buffered := (Int64.sub_zero _).trans (Int64.add_zero _)
  constructor
  · intro counts
    exact ⟨counts.traffic.trans traffic, counts.buffered.trans buffered⟩
  · intro quiet
    exact ⟨quiet.traffic.trans traffic.symm, quiet.buffered.trans buffered.symm⟩

/-! ### Calls that are no traffic -/

/-- A call on the stack that is no traffic is quiet. -/
lemma quiet_onStack {α : Type} {call : Action FlatStack α} (silent : FlatStack.Silent call) :
    Steps Quiet (onStack call) := by
  intro f
  have traffic := silent f.stack
  cases run : call f.stack with
  | ok a stack =>
    rw [run] at traffic
    rw [onStack_ok run]
    exact ⟨traffic, rfl⟩
  | error e stack =>
    rw [run] at traffic
    rw [onStack_error run]
    exact ⟨traffic, rfl⟩

/-- One quiet call behind another one is quiet. -/
lemma quiet_seq {α β : Type} {x : Action FlatTape α} {g : α → Action FlatTape β}
    (hx : Steps Quiet x) (hg : ∀ a, Steps Quiet (g a)) : Steps Quiet (x >>= g) :=
  Steps.seq (fun _ _ _ first next => first.trans next) hx hg

/-- Popping a scalar is quiet. -/
lemma quiet_pop (k : ScalarKind) : Steps Quiet (pop k) := by
  intro f
  cases held : f.valid k with
  | cons value rest =>
    rw [pop_held held]
    exact ⟨rfl, rfl⟩
  | nil =>
    rw [pop_refill held]
    exact quiet_seq (quiet_onStack (FlatStack.silent_pop _ true)) (fun _ _ => ⟨rfl, rfl⟩) f

/-- Popping a bit is quiet. -/
lemma quiet_popBit : Steps Quiet popBit := by
  intro f
  cases held : f.bits.index with
  | succ index =>
    rw [popBit_held held]
    exact ⟨rfl, rfl⟩
  | zero =>
    rw [popBit_refill held]
    exact quiet_seq (quiet_onStack (FlatStack.silent_pop 4 true)) (fun _ _ => ⟨rfl, rfl⟩) f

/-- Popping bits is quiet. -/
lemma quiet_popBits (count value : Nat) : Steps Quiet (popBits count value) := by
  induction count generalizing value with
  | zero => exact Quiet.refl
  | succ count ih => exact quiet_seq quiet_popBit fun _ => ih _

/-- Opening a level is quiet. -/
lemma quiet_startRepeat : Steps Quiet startRepeat := by
  intro f
  have traffic := steps_pushEach (Kind.all.map f.chunk) f.stack.begun
  rw [startRepeat]
  cases run : pushEach (Kind.all.map f.chunk) f.stack.begun with
  | ok _ stack =>
    rw [run] at traffic
    exact ⟨traffic, rfl⟩
  | error e stack =>
    rw [run] at traffic
    exact ⟨traffic, rfl⟩

/-- Taking back a kind is quiet. -/
lemma quiet_takeBack (kind : Kind) (count : Nat) (f : FlatTape) :
    Quiet f (f.takeBack kind count) := by
  rw [takeBack]
  split
  case h_1 => exact ⟨rfl, rfl⟩
  case h_2 => split <;> exact ⟨rfl, rfl⟩

/-- Taking back all kinds is quiet. -/
lemma quiet_takeBackEach (marks : Marks) (kinds : List Kind) (f : FlatTape) :
    Quiet f (f.takeBackEach marks kinds) := by
  induction kinds generalizing f with
  | nil => exact .refl f
  | cons kind rest ih => exact (quiet_takeBack kind _ f).trans (ih _)

/-- Restarting a level is quiet. -/
lemma quiet_resetRepeat : Steps Quiet resetRepeat := by
  intro f
  rw [resetRepeat]
  split
  case h_1 => exact .refl f
  case h_2 => exact ⟨rfl, rfl⟩
  case h_3 level outer marks _ _ _ =>
    have back := quiet_takeBackEach marks Kind.all.reverse
      { f with stack := f.stack.rewound level outer }
    exact ⟨back.traffic, back.buffered⟩

/-- Closing a level is quiet. -/
lemma quiet_endRepeat : Steps Quiet endRepeat := by
  intro f
  rw [endRepeat]
  split
  case h_1 => exact .refl f
  case h_2 level outer _ =>
    have same := congrArg FlatStack.traffic (FlatStack.rejoined_eq
      { f.stack with cursor := level.backPop.getD f.stack.cursor, levels := outer })
    exact ⟨same, rfl⟩

/-! ### Calls that count -/

/-- A call on sound tapes that counts what an account says when it succeeds, and nothing when it
fails. -/
def Costs {α : Type} (account : FlatTape → Account) (call : Action FlatTape α) : Prop :=
  ∀ f : FlatTape, f.Sound → Counts ((account f).due (outcome (call f))) f (after (call f))

/-- The form of the answer costs nothing. -/
lemma Costs.answer {α β : Type} {account : FlatTape → Account} {x : Action FlatTape α}
    (costs : Costs account x) (g : α → β) : Costs account (x >>= fun a => pure (g a)) := by
  intro f sound
  have counts := costs f sound
  cases run : x f with
  | ok a f' =>
    rw [run] at counts
    rw [bind_ok run]
    exact counts
  | error e f' =>
    rw [run] at counts
    rw [bind_error run]
    exact counts

/-- A quiet call costs nothing. -/
lemma costs_quiet {α : Type} {call : Action FlatTape α} (quiet : Steps Quiet call) :
    Costs (fun _ => 0) call := by
  intro f _
  have counts := quiet_iff.2 (quiet f)
  cases run : call f with
  | ok a f' =>
    rw [run] at counts
    exact counts
  | error e f' =>
    rw [run] at counts
    exact counts

/-- A byte string that is pushed counts its bytes. -/
lemma counts_bulk (data : List UInt8) (f : FlatTape) :
    Counts { bulk := data.length } f { f with stack := f.stack.pushed data true } := by
  refine ⟨?_, ((Int64.sub_zero _).trans (Int64.add_zero _)).symm⟩
  have bytes : Account.moved { bulk := data.length } = data.length := Nat.zero_add _
  rw [bytes]
  exact FlatStack.traffic_pushed data f.stack

/-- Pushing a byte string costs its bytes. -/
lemma costs_onStack_push (data : List UInt8) :
    Costs (fun _ => { bulk := data.length }) (onStack (FlatStack.push data true)) := by
  intro f _
  obtain run | ⟨blocks, blockSize, run⟩ := onStack_push_cases data true f
  · rw [run]
    exact counts_bulk data f
  · rw [run]
    exact quiet_iff.2 (.refl f)

/-- A scalar costs its bytes, and those of its buffer when that spills. -/
lemma costs_push (k : ScalarKind) (value : k.Carrier) :
    Costs (fun f => Call.account f.capacity f.fill (.push k value)) (push k value) := by
  intro f sound
  have index : f.fill.get k.toKind = (f.valid k).length := by
    rw [get_fill, FlatTape.index, ScalarKind.scalar?_toKind]
  simp only [Call.account, index]
  by_cases room : (f.valid k).length + 1 < f.capacity
  case pos =>
    rw [push_room room, if_pos room]
    exact ⟨(UInt64.add_zero _).symm, (Int64.sub_zero _).symm⟩
  case neg =>
    rw [if_neg room]
    have length : (k.encodeAll (value :: f.valid k).reverse).length = f.capacity * k.width := by
      have full : (f.valid k).length + 1 = f.capacity :=
        Nat.le_antisymm (sound.roomy.valid k) (Nat.le_of_not_lt room)
      rw [k.length_encodeAll, List.length_reverse, List.length_cons, full]
    obtain run | ⟨blocks, blockSize, run⟩ := push_full_cases value room
    · rw [run]
      have traffic := FlatStack.traffic_pushed (k.encodeAll (value :: f.valid k).reverse) f.stack
      rw [length] at traffic
      exact ⟨traffic, rfl⟩
    · rw [run]
      exact quiet_iff.2 (.refl f)

/-- Bits count by the words that they fill. -/
lemma costs_pushBits (bits : List Bool) (short : bits.length ≤ BitBuffer.wordBits) :
    Costs (fun f => { words := (f.bits.index + bits.length) / BitBuffer.wordBits })
      (pushBits bits) := by
  intro f sound
  beta_reduce
  have spec := pushBits_spec bits sound.roomy.bits short
  generalize pushBits bits f = r at spec
  cases spec with
  | held room =>
    rw [Nat.div_eq_of_lt room]
    exact quiet_iff.2 ⟨rfl, rfl⟩
  | @spilled first rest last full =>
    -- the bits behind the full word are fewer than another word takes
    rw [List.length_append, List.length_cons] at short ⊢
    have one : (f.bits.index + (first.length + (rest.length + 1))) / BitBuffer.wordBits = 1 := by
      rw [BitBuffer.wordBits] at full short ⊢
      lia
    generalize BitBuffer.append (f.bits.appendAll first).word last = word
    have bulk := counts_bulk (BitBuffer.encode word) f
    rw [BitBuffer.encode, LittleEndian.length_encode 4 word.toNat] at bulk
    rw [one]
    exact ⟨bulk.traffic, bulk.buffered⟩
  | stuck => exact quiet_iff.2 ⟨rfl, rfl⟩

/-- Every call counts what its account says. -/
lemma costs_performFlat (c : Call) :
    Costs (fun f => c.account f.capacity f.fill) c.performFlat := by
  cases c with
  | push k value => exact (costs_push k value).answer _
  | pushBit bit =>
    have costs := costs_pushBits [bit] (Nat.le_add_left 1 31)
    rw [pushBits_singleton] at costs
    exact costs.answer _
  | pushControl value width =>
    have length := length_controlBits (width - 1) value
    by_cases range : 1 ≤ width ∧ width ≤ 8
    case pos =>
      have costs := costs_pushBits (Tape.controlBits (width - 1) value)
        (by rw [length, BitBuffer.wordBits]; lia)
      rw [length, Nat.sub_add_cancel range.1] at costs
      have performs : (Call.pushControl value width).performFlat = do
          FlatTape.pushBits (Tape.controlBits (width - 1) value)
          return .unit := by
        rw [Call.performFlat, if_pos range]
      rw [performs]
      exact costs.answer _
    case neg =>
      intro f _
      have fails : (Call.pushControl value width).performFlat f =
          .error (.invalidControlWidth width) f := by
        rw [Call.performFlat, if_neg range]
        rfl
      rw [fails]
      exact quiet_iff.2 (.refl f)
  | pushArray k values =>
    have costs := costs_onStack_push (k.encodeAll values)
    rw [k.length_encodeAll] at costs
    exact costs.answer _
  | pushBytes data isProtected =>
    cases isProtected with
    | true => exact (costs_onStack_push data).answer _
    | false => exact (costs_quiet (quiet_onStack (FlatStack.silent_push data))).answer _
  | pop k => exact (costs_quiet (quiet_pop k)).answer _
  | popBit => exact (costs_quiet quiet_popBit).answer _
  | popControl width =>
    have quiet : Steps Quiet (Call.popControl width).performFlat := by
      rw [Call.performFlat]
      split
      case isTrue => exact (quiet_popBits width 0).answer _
      case isFalse => exact Quiet.refl
    exact costs_quiet quiet
  | popArray k count =>
    exact (costs_quiet (quiet_onStack (FlatStack.silent_pop _ true))).answer _
  | popBytes count isProtected =>
    exact (costs_quiet (quiet_onStack (FlatStack.silent_pop count isProtected))).answer _
  | startRepeat => exact (costs_quiet quiet_startRepeat).answer _
  | resetRepeat => exact (costs_quiet quiet_resetRepeat).answer _
  | endRepeat => exact (costs_quiet quiet_endRepeat).answer _
  | setLocation l =>
    exact (costs_quiet (quiet_onStack (FlatStack.silent_setLocation l))).answer _

end FlatTape

/-! ## Traffic of a tape -/

namespace Tape

/-- Every call counts what it adds to the account of the tape. -/
lemma Sound.counts {t : Tape} (sound : t.Sound) (c : Call) :
    FlatTape.Counts (t.adds c) t.flat (after (c.perform t)).flat := by
  have counts := FlatTape.costs_performFlat c t.flat sound.levels
  beta_reduce at counts
  rw [← (perform_commutes c t sound).2, outcome_through, after_through, sound.blocks.fill] at counts
  exact counts

/-- The counters of a tape hold its account, each as far as its range goes. -/
structure Balanced (t : Tape) (a : Account) : Prop where
  traffic : t.stack.traffic = UInt64.ofNat a.moved
  buffered : t.buffered = Int64.ofInt (a.scalars - a.spilled)

/-- Counters that hold an account hold it after every call. -/
lemma Balanced.call {t : Tape} {a : Account} (balanced : t.Balanced a) (sound : t.Sound)
    (c : Call) : (after (c.perform t)).Balanced (a + t.adds c) := by
  have counts := sound.counts c
  generalize t.adds c = b at counts
  constructor
  · refine counts.traffic.trans ?_
    rw [Account.moved_add, UInt64.ofNat_add, ← balanced.traffic]
    rfl
  · refine counts.buffered.trans ?_
    have sum : ((a + b).scalars : Int) - ((a + b).spilled : Int) =
        (a.scalars - a.spilled : Int) + b.scalars - b.spilled := by
      change ((a.scalars + b.scalars : Nat) : Int) - ((a.spilled + b.spilled : Nat) : Int) = _
      lia
    rw [sum, Int64.ofInt_sub, Int64.ofInt_add, Int64.ofInt_eq_ofNat, Int64.ofInt_eq_ofNat,
      ← balanced.buffered]
    rfl

/-- The counters hold the account of the calls. -/
lemma Accounted.balanced {o : Overflow} {t : Tape} {a : Account} (accounted : t.Accounted o a) :
    t.Balanced a := by
  induction accounted with
  | create created =>
    obtain ⟨-, view⟩ := create_spec created
    exact ⟨congrArg (·.stack.traffic) view, congrArg FlatTape.buffered view⟩
  | call c before goes ih =>
    rw [goes]
    exact ih.call before.reachable.sound c
  | memory m _ ih => exact ⟨ih.traffic, ih.buffered⟩

section Counters

variable {t : Tape} {a : Account}

/-- The traffic of the stack is what was moved, as long as that fits. -/
lemma Balanced.toNat_traffic (balanced : t.Balanced a) (small : a.moved < 2 ^ 63) :
    t.stack.traffic.toNat = a.moved := by
  rw [balanced.traffic]
  exact UInt64.toNat_ofNat_of_lt' (Nat.lt_trans small (by decide))

/-- The balance of the buffers is what went into them less what they spilled, as long as that
fits. -/
lemma Balanced.toInt_buffered (balanced : t.Balanced a) (fits : a.Fits) :
    t.buffered.toInt = a.scalars - a.spilled := by
  have moved := fits.moved
  have buffered := fits.buffered
  rw [Account.moved] at moved
  rw [balanced.buffered]
  exact Int64.toInt_ofInt_of_le (by lia) (by lia)

/-- Counters that hold an account that fits add up to its total. -/
lemma Balanced.total (balanced : t.Balanced a) (fits : a.Fits) :
    (t.stack.traffic.toNat : Int) + t.buffered.toInt = a.total ∧
      t.totalTraffic.toNat = a.total := by
  have moved := fits.moved
  have buffered := fits.buffered
  have sum : (t.stack.traffic.toNat : Int) + t.buffered.toInt = a.total := by
    rw [balanced.toNat_traffic moved, balanced.toInt_buffered fits, Account.moved, Account.total]
    lia
  have small : a.total ≤ wordLimit - 1 := by
    rw [Account.moved] at moved
    rw [Account.total, wordLimit]
    lia
  refine ⟨sum, ?_⟩
  rw [totalTraffic, addSaturating, sum, Int.toNat_natCast, Nat.min_eq_left small]
  exact UInt64.toNat_ofNat_of_lt' (Nat.lt_of_le_sub_one (by decide) small)

/-! ### Calls that are stopped -/

/-- A scalar that is buffered raises the balance out of its range, or a program goes on. -/
lemma Balanced.raised (balanced : t.Balanced a) (fits : a.Fits) (k : ScalarKind) :
    if a.scalars + k.width < a.spilled + 2 ^ 63 then
      (t.buffered + Int64.ofNat k.width).toInt = a.scalars + k.width - a.spilled
    else t.buffered + Int64.ofNat k.width < t.buffered := by
  have moved := fits.moved
  have buffered := fits.buffered
  have narrow : k.width ≤ 16 := by cases k <;> decide
  have before := balanced.toInt_buffered fits
  rw [Account.moved] at moved
  have raised : (t.buffered + Int64.ofNat k.width).toInt =
      (a.scalars + k.width - a.spilled : Int).bmod (2 ^ 64) := by
    rw [balanced.buffered, ← Int64.ofInt_eq_ofNat, ← Int64.ofInt_add, Int64.toInt_ofInt]
    exact congrArg (Int.bmod · _) (by lia)
  split
  case isTrue within =>
    rw [raised]
    exact Int.bmod_eq_of_le (by lia) (by lia)
  case isFalse beyond =>
    rw [Int64.lt_iff_toInt_lt, raised, before, Int.bmod_def]
    lia

/-- A call that succeeds is stopped exactly where the bytes of scalars, less those of the buffers
that have spilled before, leave the range. -/
lemma Balanced.stop? (balanced : t.Balanced a) (fits : a.Fits) (sound : t.Sound) {c : Call}
    {answer : Answer} {t' : Tape} (run : c.perform t = .ok answer t')
    (small : (a + t.adds c).moved < 2 ^ 63) :
    c.stop? t t' =
      if (a + t.adds c).scalars < a.spilled + 2 ^ 63 then none else some .sum := by
  have balanced' := balanced.call sound c
  have adds : t.adds c = c.account t.geometry.capacity t.area.marks := by
    rw [Tape.adds, run]
    rfl
  rw [after_ok run] at balanced'
  have grows : ¬ t'.stack.traffic < t.stack.traffic := by
    rw [UInt64.lt_iff_toNat_lt, balanced'.toNat_traffic small, balanced.toNat_traffic fits.moved,
      Account.moved_add]
    lia
  have scalars : (a + t.adds c).scalars = a.scalars + (t.adds c).scalars := rfl
  by_cases pushes : ∃ k value, c = .push k value
  case neg =>
    have none : (t.adds c).scalars = 0 := by
      rw [adds]
      exact Call.scalars_account (fun k value same => pushes ⟨k, value, same⟩) _ _
    rw [scalars, none, Nat.add_zero, if_pos fits.buffered]
    cases c with
    | push k value => exact absurd ⟨k, value, rfl⟩ pushes
    | _ => exact if_neg grows
  case pos =>
    obtain ⟨k, value, rfl⟩ := pushes
    have width : (t.adds (.push k value)).scalars = k.width := by
      rw [adds]
      rfl
    have raised := balanced.raised fits k
    rw [scalars, width]
    rw [Call.stop?, if_neg grows]
    split at raised
    case isFalse beyond => rw [if_neg beyond, if_pos raised]
    case isTrue within =>
      have fits' : (a + t.adds (.push k value)).Fits := by
        refine ⟨small, ?_⟩
        rw [scalars, width]
        exact Nat.lt_of_lt_of_le within (Nat.add_le_add_right (Nat.le_add_right _ _) _)
      have before := balanced.toInt_buffered fits
      have after := balanced'.toInt_buffered fits'
      have spilled : (a + t.adds (.push k value)).spilled =
        a.spilled + (t.adds (.push k value)).spilled := rfl
      rw [scalars, spilled, width] at after
      rw [if_pos within, if_neg, if_neg]
      · rw [Int64.lt_iff_toInt_lt, raised, after]
        lia
      · rw [Int64.lt_iff_toInt_lt, raised, before]
        lia

/-- A program is stopped in a call exactly where the bytes of scalars, less those of the buffers
that have spilled before, leave the range. -/
lemma Balanced.performIn (balanced : t.Balanced a) (fits : a.Fits) (sound : t.Sound) {c : Call}
    (small : (a + t.adds c).moved < 2 ^ 63) :
    if (a + t.adds c).scalars < a.spilled + 2 ^ 63 then c.performIn .stops t = c.perform t
    else ∃ answer t', c.perform t = .ok answer t' ∧
      c.performIn .stops t = .error (.stopped .sum) t' := by
  cases run : c.perform t with
  | error e t' =>
    have none : (a + t.adds c).scalars = a.scalars := by
      rw [Tape.adds, run]
      rfl
    have failed : c.performIn .stops t = .error e t' := by simp only [Call.performIn, run]
    rw [none, if_pos fits.buffered]
    exact failed
  | ok answer t' =>
    have stop := balanced.stop? fits sound run small
    split at stop
    case isTrue within =>
      have goes : c.performIn .stops t = .ok answer t' := by simp only [Call.performIn, run, stop]
      rw [if_pos within]
      exact goes
    case isFalse beyond =>
      have stopped : c.performIn .stops t = .error (.stopped .sum) t' := by
        simp only [Call.performIn, run, stop]
      rw [if_neg beyond]
      exact ⟨answer, t', rfl, stopped⟩

/-- As long as a program has not been stopped, the balance of the buffers is in its range. -/
lemma Accounted.fits (accounted : t.Accounted .stops a) (small : a.moved < 2 ^ 63) : a.Fits := by
  induction accounted with
  | create created => exact ⟨by decide, by decide⟩
  | memory m _ ih => exact ih small
  | @call t a c before goes ih =>
    have less : a.moved < 2 ^ 63 := by
      rw [Account.moved_add] at small
      exact Nat.lt_of_le_of_lt (Nat.le_add_right _ _) small
    have stop := before.balanced.performIn (ih less) before.reachable.sound small
    refine ⟨small, Nat.lt_of_lt_of_le (Nat.lt_of_not_le fun beyond => ?_)
      (Nat.add_le_add_right (Nat.le_add_right a.spilled (t.adds c).spilled) _)⟩
    rw [if_neg (Nat.not_lt_of_le beyond)] at stop
    obtain ⟨answer, t', run, stopped⟩ := stop
    rw [stopped, run] at goes
    cases goes

end Counters

end Tape

end AdjointTape

import AdjointTape.Proofs.Abreast
import AdjointTape.Proofs.Script
import AdjointTape.Proofs.Traffic

/-!
# Runs and their accounts

Calls that succeed one after the other push an account between them, on a tape and on flat memory
alike.  On tapes that go abreast the same calls have the same account; and when calls under a level
are followed by a restart, the tape goes abreast with the one the level was opened on, ahead of it
by the blocks that the calls took.
-/

open AdjointTape.Action

namespace AdjointTape

namespace Account

/-- The empty account adds nothing. -/
lemma add_zero (a : Account) : a + 0 = a := rfl

/-- Accounts can be added in any grouping. -/
lemma add_assoc (a b c : Account) : a + b + c = a + (b + c) := by
  change Account.mk (_ + _ + _) (_ + _ + _) (_ + _ + _) (_ + _ + _) = _
  simp only [Nat.add_assoc]
  rfl

/-- An account added to the empty one is itself. -/
lemma zero_add (a : Account) : 0 + a = a := by
  change Account.mk (0 + _) (0 + _) (0 + _) (0 + _) = _
  simp only [Nat.zero_add]

end Account

namespace FlatTape

/-! ## Runs on flat memory -/

/-- Calls that succeed one after the other on flat memory, and the account of what they push. -/
inductive Course : List Call → FlatTape → Account → FlatTape → Prop where
  | nil (f : FlatTape) : Course [] f 0 f
  | cons {c : Call} {answer : Answer} {calls : List Call} {f f' f'' : FlatTape} {a : Account}
    (call : c.performFlat f = .ok answer f') (course : Course calls f' a f'') :
    Course (c :: calls) f (c.account f.capacity f.fill + a) f''

namespace Course

variable {calls calls' : List Call} {f f' g h : FlatTape} {a b : Account} {ahead : Nat}

/-- One run behind another one pushes both accounts. -/
lemma append (course : Course calls f a g) (next : Course calls' g b h) :
    Course (calls ++ calls') f (a + b) h := by
  induction course with
  | nil => rwa [Account.zero_add]
  | cons call _ ih =>
    rw [Account.add_assoc]
    exact .cons call (ih next)

/-- A run of two lists of calls is one run behind another one. -/
lemma split (course : Course (calls ++ calls') f a h) :
    ∃ b g c, Course calls f b g ∧ Course calls' g c h ∧ a = b + c := by
  induction calls generalizing f a with
  | nil => exact ⟨0, f, a, .nil f, course, (Account.zero_add a).symm⟩
  | cons c calls ih =>
    obtain _ | ⟨call, course⟩ := course
    obtain ⟨b, g, c, first, next, rfl⟩ := ih course
    exact ⟨_, g, c, .cons call first, next, (Account.add_assoc _ _ _).symm⟩

/-- The calls decide where a run ends and what it pushes. -/
lemma unique (course : Course calls f a g) (other : Course calls f b h) : a = b ∧ g = h := by
  induction course generalizing b with
  | nil =>
    cases other
    exact ⟨rfl, rfl⟩
  | cons call _ ih =>
    obtain _ | ⟨call', course'⟩ := other
    obtain ⟨-, rfl⟩ := EStateM.Result.ok.inj (call.symm.trans call')
    obtain ⟨rfl, rfl⟩ := ih course'
    exact ⟨rfl, rfl⟩

/-- A tape that goes abreast takes the same course. -/
lemma together (course : Course calls f a f') (abreast : Abreast ahead f g) :
    ∃ g', Course calls g a g' ∧ Abreast ahead f' g' := by
  induction course generalizing g with
  | nil => exact ⟨g, .nil g, abreast⟩
  | cons call _ ih =>
    obtain ⟨_, g1, call', abreast1⟩ := together_performFlat _ _ _ abreast _ _ call
    obtain ⟨g2, course, abreast2⟩ := ih abreast1
    have same := Course.cons call' course
    rw [abreast.capacity, abreast.fill] at same
    exact ⟨g2, same, abreast2⟩

/-- A run leads from sound tapes to sound tapes. -/
lemma sound (course : Course calls f a g) (sound : f.Sound) : g.Sound := by
  induction course with
  | nil => exact sound
  | @cons c _ _ _ _ _ _ call _ ih =>
    have next := sound_performFlat c sound
    rw [call] at next
    exact ih next

end Course

end FlatTape

/-! ## Runs of tapes -/

namespace Tape

/-- A call that leaves the geometry alone, whether or not it fails. -/
def KeepsGeometry {α : Type} (call : Action Tape α) : Prop :=
  Steps (fun t t' => t'.geometry = t.geometry) call

namespace KeepsGeometry

variable {α β : Type}

/-- One call behind another one leaves the geometry alone. -/
lemma seq {x : Action Tape α} {g : α → Action Tape β} (hx : KeepsGeometry x)
    (hg : ∀ a, KeepsGeometry (g a)) : KeepsGeometry (x >>= g) :=
  Steps.seq (fun _ _ _ first next => next.trans first) hx hg

/-- An answer that is at hand leaves the geometry alone. -/
lemma ret (a : α) : KeepsGeometry (pure a) := fun _ => rfl

/-- A failure leaves the geometry alone. -/
lemma fail (e : Failure) : KeepsGeometry (α := α) (throw e) := fun _ => rfl

/-- A reading of the tape leaves the geometry alone. -/
lemma inspect (f : Tape → α) : KeepsGeometry (Action.inspect f) := fun _ => rfl

/-- A change of other parts leaves the geometry alone. -/
lemma update {f : Tape → Tape} (same : ∀ t, (f t).geometry = t.geometry) :
    KeepsGeometry (Action.update f) := same

/-- A call on the stack leaves the geometry alone. -/
lemma onStack (call : Action ByteStack α) : KeepsGeometry (Tape.onStack call) := by
  intro t
  rw [onStack_eq]
  cases call t.stack <;> rfl

/-- A call on the buffers leaves the geometry alone. -/
lemma onArea (call : Action (StagingArea × ByteStack) α) : KeepsGeometry (Tape.onArea call) := by
  intro t
  simp only [Tape.onArea]
  cases call (t.area, t.stack) <;> rfl

/-- A failure that is handled leaves the geometry alone. -/
lemma tryCatch {x : Action Tape α} {handle : Failure → Action Tape α} (hx : KeepsGeometry x)
    (hf : ∀ e, KeepsGeometry (handle e)) : KeepsGeometry (tryCatch x handle) := by
  intro t
  have first := hx t
  cases run : x t with
  | ok a t' =>
    rw [run] at first
    rw [tryCatch_ok run]
    exact first
  | error e t' =>
    rw [run] at first
    rw [tryCatch_error run]
    exact (hf e t').trans first

/-- Pushing bits leaves the geometry alone. -/
lemma pushBits (bits : List Bool) : KeepsGeometry (Tape.pushBits bits) := by
  induction bits with
  | nil => exact ret ()
  | cons bit rest ih => exact ((onArea _).seq fun _ => ret ()).seq fun _ => ih

/-- Popping bits leaves the geometry alone. -/
lemma popBits (count value : Nat) : KeepsGeometry (Tape.popBits count value) := by
  induction count generalizing value with
  | zero => exact ret value
  | succ count ih => exact (onArea _).seq fun _ => ih _

/-- Opening a level leaves the geometry alone. -/
lemma startRepeat : KeepsGeometry Tape.startRepeat :=
  (onStack _).seq fun _ => (inspect _).seq fun _ =>
    (tryCatch (fun t => onStack _ t) fun _ => (onStack _).seq fun _ => fail _).seq fun _ =>
      (onStack _).seq fun _ => update fun _ => rfl

/-- Restarting a level leaves the geometry alone. -/
lemma resetRepeat : KeepsGeometry Tape.resetRepeat := by
  refine (onStack _).seq fun _ => (inspect _).seq fun marks => ?_
  cases marks with
  | none => exact (fail _).seq fun _ => onStack _
  | some marks => exact (onArea _).seq fun _ => onStack _

/-- Closing a level leaves the geometry alone. -/
lemma endRepeat : KeepsGeometry Tape.endRepeat :=
  (onStack _).seq fun _ => update fun _ => rfl

end KeepsGeometry

/-- No call changes the geometry. -/
lemma geometry_perform (c : Call) : KeepsGeometry c.perform := by
  have answer {α : Type} {x : Action Tape α} (keeps : KeepsGeometry x) (g : α → Answer) :
      KeepsGeometry (x >>= fun a => pure (g a)) := keeps.seq fun _ => .ret _
  cases c with
  | push k value =>
    have counts (spilled : Bool) : KeepsGeometry (Action.update (countScalar k spilled)) :=
      .update fun _ => rfl
    exact answer (.seq (.onArea _) counts) _
  | pop k => exact answer (.onArea _) _
  | pushBit bit => exact answer (.seq (.onArea _) fun _ => .ret ()) _
  | popBit => exact answer (.onArea _) _
  | pushControl value width =>
    refine answer ?_ _
    rw [pushControl]
    split
    case isTrue => exact .pushBits _
    case isFalse => exact .fail _
  | popControl width =>
    refine answer ?_ _
    rw [popControl]
    split
    case isTrue => exact .popBits _ _
    case isFalse => exact .fail _
  | pushArray k values => exact answer (.onStack _) _
  | popArray k count => exact answer (.seq (.onStack _) fun _ => .ret _) _
  | pushBytes data isProtected => exact answer (.onStack _) _
  | popBytes count isProtected => exact answer (.onStack _) _
  | startRepeat => exact answer .startRepeat _
  | resetRepeat => exact answer .resetRepeat _
  | endRepeat => exact answer .endRepeat _
  | setLocation l => exact answer (.onStack _) _

variable {calls : List Call} {t t' : Tape}

/-- What calls add to the account of a tape, one after the other. -/
def addsAll : List Call → Tape → Account
  | [], _ => 0
  | c :: rest, t => t.adds c + addsAll rest (after (c.perform t))

/-- A run of a sound tape is a run on flat memory, and adds its account to that of the tape. -/
lemma Runs.course (runs : Runs calls t t') (sound : t.Sound) :
    t'.Sound ∧ t'.geometry = t.geometry ∧
      FlatTape.Course calls t.flat (t.addsAll calls) t'.flat ∧
      ∀ b, t.Accounted .wraps b → t'.Accounted .wraps (b + t.addsAll calls) := by
  induction runs with
  | nil t => exact ⟨sound, rfl, .nil _, fun b accounted => accounted⟩
  | @cons c answer calls t t1 t2 call _ ih =>
    obtain ⟨sound1, view⟩ := perform_commutes c t sound
    have geometry1 := geometry_perform c t
    rw [call] at sound1 view geometry1
    obtain ⟨sound2, geometry2, course, adds⟩ := ih sound1
    have flat := FlatTape.Course.cons view.symm course
    have first : c.account t.flat.capacity t.flat.fill = t.adds c := by
      rw [sound.blocks.fill, Tape.adds, call]
      rfl
    have all : t.addsAll (c :: calls) = t.adds c + t1.addsAll calls := by
      rw [addsAll, call]
      rfl
    rw [first, ← all] at flat
    refine ⟨sound2, geometry2.trans geometry1, flat, fun b accounted => ?_⟩
    have next := accounted.call c (congrFun c.performIn_wraps t)
    rw [c.performIn_wraps, call] at next
    rw [all, ← Account.add_assoc]
    exact adds _ next

/-- A run on flat memory is a run of the tape. -/
lemma Sound.runs (sound : t.Sound) {f : FlatTape} {a : Account}
    (course : FlatTape.Course calls t.flat a f) : ∃ t', Runs calls t t' ∧ t'.flat = f := by
  generalize view : t.flat = g at course
  induction course generalizing t with
  | nil g => exact ⟨t, .nil t, view⟩
  | @cons c _ _ _ _ _ _ call _ ih =>
    obtain ⟨t1, run, sound1, view1⟩ := (perform_commutes c).back sound (view ▸ call)
    obtain ⟨t2, runs, last⟩ := ih sound1 view1
    exact ⟨t2, .cons run runs, last⟩

end Tape

/-! ## Runs under a level -/

namespace FlatStack

/-- A stack that has taken blocks out of its memory and given none back. -/
structure Grown (s s' : FlatStack) : Prop where
  blockSize : s'.blockSize = s.blockSize
  blocks : s.blocks ≤ s'.blocks
  memory : s'.memory = s.memory.take (s'.blocks - s.blocks)

/-- A stack that took no blocks has grown by none. -/
lemma Grown.refl (s : FlatStack) : Grown s s :=
  ⟨rfl, Nat.le_refl _, by rw [Nat.sub_self]; rfl⟩

/-- Growth adds up. -/
lemma Grown.trans {s t u : FlatStack} (first : Grown s t) (next : Grown t u) : Grown s u := by
  refine ⟨next.blockSize.trans first.blockSize, Nat.le_trans first.blocks next.blocks, ?_⟩
  rw [next.memory, first.memory, Memory.take, Memory.take, Memory.take, Nat.add_assoc,
    Nat.add_comm (t.blocks - _), Nat.sub_add_sub_cancel next.blocks first.blocks]

/-- What happens above the store is no growth. -/
lemma Grown.of_store {s t t' : FlatStack} (grown : Grown s t) (store : t'.store = t.store) :
    Grown s t' := by
  simp only [FlatStack.store, Prod.mk.injEq] at store
  obtain ⟨-, blockSize, blocks, memory⟩ := store
  exact ⟨blockSize.trans grown.blockSize, blocks ▸ grown.blocks,
    by rw [memory, blocks]; exact grown.memory⟩

/-- A push takes the blocks up to its end out of memory. -/
lemma memory_pushed (data : List UInt8) (isProtected : Bool) (s : FlatStack) :
    (s.pushed data isProtected).memory = s.memory.take
      (ByteStack.blocksBelow s.blockSize (s.pushed data isProtected).cursor - s.blocks) := by
  rw [cursor_pushed]
  cases isProtected with
  | false => rfl
  | true =>
    simp only [pushed, start, if_pos]
    rw [redirected_eq]
    rfl

/-- A push takes blocks and gives none back. -/
lemma grown_pushed (data : List UInt8) (isProtected : Bool) (s : FlatStack) :
    Grown s (s.pushed data isProtected) := by
  refine ⟨blockSize_pushed data isProtected s, ?_, ?_⟩
  · rw [blocks_pushed]
    exact Nat.le_max_left _ _
  · rw [memory_pushed, blocks_pushed]
    congr 1
    omega

/-- Writes take blocks and give none back. -/
lemma grown_pushAll (writes : List Write) (s : FlatStack) : Grown s (pushAll writes s) := by
  induction writes generalizing s with
  | nil => exact .refl s
  | cons write rest ih =>
    obtain run | ⟨blocks, blockSize, run⟩ := push_cases write.data write.isProtected s
    · rw [pushAll_ok run]
      exact (grown_pushed _ _ s).trans (ih _)
    · rw [pushAll_error run]
      exact .refl s

end FlatStack

/-- Whether a call stays under the open levels: it opens none and closes none, and it heeds what
they protect. -/
structure Call.Stays (c : Call) : Prop where
  opens : c ≠ .startRepeat
  closes : c ≠ .endRepeat
  heeds : c.bypasses = false

namespace FlatTape

variable {calls : List Call} {f g h : FlatTape} {a : Account}

namespace Course

/-- A run under open levels takes blocks and gives none back. -/
lemma grown (course : Course calls f a g) (stays : ∀ c ∈ calls, c.Stays) :
    f.stack.Grown g.stack := by
  induction course with
  | nil f => exact .refl f.stack
  | @cons c _ _ f f' _ _ call _ ih =>
    have store := store_performFlat (stays c List.mem_cons_self).opens f
    rw [call] at store
    exact ((FlatStack.grown_pushAll (c.writes f) f.stack).of_store store).trans
      (ih fun c mem => stays c (List.mem_cons_of_mem _ mem))

/-- A run under open levels leaves what they protect as it is. -/
lemma guarded (course : Course calls f a g) (sound : f.Sound) (stays : ∀ c ∈ calls, c.Stays) :
    Guarded f g := by
  induction course with
  | nil f => exact .refl f
  | @cons c _ _ f f' _ _ call _ ih =>
    have stay := stays c List.mem_cons_self
    have step := guarded_performFlat stay.opens stay.closes stay.heeds sound
    rw [call] at step
    exact step.trans (ih (step.sound sound) fun c mem => stays c (List.mem_cons_of_mem _ mem))

/-- After calls under a level a restart goes abreast with the tape the level was opened on, with the
blocks that the calls took. -/
lemma restarts (course : Course calls g a h) (opened : Opened f g) (sound : g.Sound)
    (stays : ∀ c ∈ calls, c.Stays) :
    ∃ g', resetRepeat h = .ok () g' ∧ Abreast h.stack.blocks g g' := by
  obtain ⟨⟨redirects, -⟩, marks, capacity, -⟩ := course.guarded sound stays
  obtain ⟨blockSize, blocks, memory⟩ := course.grown stays
  rw [opened.levels] at redirects
  generalize levels : h.stack.levels = now at redirects
  obtain _ | @⟨_, level, _, redirects⟩ := redirects
  rw [opened.marks] at marks
  obtain ⟨marks', capacity'⟩ :=
    marks_takeBackEach { h with stack := h.stack.rewound level f.stack.levels } f.fill
      Kind.all.reverse
  have stack := stack_restarted level f.stack.levels f.fill h
  have fill : g.fill = f.fill := fill_congr fun kind => by
    rw [index, index, opened.valid, opened.bits]
  refine ⟨_, resetRepeat_eq levels marks, ?_, ?_, ?_, ?_⟩
  · rw [stack]
    refine ⟨redirects.resume.trans opened.cursor.symm, ?_, blockSize, ?_, memory⟩
    · rw [opened.levels]
      exact congrArg (· :: f.stack.levels) ((redirects.trans (.closed level)).eq rfl)
    · exact (Nat.max_eq_right blocks).symm
  · rw [fill_restarted, fill]
  · exact marks'.trans (marks.trans opened.marks.symm)
  · exact capacity'.trans capacity

end Course

end FlatTape

end AdjointTape

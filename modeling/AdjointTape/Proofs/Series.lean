import AdjointTape.Proofs.Undoing

/-!
# Scalars of one kind pushed and popped one after the other

A buffer takes a series of scalars and spills each time it is full, so what is left in it is the
number of scalars modulo the capacity.  Below the cursor of a stack that no level redirects, and in
the buffer, lie as many bytes as were pushed; pops get no further than that.  A cursor inside what
the active level protects is redirected by the first spill, and by none of the later ones.
-/

open AdjointTape.Action AdjointTape.FlatStack

namespace AdjointTape

/-- Scalars of one kind with their serial numbers on a stage, the last one first. -/
def Stage.series (capacity : Nat) (base : Stage) (k : ScalarKind)
    (pairs : List (Nat × k.Carrier)) : Stage :=
  .of capacity base (pairs.map fun p => (p.1, .scalar k p.2))

/-- Every segment is in the base, or it has the serial number of a scalar. -/
lemma Stage.serial_series {capacity : Nat} {base : Stage} {k : ScalarKind}
    {pairs : List (Nat × k.Carrier)} {segment : ByteSegment}
    (mem : segment ∈ (series capacity base k pairs).segments) :
    segment ∈ base.segments ∨ ∃ pair ∈ pairs, pair.1 = segment.serial := by
  refine (serial_of mem).imp_right ?_
  rintro ⟨atom, made, serial⟩
  obtain ⟨pair, given, rfl⟩ := List.mem_map.1 made
  exact ⟨pair, given, serial⟩

namespace FlatTape

variable {k : ScalarKind} {value : k.Carrier} {values : List k.Carrier} {f g : FlatTape}

/-! ## Pushes -/

/-- What a push has done with a scalar: it went into the buffer, or with it the buffer went onto the
stack. -/
inductive Stored (k : ScalarKind) (f g : FlatTape) : Prop where
  | buffered (room : (f.valid k).length + 1 < f.capacity) (stack : g.stack = f.stack)
    (length : (g.valid k).length = (f.valid k).length + 1)
  | spilled (data : List UInt8) (full : (f.valid k).length + 1 = f.capacity)
    (size : data.length = f.capacity * k.width) (stack : g.stack = f.stack.pushed data true)
    (empty : (g.valid k).length = 0)

/-- A push fails only where memory runs out. It leaves the other buffers alone. -/
lemma push_done (room : ranOut (outcome (push k value f)) = false) :
    ∃ g, push k value f = .ok () g ∧ (f.Roomy → Stored k f g) ∧ g.bits = f.bits ∧
      ∀ j, j ≠ k → g.valid j = f.valid j := by
  by_cases few : (f.valid k).length + 1 < f.capacity
  case pos =>
    refine ⟨_, push_room few, fun _ => ?_, rfl, fun j ne => valid_hold_of_ne _ f ne⟩
    exact .buffered few rfl (congrArg List.length (valid_hold k _ f))
  case neg =>
    obtain done | ⟨blocks, blockSize, full⟩ := push_full_cases value few
    case inr =>
      rw [full] at room
      cases room
    refine ⟨_, done, fun roomy => ?_, rfl,
      fun j ne => valid_hold_of_ne _ _ ne⟩
    have last : (f.valid k).length + 1 = f.capacity :=
      Nat.le_antisymm (roomy.valid k) (Nat.le_of_not_lt few)
    refine .spilled _ last ?_ rfl (congrArg List.length (valid_hold k [] _))
    rw [k.length_encodeAll, List.length_reverse, List.length_cons, last]

/-- What a push that succeeded has done with its scalar. -/
lemma push_spec (run : push k value f = .ok () g) :
    (f.Roomy → Stored k f g) ∧ g.bits = f.bits ∧ ∀ j, j ≠ k → g.valid j = f.valid j := by
  have room : ranOut (outcome (push k value f)) = false := by
    rw [run]
    rfl
  obtain ⟨g', run', spec⟩ := push_done room
  obtain rfl := (EStateM.Result.ok.inj (run.symm.trans run')).2
  exact spec

/-- A push that succeeded was a guarded step. -/
lemma guarded_push (run : push k value f = .ok () g) : Guarded f g :=
  after_ok run ▸ steps_push k value f

/-- A tape on which scalars of a kind were pushed one after the other. -/
inductive Pushes (k : ScalarKind) : List k.Carrier → FlatTape → FlatTape → Prop where
  | none {f : FlatTape} : Pushes k [] f f
  | more {value : k.Carrier} {values : List k.Carrier} {f g h : FlatTape}
    (first : push k value f = .ok () g) (rest : Pushes k values g h) :
    Pushes k (value :: values) f h

/-- A run that begins with pushes and has room makes them all. -/
lemma run_pushes {rest : List Call} (room : ∀ o ∈
      (runAll Call.performFlat (values.map (.push k) ++ rest) f).1, ranOut o = false) :
    ∃ g, Pushes k values f g ∧ runAll Call.performFlat (values.map (.push k) ++ rest) f =
      (List.replicate values.length (.ok .unit) ++ (runAll Call.performFlat rest g).1,
        (runAll Call.performFlat rest g).2) := by
  induction values generalizing f with
  | nil => exact ⟨f, .none, rfl⟩
  | cons value values ih =>
    rw [List.map_cons, List.cons_append, runAll_cons] at room
    obtain ⟨g, first, -⟩ := push_done (ranOut_first (room _ List.mem_cons_self))
    have run : (Call.push k value).performFlat f = .ok .unit g := bind_ok first
    rw [after_ok run] at room
    obtain ⟨h, pushes, last⟩ := ih fun o mem => room o (List.mem_cons_of_mem _ mem)
    refine ⟨h, .more first pushes, ?_⟩
    rw [List.map_cons, List.cons_append, runAll_cons_ok run, last]
    rfl

/-- The bytes that pops of a kind can reach where no level is open. -/
def reach (k : ScalarKind) (f : FlatTape) : Nat :=
  f.stack.cursor + (f.valid k).length * k.width

namespace Pushes

/-- Pushes are a guarded step. -/
lemma guarded (pushes : Pushes k values f g) : Guarded f g := by
  induction pushes with
  | none => exact .refl _
  | more first _ ih => exact (guarded_push first).trans ih

/-- Pushes of a kind leave the other buffers alone. -/
lemma others (pushes : Pushes k values f g) :
    g.bits = f.bits ∧ ∀ j, j ≠ k → g.valid j = f.valid j := by
  induction pushes with
  | none => exact ⟨rfl, fun _ _ => rfl⟩
  | more first _ ih =>
    obtain ⟨-, bits, valid⟩ := push_spec first
    exact ⟨ih.1.trans bits, fun j ne => (ih.2 j ne).trans (valid j ne)⟩

/-- What is left in the buffer is the number of scalars modulo the capacity. -/
lemma length (pushes : Pushes k values f g) (roomy : f.Roomy) :
    (g.valid k).length = ((f.valid k).length + values.length) % f.capacity := by
  induction pushes with
  | none => exact (Nat.mod_eq_of_lt (roomy.valid k)).symm
  | @more value values f g h first _ ih =>
    have step := guarded_push first
    rw [ih (step.roomy roomy), step.capacity, List.length_cons]
    cases (push_spec first).1 roomy with
    | buffered room stack length => rw [length, Nat.add_right_comm, Nat.add_assoc]
    | spilled data full size stack empty =>
      rw [empty, Nat.zero_add, Nat.add_comm values.length, ← Nat.add_assoc, full,
        Nat.add_mod_left]

/-- Too few scalars to fill the buffer leave the stack alone. -/
lemma few (pushes : Pushes k values f g) (roomy : f.Roomy)
    (few : (f.valid k).length + values.length < f.capacity) : g.stack = f.stack := by
  induction pushes with
  | none => rfl
  | @more value values f g h first _ ih =>
    have step := guarded_push first
    rw [List.length_cons] at few
    cases (push_spec first).1 roomy with
    | buffered room stack length =>
      refine (ih (step.roomy roomy) ?_).trans stack
      rw [length, step.capacity]
      lia
    | spilled data full size stack empty => lia

/-- Above what is protected no push is redirected, and every byte counts. -/
lemma straight (pushes : Pushes k values f g) (roomy : f.Roomy)
    (above : floor f.stack.levels ≤ f.stack.cursor) :
    g.stack.levels = f.stack.levels ∧ g.reach k = f.reach k + values.length * k.width := by
  induction pushes with
  | none => exact ⟨rfl, (congrArg (_ + ·) (Nat.zero_mul _)).symm⟩
  | @more value values f g h first _ ih =>
    have roomy' := (guarded_push first).roomy roomy
    rw [List.length_cons, Nat.succ_mul]
    cases (push_spec first).1 roomy with
    | buffered room stack length =>
      obtain ⟨levels, reached⟩ := ih roomy' (stack ▸ above)
      refine ⟨levels.trans (congrArg FlatStack.levels stack), reached.trans ?_⟩
      rw [reach, reach, stack, length, Nat.succ_mul]
      lia
    | spilled data full size stack empty =>
      have cursor : g.stack.cursor = f.stack.cursor + f.capacity * k.width := by
        rw [stack, cursor_pushed, start_of_le above, size]
      have same : g.stack.levels = f.stack.levels := by
        rw [stack, levels_pushed, start_of_le above]
      obtain ⟨levels, reached⟩ :=
        ih roomy' (by rw [same, cursor]; exact Nat.le_trans above (Nat.le_add_right _ _))
      refine ⟨levels.trans same, reached.trans ?_⟩
      rw [reach, reach, cursor, empty, ← full, Nat.succ_mul]
      lia

/-- From an empty buffer on, pushes above what is protected do not take the cursor back. -/
lemma climbs (pushes : Pushes k values f g) (roomy : f.Roomy) (empty : (f.valid k).length = 0)
    (above : floor f.stack.levels ≤ f.stack.cursor) :
    g.stack.levels = f.stack.levels ∧ f.stack.cursor ≤ g.stack.cursor := by
  obtain ⟨levels, reached⟩ := pushes.straight roomy above
  -- what is buffered in the end is a part of what was pushed
  have length : (g.valid k).length ≤ values.length := by
    rw [pushes.length roomy, empty, Nat.zero_add]
    exact Nat.mod_le _ _
  have part := Nat.mul_le_mul_right k.width length
  rw [reach, reach, empty, Nat.zero_mul] at reached
  exact ⟨levels, by lia⟩

/-- Inside what is protected the first spill is redirected: it lies above, and leaves in `backPop`
the place it came from. -/
lemma redirects (pushes : Pushes k values f g) (roomy : f.Roomy) {level : RepeatLevel}
    {outer : List RepeatLevel} (levels : f.stack.levels = level :: outer)
    (below : f.stack.cursor < level.freePush)
    (many : f.capacity ≤ (f.valid k).length + values.length) :
    g.stack.levels = { level with backPop := some f.stack.cursor } :: outer ∧
      level.freePush + f.capacity * k.width ≤ g.stack.cursor := by
  induction pushes with
  | @none f => exact absurd many (Nat.not_le.2 (roomy.valid k))
  | @more value values f g h first rest ih =>
    have step := guarded_push first
    rw [List.length_cons] at many
    cases (push_spec first).1 roomy with
    | buffered room stack length =>
      rw [← stack] at levels below ⊢
      rw [← step.capacity]
      refine ih (step.roomy roomy) levels below ?_
      rw [length, step.capacity]
      lia
    | spilled data full size stack empty =>
      have jump : f.stack.start true = _ := redirected_of_lt levels below
      have cursor : g.stack.cursor = level.freePush + data.length := by
        rw [stack, cursor_pushed, jump]
      have bent : g.stack.levels = { level with backPop := some f.stack.cursor } :: outer := by
        rw [stack, levels_pushed, jump]
      obtain ⟨still, higher⟩ := rest.climbs (step.roomy roomy) empty (by
        rw [bent, cursor]
        exact Nat.le_add_right _ _)
      rw [cursor, size] at higher
      exact ⟨still.trans bent, higher⟩

/-- The stage has the pushed scalars on top, all with one serial number. -/
lemma carries (pushes : Pushes k values f g) (sound : f.Sound) {sinces : List Nat} {base : Stage}
    {pairs : List (Nat × k.Carrier)} (carries : f.Carries sinces (.series f.capacity base k pairs))
    {serial : Nat} (recent : ∀ since ∈ sinces, since ≤ serial) :
    g.Carries sinces (.series f.capacity base k (values.reverse.map (serial, ·) ++ pairs)) := by
  induction pushes generalizing pairs with
  | none => exact carries
  | @more value values f g h first _ ih =>
    have step := guarded_push first
    have room : ranOut (outcome (push k value f)) = false := by rw [first]; rfl
    obtain ⟨g', run, carries⟩ := carries_push carries sound recent room
    obtain rfl := (EStateM.Result.ok.inj (first.symm.trans run)).2
    have last := @ih (step.sound sound) ((serial, value) :: pairs) (step.capacity ▸ carries)
    rw [step.capacity] at last
    rw [List.reverse_cons, List.map_append, List.append_assoc]
    exact last

end Pushes

/-! ## Pops -/

/-- Where no level is open a pop takes what it asks for off the end, or finds too little. -/
lemma pop_ground (levels : f.stack.levels = []) (positive : 0 < f.capacity) :
    (∃ value g, pop k f = .ok value g ∧ g.stack.levels = [] ∧ g.capacity = f.capacity ∧
        g.reach k + k.width = f.reach k) ∨
      ∃ requested available, pop k f = .error (.popUnderflow requested available) f := by
  cases held : f.valid k with
  | cons value rest =>
    refine .inl ⟨value, _, pop_held held, levels, rfl, ?_⟩
    rw [reach, reach, valid_hold, held, List.length_cons, Nat.succ_mul]
    exact Nat.add_assoc _ _ _
  | nil =>
    rw [pop_refill held]
    by_cases few : f.stack.cursor < f.capacity * k.width
    · have fails : FlatStack.pop (f.capacity * k.width) true f.stack =
          .error (.popUnderflow (f.capacity * k.width) f.stack.cursor) f.stack := if_pos few
      exact .inr ⟨_, _, bind_error (onStack_error fails)⟩
    · have done : FlatStack.pop (f.capacity * k.width) true f.stack = .ok _ _ := if_neg few
      rw [bind_ok (onStack_ok done), popped_ground levels]
      refine .inl ⟨_, _, rfl, levels, rfl, ?_⟩
      rw [reach, reach, valid_hold, held, List.length_tail, List.length_reverse,
        Array.length_toList, k.size_decodeAll]
      obtain ⟨last, e⟩ := Nat.exists_eq_add_one.2 positive
      change f.stack.cursor - f.capacity * k.width + (f.capacity - 1) * k.width + k.width = _
      rw [e, Nat.succ_mul] at few ⊢
      rw [Nat.add_sub_cancel, List.length_nil]
      lia

/-- More pops than there are scalars do not all find one. -/
lemma pops_short {count : Nat} (levels : f.stack.levels = []) (positive : 0 < f.capacity)
    (short : f.reach k < count * k.width) : ∃ requested available,
      .error (.popUnderflow requested available) ∈
        (runAll Call.performFlat (List.replicate count (.pop k)) f).1 := by
  induction count generalizing f with
  | zero =>
    rw [Nat.zero_mul] at short
    cases short
  | succ count ih =>
    rw [List.replicate_succ, runAll_cons]
    obtain ⟨value, g, run, levels', capacity, reach⟩ | ⟨requested, available, fails⟩ :=
      pop_ground (k := k) levels positive
    · have first : (Call.pop k).performFlat f = .ok (.scalar k value) g := bind_ok run
      rw [Nat.succ_mul] at short
      obtain ⟨requested, available, mem⟩ := ih levels' (capacity ▸ positive) (by lia)
      rw [first]
      exact ⟨requested, available, List.mem_cons_of_mem _ mem⟩
    · have first : (Call.pop k).performFlat f = .error (.popUnderflow requested available) f :=
        bind_error fails
      rw [first]
      exact ⟨requested, available, List.mem_cons_self⟩

/-- Where no level is open as many pops as there are scalars answer them, the last one first. -/
lemma run_pops {base : Stage} {pairs : List (Nat × k.Carrier)} (tidy : base.Tidy f.capacity)
    (carries : f.Carries [] (.series f.capacity base k pairs)) :
    (runAll Call.performFlat (List.replicate pairs.length (.pop k)) f).1 =
      pairs.map fun p => .ok (.scalar k p.2) := by
  induction pairs generalizing f with
  | nil => rfl
  | cons pair pairs ih =>
    have due : Due f.stack.levels.tail ([] : List Nat).tail pair.1 := due_of_recent nofun
    obtain ⟨g, run, carries'⟩ := carries_pop (tidy.of _) carries due
    have step := steps_pop k f
    rw [run] at step
    have first : (Call.pop k).performFlat f = .ok (.scalar k pair.2) g := bind_ok run
    rw [List.length_cons, List.replicate_succ, runAll_cons_ok first, List.map_cons,
      ih (step.capacity ▸ tidy) (step.capacity ▸ carries')]

end FlatTape

end AdjointTape

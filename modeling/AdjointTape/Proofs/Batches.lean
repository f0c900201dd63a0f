import AdjointTape.Proofs.Enclosed

/-!
# Batches of scalars and arrays

An empty buffer that is filled up and spilled puts an array on the byte stack, and pops that empty
it again take the array back.  The first spill decides where a series of them goes, for it ends
where the next one starts; and of the refills only the last one can come back to a redirect.  So
scalars that fill the buffer several times do what one array of them does, and cost the same.
-/

open AdjointTape.Action AdjointTape.FlatStack

namespace AdjointTape

/-! ## Room for several pushes -/

namespace FlatStack

variable {s : FlatStack} {l l' : Location}

/-- Memory that was reserved up to a place is reserved up to a higher one. -/
lemma grown_grown (s : FlatStack) (le : l ≤ l') : (s.grown l).grown l' = s.grown l' := by
  have mono := ByteStack.blocksBelow_mono s.blockSize le
  simp only [grown, Memory.take]
  generalize ByteStack.blocksBelow s.blockSize l = low at mono ⊢
  generalize ByteStack.blocksBelow s.blockSize l' = high at mono ⊢
  have blocks : max (max s.blocks low) high = max s.blocks high := by lia
  have live : s.memory.live + (low - s.blocks) + (high - max s.blocks low) =
      s.memory.live + (high - s.blocks) := by lia
  rw [blocks, live]

/-- There is room up to a place if there are blocks up to it, or if they can be taken. -/
lemma hasRoom_iff : s.hasRoom l = true ↔
    ByteStack.blocksBelow s.blockSize l ≤ s.blocks ∨
      (ByteStack.blocksBelow s.blockSize l < addressSpace ∧
        ByteStack.blocksBelow s.blockSize l * s.blockSize < addressSpace ∧
        ∀ limit ∈ s.memory.limit,
          s.memory.live + (ByteStack.blocksBelow s.blockSize l - s.blocks) ≤ limit) := by
  rw [hasRoom, decide_eq_true_iff]
  simp only [Memory.hasRoom, Option.all_eq_true, decide_eq_true_eq, Option.mem_def]

/-- Room for the bytes below a location is room for fewer, and what these take is not lost to the
others. -/
lemma hasRoom_of_lower (le : l ≤ l') (room : s.hasRoom l' = true) :
    s.hasRoom l = true ∧ (s.grown l).hasRoom l' = true := by
  have mono := ByteStack.blocksBelow_mono s.blockSize le
  rw [hasRoom_iff] at room
  rw [hasRoom_iff, hasRoom_iff]
  simp only [grown, Memory.take]
  generalize ByteStack.blocksBelow s.blockSize l = low at mono ⊢
  generalize ByteStack.blocksBelow s.blockSize l' = high at mono room ⊢
  obtain enough | ⟨few, small, fits⟩ := room
  · exact ⟨.inl (Nat.le_trans mono enough), .inl (le_max_of_le_left enough)⟩
  · have small' : low * s.blockSize < addressSpace :=
      Nat.lt_of_le_of_lt (Nat.mul_le_mul_right _ mono) small
    refine ⟨.inr ⟨Nat.lt_of_le_of_lt mono few, small', fun limit mem => ?_⟩,
      .inr ⟨few, small, fun limit mem => ?_⟩⟩
    all_goals
      have fits := fits limit mem
      lia

/-! ## Transfers in parts -/

/-- A protected push leaves the cursor where the next one starts. -/
lemma floor_le_pushed (data : List UInt8) (s : FlatStack) :
    floor (s.pushed data true).levels ≤ (s.pushed data true).cursor := by
  have same := (guarded_redirected s).levels.floor_eq
  rw [levels_pushed, cursor_pushed, start, if_pos rfl, same]
  exact Nat.le_trans (floor_le_redirected s) (Nat.le_add_right _ _)

/-- A push takes room away exactly as far as it reserves memory. -/
lemma hasRoom_pushed (data : List UInt8) (s : FlatStack) (l : Location) :
    (s.pushed data true).hasRoom l =
      (s.grown ((s.start true).cursor + data.length)).hasRoom l := by
  rw [pushed, start, if_pos rfl, redirected_eq]
  rfl

/-- Two protected pushes are one of all the bytes. -/
lemma pushed_pushed (xs ys : List UInt8) (s : FlatStack) :
    (s.pushed xs true).pushed ys true = s.pushed (xs ++ ys) true := by
  have further : s.redirected.cursor + xs.length ≤ s.redirected.cursor + xs.length + ys.length :=
    Nat.le_add_right _ _
  have still : (s.pushed xs true).start true = s.pushed xs true :=
    start_of_le (floor_le_pushed xs s) true
  rw [pushed, still]
  have grown := grown_grown s.redirected further
  simp only [FlatStack.grown, FlatStack.mk.injEq, true_and] at grown
  simp only [pushed, start, if_true, FlatStack.grown, put, List.length_append, ← Nat.add_assoc,
    ByteMap.write_append, grown, UInt64.ofNat_add, UInt64.add_assoc]

/-- A pop that stays above what is protected lowers the cursor, and the next pop goes on from
there. -/
lemma popped_popped {i : Nat} (j : Nat) (apart : floor s.levels < s.cursor - i) :
    s.popped i true = s.seek (s.cursor - i) ∧
      (s.popped i true).popped j true = s.popped (i + j) true := by
  have still : s.popped i true = s.seek (s.cursor - i) := by
    refine rejoined_of_ne fun level mem _ on => ?_
    obtain ⟨outer, levels⟩ := List.head?_eq_some_iff.1 mem
    have levels : s.levels = level :: outer := levels
    rw [levels] at apart
    exact absurd on (Nat.ne_of_gt apart)
  refine ⟨still, ?_⟩
  rw [still, popped, popped, seek, seek, ← Nat.sub_sub]
  rfl

/-- The top of a stack is the top of what lies below, followed by the rest. -/
lemma top_add (s : FlatStack) {i j : Nat} (enough : i + j ≤ s.cursor) :
    s.top (i + j) = (s.seek (s.cursor - j)).top i ++ s.top j := by
  have middle : s.cursor - (i + j) + i = s.cursor - j := by lia
  have lower : s.cursor - j - i = s.cursor - (i + j) := by lia
  rw [top, top, top, seek, lower, ← middle, ByteMap.read_append]

end FlatStack

/-- Adjacent arrays are encoded one after the other. -/
lemma ScalarKind.encodeAll_append (k : ScalarKind) (xs ys : List k.Carrier) :
    k.encodeAll (xs ++ ys) = k.encodeAll xs ++ k.encodeAll ys := List.flatMap_append

namespace FlatTape

variable {k : ScalarKind} {f : FlatTape} {values : List k.Carrier}

/-- A buffer that is set to what it holds stays as it is. -/
lemma hold_of_valid (held : f.valid k = values) : f.hold k values = f := by
  rw [hold, ← held, Function.update_eq_self]

/-- Of two settings of a buffer the latter counts. -/
lemma hold_hold (k : ScalarKind) (values values' : List k.Carrier) (f : FlatTape) :
    (f.hold k values).hold k values' = f.hold k values' := by
  simp only [hold, Function.update_idem]

/-! ## Pushes -/

/-- The tape with a buffer filled up with values and spilled. -/
def filled (k : ScalarKind) (values : List k.Carrier) (f : FlatTape) : FlatTape :=
  { f with
    stack := f.stack.pushed (k.encodeAll ((f.valid k).reverse ++ values)) true
    buffered :=
      f.buffered + Int64.ofNat (values.length * k.width) - Int64.ofNat (f.capacity * k.width) }.hold
    k []

/-- Scalars that fill a buffer up are held, and with the last of them the buffer is spilled. -/
lemma run_filled (room : (f.valid k).length < f.capacity)
    (full : (f.valid k).length + values.length = f.capacity)
    (found : f.stack.hasRoom ((f.stack.start true).cursor + f.capacity * k.width) = true) :
    runAll Call.performFlat (values.map (.push k)) f =
      (values.map fun _ => .ok .unit, f.filled k values) := by
  induction values generalizing f with
  | nil => exact absurd full (Nat.ne_of_lt room)
  | cons value rest ih =>
    rw [List.length_cons] at full
    cases rest with
    | nil =>
      have few : ¬ (f.valid k).length + 1 < f.capacity := Nat.not_lt.2 (Nat.le_of_eq full.symm)
      have size : (k.encodeAll (value :: f.valid k).reverse).length = f.capacity * k.width := by
        rw [k.length_encodeAll, List.length_reverse, List.length_cons, ← full, List.length_nil]
      have push : FlatStack.push (k.encodeAll (value :: f.valid k).reverse) true f.stack =
          .ok () (f.stack.pushed (k.encodeAll (value :: f.valid k).reverse) true) :=
        if_pos (size ▸ found)
      have first : (Call.push k value).performFlat f = .ok .unit _ :=
        bind_ok ((push_spill few).trans (bind_ok (onStack_ok push)))
      rw [List.map_singleton, runAll_cons_ok first, List.reverse_cons]
      simp only [List.map_singleton, filled, emptied, List.length_singleton,
        Nat.one_mul]
      rfl
    | cons next rest =>
      rw [List.length_cons] at full
      have few : (f.valid k).length + 1 < f.capacity := by
        rw [← full]
        exact Nat.add_lt_add_left (Nat.succ_lt_succ (Nat.zero_lt_succ _)) _
      have first : (Call.push k value).performFlat f = .ok .unit _ := bind_ok (push_room few)
      have length : (((f.hold k (value :: f.valid k)).countScalar k false).valid k).length =
          (f.valid k).length + 1 := congrArg List.length (valid_hold k (value :: f.valid k) f)
      have others := @ih ((f.hold k (value :: f.valid k)).countScalar k false)
        (length.symm ▸ few) (by rw [length, Nat.add_right_comm]; exact full) found
      have sum : f.buffered + Int64.ofNat k.width + Int64.ofNat ((next :: rest).length * k.width) =
          f.buffered + Int64.ofNat (((next :: rest).length + 1) * k.width) := by
        rw [Nat.succ_mul, Int64.ofNat_add, Int64.add_assoc, Int64.add_comm (Int64.ofNat k.width)]
      rw [List.map_cons, runAll_cons_ok first, others]
      refine Prod.ext rfl ?_
      simp only [filled, countScalar, hold, Function.update_idem, Function.update_self,
        List.reverse_cons, List.append_assoc, List.singleton_append, List.length_cons] at sum ⊢
      rw [← sum]
      rfl

/-- Where nothing is buffered a filled buffer is an array. -/
lemma filled_of_empty (empty : f.valid k = []) (length : values.length = f.capacity) :
    f.filled k values = { f with stack := f.stack.pushed (k.encodeAll values) true } := by
  simp only [filled, empty, length, Int64.add_sub_cancel, List.reverse_nil, List.nil_append]
  exact hold_of_valid empty

/-- Scalars that fill an empty buffer several times leave what one array of them leaves. -/
lemma run_batches {count : Nat} (positive : 0 < f.capacity) (empty : f.valid k = [])
    (length : values.length = (count + 1) * f.capacity)
    (found : f.stack.hasRoom ((f.stack.start true).cursor + values.length * k.width) = true) :
    runAll Call.performFlat (values.map (.push k)) f =
      (values.map fun _ => .ok .unit,
        { f with stack := f.stack.pushed (k.encodeAll values) true }) := by
  induction count generalizing f values with
  | zero =>
    rw [Nat.zero_add, Nat.one_mul] at length
    rw [run_filled (by rwa [empty]) (by rw [empty, length]; exact Nat.zero_add _) (length ▸ found),
      filled_of_empty empty length]
  | succ count ih =>
    rw [Nat.succ_mul] at length
    obtain ⟨first, rest, rfl, filling⟩ :
        ∃ first rest, values = first ++ rest ∧ first.length = f.capacity :=
      ⟨_, _, (List.take_append_drop f.capacity values).symm, by rw [List.length_take]; lia⟩
    rw [List.length_append, filling, Nat.add_comm, Nat.add_right_cancel_iff] at length
    rw [List.length_append, filling, Nat.add_mul, ← Nat.add_assoc] at found
    obtain ⟨found1, found2⟩ := hasRoom_of_lower (Nat.le_add_right _ _) found
    have fill : runAll Call.performFlat (first.map (.push k)) f = _ :=
      run_filled (by rwa [empty]) (by rw [empty, filling]; exact Nat.zero_add _) found1
    rw [filled_of_empty empty filling] at fill
    have size : (k.encodeAll first).length = f.capacity * k.width := by
      rw [k.length_encodeAll, filling]
    have still : (f.stack.pushed (k.encodeAll first) true).start true =
        f.stack.pushed (k.encodeAll first) true := start_of_le (floor_le_pushed _ _) true
    have found3 : (f.stack.pushed (k.encodeAll first) true).hasRoom
        (((f.stack.pushed (k.encodeAll first) true).start true).cursor + rest.length * k.width) =
          true := by
      rw [still, cursor_pushed, hasRoom_pushed, size]
      exact found2
    have others := ih (f := { f with stack := f.stack.pushed (k.encodeAll first) true }) positive
      empty length found3
    rw [List.map_append, runAll_append, fill, others, pushed_pushed, ← k.encodeAll_append,
      ← List.map_append]

/-! ## Pops -/

/-- As many pops as there are buffered values answer them and empty the buffer. -/
lemma run_held (held : f.valid k = values) :
    runAll Call.performFlat (List.replicate values.length (.pop k)) f =
      (values.map fun value => .ok (.scalar k value), f.hold k []) := by
  induction values generalizing f with
  | nil =>
    rw [hold_of_valid held]
    rfl
  | cons value rest ih =>
    have first : (Call.pop k).performFlat f = .ok (.scalar k value) _ := bind_ok (pop_held held)
    rw [List.length_cons, List.replicate_succ, runAll_cons_ok first, ih (valid_hold k rest f),
      hold_hold, List.map_cons]

/-- Pops from an empty buffer take a batch back and empty the buffer again. -/
lemma run_refilled (positive : 0 < f.capacity) (empty : f.valid k = [])
    (length : values.length = f.capacity) (enough : f.capacity * k.width ≤ f.stack.cursor)
    (top : f.stack.top (f.capacity * k.width) = k.encodeAll values) :
    runAll Call.performFlat (List.replicate f.capacity (.pop k)) f =
      (values.reverse.map fun value => .ok (.scalar k value),
        { f with stack := f.stack.popped (f.capacity * k.width) true }) := by
  have pop : FlatStack.pop (f.capacity * k.width) true f.stack =
      .ok (k.encodeAll values) (f.stack.popped (f.capacity * k.width) true) := by
    rw [FlatStack.pop, if_neg (Nat.not_lt.2 enough), top]
  have decoded : (k.decodeAll f.capacity (k.encodeAll values)).toList = values := by
    rw [← length, k.decodeAll_encodeAll]
  have run := (pop_refill empty).trans (bind_ok (onStack_ok pop))
  rw [refill, decoded] at run
  have last : values.reverse.length = f.capacity := by rw [List.length_reverse, length]
  generalize values.reverse = all at run last ⊢
  cases all with
  | nil => exact absurd last (Nat.ne_of_lt positive)
  | cons value rest =>
    have first : (Call.pop k).performFlat f = .ok (.scalar k value) _ := bind_ok run
    have others := run_held (valid_hold k rest
      { f with stack := f.stack.popped (f.capacity * k.width) true })
    have back : { f with stack := f.stack.popped (f.capacity * k.width) true }.hold k [] = _ :=
      hold_of_valid empty
    rw [hold_hold, back] at others
    have count : List.replicate f.capacity (Call.pop k) =
        .pop k :: List.replicate rest.length (.pop k) := by
      rw [← last, List.length_cons, List.replicate_succ]
    rw [count, runAll_cons_ok first, List.tail_cons, others, List.map_cons]

/-- Pops that empty a buffer several times leave what one pop of an array leaves. -/
lemma run_refills {count : Nat} (positive : 0 < f.capacity) (empty : f.valid k = [])
    (length : values.length = (count + 1) * f.capacity)
    (enough : values.length * k.width ≤ f.stack.cursor)
    (above : floor f.stack.levels ≤ f.stack.cursor - values.length * k.width)
    (top : f.stack.top (values.length * k.width) = k.encodeAll values) :
    runAll Call.performFlat (List.replicate values.length (.pop k)) f =
      (values.reverse.map fun value => .ok (.scalar k value),
        { f with stack := f.stack.popped (values.length * k.width) true }) := by
  induction count generalizing f values with
  | zero =>
    rw [Nat.zero_add, Nat.one_mul] at length
    rw [length] at enough top ⊢
    exact run_refilled positive empty length enough top
  | succ count ih =>
    rw [Nat.succ_mul] at length
    obtain ⟨rest, last, rfl, filling⟩ :
        ∃ rest last, values = rest ++ last ∧ last.length = f.capacity :=
      ⟨_, _, (List.take_append_drop (values.length - f.capacity) values).symm,
        by rw [List.length_drop]; lia⟩
    rw [List.length_append, filling, Nat.add_right_cancel_iff] at length
    rw [List.length_append, filling, Nat.add_mul] at enough above top
    have some : 0 < rest.length * k.width :=
      Nat.mul_pos (length ▸ Nat.mul_pos (Nat.succ_pos _) positive) k.width_pos
    rw [top_add f.stack enough, k.encodeAll_append] at top
    have size : (k.encodeAll last).length = (f.stack.top (f.capacity * k.width)).length := by
      rw [k.length_encodeAll, filling, FlatStack.top, ByteMap.length_read]
    obtain ⟨topRest, topLast⟩ := List.append_inj' top size.symm
    have first := run_refilled positive empty filling (by lia) topLast
    obtain ⟨still, jump⟩ := popped_popped (s := f.stack) (i := f.capacity * k.width)
      (rest.length * k.width) (by lia)
    rw [still] at first jump
    have others := ih
      (f := { f with stack := f.stack.seek (f.stack.cursor - f.capacity * k.width) })
      positive empty length (Nat.le_sub_of_add_le enough) (by
        rw [Nat.add_comm, ← Nat.sub_sub] at above
        exact above) topRest
    rw [jump] at others
    rw [List.length_append, filling, Nat.add_comm, List.replicate_add, runAll_append, first, others,
      List.reverse_append, List.map_append, Nat.add_mul]

/-- Scalars that fill an empty buffer several times do what an array of them does, and so do the
pops of as many scalars. -/
lemma run_as_array {count : Nat} (positive : 0 < f.capacity) (empty : f.valid k = [])
    (length : values.length = (count + 1) * f.capacity)
    (found : ranOut (outcome ((Call.pushArray k values).performFlat f)) = false) :
    ∃ g h, runAll Call.performFlat (values.map (.push k)) f = (values.map fun _ => .ok .unit, g) ∧
      (Call.pushArray k values).performFlat f = .ok .unit g ∧
      runAll Call.performFlat (List.replicate values.length (.pop k)) g =
        (values.reverse.map fun value => .ok (.scalar k value), h) ∧
      (Call.popArray k values.length).performFlat g = .ok (.array k values) h := by
  have size : (k.encodeAll values).length = values.length * k.width := k.length_encodeAll values
  obtain push | ⟨blocks, blockSize, full⟩ := push_cases (k.encodeAll values) true f.stack
  case inr =>
    have fails : (Call.pushArray k values).performFlat f =
        .error (.outOfMemory blocks blockSize) f :=
      bind_error (onStack_error full)
    rw [fails] at found
    cases found
  have array : (Call.pushArray k values).performFlat f =
      .ok .unit { f with stack := f.stack.pushed (k.encodeAll values) true } :=
    bind_ok (onStack_ok push)
  have room : f.stack.hasRoom ((f.stack.start true).cursor + values.length * k.width) = true := by
    rw [FlatStack.push] at push
    split at push
    case isTrue room => rwa [size] at room
    case isFalse => cases push
  -- what was written lies right below the cursor, and above what is protected
  generalize stack : f.stack.pushed (k.encodeAll values) true = s at array
  have cursor : s.cursor = f.stack.redirected.cursor + values.length * k.width := by
    rw [← stack, cursor_pushed, size]
    rfl
  have enough : values.length * k.width ≤ s.cursor := cursor ▸ Nat.le_add_left _ _
  have above : floor s.levels ≤ s.cursor - values.length * k.width := by
    rw [cursor, Nat.add_sub_cancel, ← stack, levels_pushed]
    exact (guarded_redirected f.stack).levels.floor_eq ▸ floor_le_redirected f.stack
  have top : s.top (values.length * k.width) = k.encodeAll values := by
    rw [FlatStack.top, cursor, Nat.add_sub_cancel, ← stack, bytes_pushed, ← size]
    exact ByteMap.read_write _ _ _
  have pop : FlatStack.pop (values.length * k.width) true s =
      .ok (k.encodeAll values) (s.popped (values.length * k.width) true) := by
    rw [FlatStack.pop, if_neg (Nat.not_lt.2 enough), top]
  have popped : (Call.popArray k values.length).performFlat { f with stack := s } =
      .ok (.array k (k.decodeAll values.length (k.encodeAll values)).toList)
        { f with stack := s.popped (values.length * k.width) true } :=
    bind_ok (onStack_ok (f := { f with stack := s }) pop)
  rw [k.decodeAll_encodeAll] at popped
  have pushes := run_batches positive empty length room
  rw [stack] at pushes
  exact ⟨_, _, pushes, array,
    run_refills (f := { f with stack := s }) positive empty length enough above top, popped⟩

end FlatTape

/-- Scalars one by one and an array of them are the same. On every reachable tape on which a buffer
is empty, whatever the others hold, however many levels are open and wherever the cursor is: as many
scalars as fill the buffer one or more times leave the tape that one array of them leaves, with the
same cursor, levels, marks, buffers, blocks and traffic. From either tape pops of as many scalars
answer them, the last one first, one pop of an array answers the array, and all four ways lead to
the same tape. This is asked only where memory does not run out. -/
theorem scalars_and_arrays_agree {t : Tape} (reachable : t.Reachable) {k : ScalarKind}
    (empty : (t.area.get k).index = 0) {values : List k.Carrier} {count : Nat} (some : 0 < count)
    (batches : values.length = count * t.geometry.capacity)
    (room : ranOut (outcome ((Call.pushArray k values).perform t)) = false) :
    ∃ u u' w : Tape,
      Call.performAll (values.map (.push k)) t = (values.map fun _ => .ok .unit, u) ∧
      (Call.pushArray k values).perform t = .ok .unit u' ∧ u.Identical u' ∧
      ∀ v, v = u ∨ v = u' →
        (∃ w', Call.performAll (List.replicate values.length (.pop k)) v =
            (values.reverse.map fun value => .ok (.scalar k value), w') ∧ w.Identical w') ∧
          ∃ w', (Call.popArray k values.length).perform v = .ok (.array k values) w' ∧
            w.Identical w' := by
  have sound := reachable.sound
  have held : t.flat.valid k = [] := by
    have length := (sound.blocks.buffers k).length_valid
    rw [empty, List.length_eq_zero_iff] at length
    exact congrArg List.reverse length
  obtain ⟨more, rfl⟩ := Nat.exists_eq_add_one.2 some
  rw [← outcome_through Tape.flat, (Tape.perform_commutes (.pushArray k values) t sound).2] at room
  obtain ⟨g, h, pushes, pushed, pops, popped⟩ := FlatTape.run_as_array
    (Nat.zero_lt_of_lt (sound.blocks.buffers k).index) held batches room
  obtain ⟨u, run, soundU, view⟩ := Commutes.back_all Tape.perform_commutes sound pushes
  obtain ⟨u', run', sound', view'⟩ := (Tape.perform_commutes _).back sound pushed
  obtain ⟨w, -, soundW, viewW⟩ :=
    (Tape.perform_commutes _).back sound' ((congrArg _ view').trans popped)
  have alike {v : Tape} (soundV : v.Sound) (same : v.flat = h) : w.Identical v :=
    Tape.identical_of_flat soundW soundV (same.trans viewW.symm)
  simp only [Tape.performAll_eq]
  refine ⟨u, u', w, run, run', Tape.identical_of_flat soundU sound' (view'.trans view.symm),
    fun v either => ?_⟩
  -- what pops do depends on the flat view only
  obtain ⟨soundV, same⟩ : v.Sound ∧ v.flat = g := by
    obtain rfl | rfl := either
    · exact ⟨soundU, view⟩
    · exact ⟨sound', view'⟩
  obtain ⟨w1, run1, sound1, view1⟩ :=
    Commutes.back_all Tape.perform_commutes soundV ((congrArg _ same).trans pops)
  obtain ⟨w2, run2, sound2, view2⟩ :=
    (Tape.perform_commutes _).back soundV ((congrArg _ same).trans popped)
  exact ⟨⟨w1, run1, alike sound1 view1⟩, w2, run2, alike sound2 view2⟩

/-- Two batches pushed from inside what a level protects, over the end of a block; the pops come
back to the redirect. -/
theorem scalars_and_arrays_agree_on_a_redirect :
    let values : List Int32 := [7, -1, 9, 100]
    ∃ t u u' w : Tape, t.Reachable ∧ t.stack.levels = [⟨3, 4, none⟩] ∧ t.location = 1 ∧
      (t.area.get .integer4).index = 0 ∧ values.length = 2 * t.geometry.capacity ∧
      ranOut (outcome ((Call.pushArray .integer4 values).perform t)) = false ∧
      Call.performAll (values.map (.push .integer4)) t = (values.map fun _ => .ok .unit, u) ∧
      (Call.pushArray .integer4 values).perform t = .ok .unit u' ∧ u.Identical u' ∧
      ∀ v, v = u ∨ v = u' →
        (∃ w', Call.performAll (List.replicate 4 (.pop .integer4)) v =
            (values.reverse.map fun value => .ok (.scalar .integer4 value), w') ∧
              w.Identical w') ∧
          ∃ w', (Call.popArray .integer4 4).perform v = .ok (.array .integer4 values) w' ∧
            w.Identical w' := by
  intro values
  have created : Tape.create ⟨3, 2⟩ none = .ok _ := rfl
  have reachable := (Tape.Reachable.create created).run [.pushBytes [1, 2, 3] true,
    .push .character 5, .startRepeat, .popBytes 2 true]
  obtain ⟨t, reachable, levels, location, empty, batches, room⟩ : ∃ t : Tape, t.Reachable ∧
      t.stack.levels = [⟨3, 4, none⟩] ∧ t.location = 1 ∧ (t.area.get .integer4).index = 0 ∧
      values.length = 2 * t.geometry.capacity ∧
        ranOut (outcome ((Call.pushArray .integer4 values).perform t)) = false :=
    ⟨_, reachable, by decide +kernel, by decide +kernel, by decide +kernel, by decide +kernel,
      by decide +kernel⟩
  obtain ⟨u, u', w, agree⟩ :=
    scalars_and_arrays_agree reachable empty (by decide) batches room
  exact ⟨t, u, u', w, reachable, levels, location, empty, batches, room, agree⟩

end AdjointTape

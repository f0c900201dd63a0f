import AdjointTape.Proofs.Matching

/-!
# What pops read

A pop reads the byte stack when its buffer is empty or when it asks for bytes.  While a redirect is
open the bytes between the place it comes back to and the `freePush` of its level are consumed, and
a pop that is due reads above them, for the segment it takes lies above the `freePush` of every
level whose redirect is open.  Only the active level makes the cursor jump, so a pop that is not due
may run into what an enclosing level has consumed.
-/

open AdjointTape.Action AdjointTape.FlatStack

namespace AdjointTape

/-- The last `count` bytes below the cursor of a byte stack with open levels. -/
structure Reading where
  levels : List RepeatLevel
  cursor : Location
  count : Nat

/-- Whether no byte of a reading was consumed: none lies between the place that an open redirect
comes back to and the `freePush` of its level. -/
def Reading.Avoids (r : Reading) : Prop :=
  ∀ level ∈ r.levels, ∀ back, level.backPop = some back →
    ∀ l, r.cursor - r.count ≤ l → l < r.cursor → ¬ (back ≤ l ∧ l < level.freePush)

/-- The reading of the topmost `count` bytes of a tape. -/
def Tape.reading (t : Tape) (count : Nat) : Reading := ⟨t.stack.levels, t.location, count⟩

/-- What a pop reads from the byte stack: a full buffer when its own is empty, and bytes and arrays
always.  A control tag is popped bit by bit. -/
inductive Call.Reads : Call → Tape → Reading → Prop where
  | scalar {k : ScalarKind} {t : Tape} (empty : (t.area.get k).index = 0) :
    Reads (.pop k) t (t.reading (t.geometry.capacity * k.width))
  | bit {t : Tape} (empty : t.area.bits.index = 0) : Reads .popBit t (t.reading 4)
  | control {width done value : Nat} {t u : Tape} {r : Reading} (few : width ≤ 8)
    (more : done < width) (bits : Tape.popBits done 0 t = .ok value u) (reads : Reads .popBit u r) :
    Reads (.popControl width) t r
  | array {k : ScalarKind} {count : Nat} {t : Tape} :
    Reads (.popArray k count) t (t.reading (count * k.width))
  | bytes {count : Nat} {isProtected : Bool} {t : Tape} :
    Reads (.popBytes count isProtected) t (t.reading count)

/-! ## The top segment lies above what was consumed -/

/-- A cursor lies on or above the `freePush` of every level whose redirect is open. -/
lemma Lies.open_le {m : ByteMap} {levels : List RepeatLevel} {sinces : List Nat} {cursor : Location}
    {segments : List ByteSegment} (lies : Lies m levels sinces cursor segments) {capacity : Nat}
    {marks : List Marks} (nested : FlatTape.Nested capacity levels marks)
    (timed : levels.length = sinces.length) :
    ∀ level ∈ levels, level.backPop ≠ none → level.freePush ≤ cursor := by
  induction lies generalizing marks with
  | ground bytes =>
    rw [List.length_eq_zero_iff.1 timed]
    exact nofun
  | closed none _ _ _ _ ih =>
    obtain _ | ⟨-, -, -, nested⟩ := nested
    exact List.forall_mem_cons.2
      ⟨fun backPop => absurd none backPop, ih nested (Nat.succ.inj timed)⟩
  | @opened level outer _ _ cursor _ _ _ _ _ _ _ _ beyond _ _ _ =>
    refine List.forall_mem_cons.2 ⟨fun _ => beyond, fun level' mem _ => ?_⟩
    -- levels further out protect no more than this one
    have le := nested.floor_le
    obtain _ | ⟨-, -, -, nested⟩ := nested
    exact Nat.le_trans (nested.freePush_le level' mem) (Nat.le_trans le beyond)

namespace FlatTape

variable {f : FlatTape} {sinces : List Nat} {segments : List ByteSegment} {serial : Nat}

/-- The reading of a segment that is due avoids what was consumed. -/
lemma reading_avoids {x : ByteSegment} (sound : f.Sound)
    (timed : f.stack.levels.length = sinces.length)
    (carries : f.stack.Carries sinces (x :: segments))
    (due : Due f.stack.levels.tail sinces.tail x.serial) :
    Reading.Avoids ⟨f.stack.levels, f.stack.cursor, x.data.length⟩ := by
  obtain ⟨-, -, lies⟩ := carries.lies.take (carries.due due)
  intro level mem back aside l above _ consumed
  have le := lies.open_le sound.nested timed level mem (by simp [aside])
  exact Nat.lt_irrefl _ (Nat.lt_of_lt_of_le consumed.2 (Nat.le_trans le above))

end FlatTape

/-- A buffer that is empty after a push was spilled, and its bytes lie on top. -/
lemma Stage.segments_put_scalar {s : Stage} {capacity serial : Nat} (tidy : s.Tidy capacity)
    {k : ScalarKind} {value : k.Carrier}
    (empty : (s.put capacity serial (.scalar k value)).valid k = []) :
    ∃ data, (s.put capacity serial (.scalar k value)).segments = ⟨serial, data⟩ :: s.segments ∧
      data.length = capacity * k.width := by
  rw [put] at empty ⊢
  split at empty
  case isTrue =>
    rw [valid_hold] at empty
    cases empty
  case isFalse full =>
    refine ⟨_, by rw [if_neg full]; rfl, ?_⟩
    have few := tidy.valid k
    rw [k.length_encodeAll, List.length_reverse, List.length_cons]
    exact congrArg (· * k.width) (Nat.le_antisymm few (Nat.le_of_not_lt full))

/-- A bit that leaves no bit buffered put a word on the stack. -/
lemma Stage.segments_put_bit {s : Stage} {capacity serial : Nat} {value : Bool}
    (empty : (s.put capacity serial (.bit value)).bits.index = 0) :
    ∃ data, (s.put capacity serial (.bit value)).segments = ⟨serial, data⟩ :: s.segments ∧
      data.length = 4 := by
  rw [put] at empty ⊢
  split at empty
  case isTrue full =>
    refine ⟨BitBuffer.encode (BitBuffer.append s.bits.word value), ?_,
      LittleEndian.length_encode 4 _⟩
    rw [if_pos full]
  case isFalse => cases empty

namespace FlatTape

variable {f : FlatTape} {sinces : List Nat} {base stage : Stage} {serial : Nat}

/-- A buffer that is read for a scalar that is due was not consumed. -/
lemma scalar_avoids (sound : f.Sound) (timed : f.stack.levels.length = sinces.length)
    (tidy : stage.Tidy f.capacity) {k : ScalarKind} {value : k.Carrier}
    (carries : f.Carries sinces (stage.put f.capacity serial (.scalar k value)))
    (due : Due f.stack.levels.tail sinces.tail serial) (empty : f.valid k = []) :
    Reading.Avoids ⟨f.stack.levels, f.stack.cursor, f.capacity * k.width⟩ := by
  obtain ⟨stack, valid, -⟩ := carries
  obtain ⟨data, top, length⟩ := Stage.segments_put_scalar tidy ((congrFun valid k).symm.trans empty)
  rw [top] at stack
  rw [← length]
  exact reading_avoids sound timed stack due

/-- A word that is read for a bit that is due was not consumed. -/
lemma bit_avoids (sound : f.Sound) (timed : f.stack.levels.length = sinces.length) {value : Bool}
    (carries : f.Carries sinces (stage.put f.capacity serial (.bit value)))
    (due : Due f.stack.levels.tail sinces.tail serial) (empty : f.bits.index = 0) :
    Reading.Avoids ⟨f.stack.levels, f.stack.cursor, 4⟩ := by
  obtain ⟨stack, -, bits⟩ := carries
  obtain ⟨data, top, length⟩ :=
    Stage.segments_put_bit ((BitBuffer.index_congr bits).symm.trans empty)
  rw [top] at stack
  rw [← length]
  exact reading_avoids sound timed stack due

/-- When some bits of a tag are taken off there is one more on top. -/
lemma bits_avoid {g : FlatTape} (sound : f.Sound) (timed : f.stack.levels.length = sinces.length)
    (tidy : base.Tidy f.capacity) {bits : List Bool} {taken value : Nat}
    (more : taken < bits.length)
    {atoms : List (Nat × Atom)}
    (carries : f.Carries sinces (.of f.capacity base (bitAtoms serial bits ++ atoms)))
    (due : Due f.stack.levels.tail sinces.tail serial) (run : popBits taken 0 f = .ok value g)
    (empty : g.bits.index = 0) : Reading.Avoids ⟨g.stack.levels, g.stack.cursor, 4⟩ := by
  have split : bitAtoms serial bits ++ atoms = bitAtoms serial (bits.take taken) ++
      ((serial, .bit bits[taken]) :: bitAtoms serial (bits.drop (taken + 1)) ++ atoms) := by
    conv_lhs => rw [← bits.take_append_drop taken, List.drop_eq_getElem_cons more]
    rw [bitAtoms, List.map_append, List.append_assoc]
    rfl
  rw [split] at carries
  obtain ⟨g', run', carries'⟩ := carries_popBits tidy carries due 0
  rw [List.length_take_of_le (Nat.le_of_lt more), run] at run'
  obtain ⟨-, rfl⟩ := EStateM.Result.ok.inj run'
  have step : Guarded f g := after_ok run ▸ steps_popBits taken 0 f
  rw [← step.capacity] at carries'
  exact bit_avoids (step.sound sound) (step.stack.levels.length_eq.trans timed) carries'
    (step.stack.levels.tail_eq ▸ due) empty

end FlatTape

/-- A pop of the last item reads what was not consumed when the item is due. -/
lemma Item.reading_avoids {item : Item} (fits : item.Fits) {t : Tape} (sound : t.Sound)
    {sinces : List Nat} (timed : t.stack.levels.length = sinces.length) {base : Stage}
    (tidy : base.Tidy t.flat.capacity) {serial : Nat} {atoms : List (Nat × Atom)}
    (carries : t.flat.Carries sinces (.of t.flat.capacity base (item.atoms serial ++ atoms)))
    (due : Due t.stack.levels.tail sinces.tail serial) {r : Reading}
    (reads : item.popCall.Reads t r) : r.Avoids := by
  have levels := sound.levels
  cases item with
  | scalar k value =>
    cases reads with
    | scalar empty =>
      have none : t.flat.valid k = [] := by
        rw [← List.length_eq_zero_iff, Tape.flat, List.length_reverse,
          (sound.blocks.buffers k).length_valid]
        exact empty
      exact FlatTape.scalar_avoids levels timed (tidy.of atoms) carries due none
  | bit value =>
    cases reads with
    | bit empty => exact FlatTape.bit_avoids levels timed carries due empty
  | control value width =>
    cases reads with
    | @control _ taken _ _ u _ few more bits reads =>
      cases reads with
      | bit empty =>
        obtain ⟨low, -, -⟩ := fits
        obtain ⟨-, view⟩ := Tape.popBits_commutes taken 0 t sound.blocks
        rw [bits] at view
        have length : (Tape.controlBits (width - 1) value).reverse.length = width := by
          rw [List.length_reverse, FlatTape.length_controlBits, Nat.sub_add_cancel low]
        exact FlatTape.bits_avoid levels timed tidy (length.symm ▸ more) carries due view.symm empty
  | array k values =>
    cases reads with
    | array =>
      rw [← k.length_encodeAll values]
      exact FlatTape.reading_avoids levels timed carries.stack due
  | bytes data =>
    cases reads with
    | bytes => exact FlatTape.reading_avoids levels timed carries.stack due

/-! ## Runs -/

/-- Tapes and ledgers that calls lead to from a new tape and the empty ledger. The calls keep to the
order of the stack, the pops also to a rule, and memory does not run out. -/
inductive Tape.Follows (rule : List RepeatLevel → Ledger → Prop) : Tape → Ledger → Prop where
  | create {geometry : Geometry} {limit : Option Nat} {t : Tape}
    (created : Tape.create geometry limit = .ok t) : Follows rule t .empty
  | call {t : Tape} {s s' : Ledger} {c : Call} {a : Answer} (follows : Follows rule t s)
    (move : Ledger.Move s c a s') (keeps : c.isPop = true → rule t.stack.levels s)
    (room : ranOut (outcome (c.perform t)) = false) : Follows rule (after (c.perform t)) s'

/-- A tape that follows a ledger under the rule of due items matches it. -/
lemma Tape.Follows.matches {t : Tape} {s : Ledger}
    (follows : t.Follows (fun levels s => s.Due levels) s) :
    t.Matches .empty s := by
  induction follows with
  | create created =>
    obtain ⟨sound, flat⟩ := Tape.create_spec created
    exact ⟨sound, flat ▸ FlatTape.matches_empty (flat ▸ sound.levels)⟩
  | call follows move keeps room ih =>
    obtain ⟨t', run, same⟩ := ih.move move keeps room
    rw [run]
    exact same

/-- Pops that are due do not read what was consumed. Along every run from a new tape whose calls
keep to the order of the stack, closing a level only when what was pushed in it is popped: as long
as a pop below an enclosing level whose redirect is open takes only what was pushed since this level
was opened or restarted, no pop reads a byte between the place that an open redirect comes back to
and the `freePush` of its level, whichever level this is. -/
theorem due_pops_avoid_what_was_consumed {t : Tape} {s s' : Ledger} {c : Call} {a : Answer}
    (follows : t.Follows (fun levels s => s.Due levels) s) (move : Ledger.Move s c a s')
    (due : c.isPop = true → s.Due t.stack.levels) {r : Reading} (reads : c.Reads t r) :
    r.Avoids := by
  obtain ⟨sound, same⟩ := follows.matches
  cases move with
  | push item fits => cases item <;> cases reads
  | @pop entry _ _ _ =>
    obtain ⟨fits, -⟩ := same.above.orderly.entries entry List.mem_cons_self
    have last := due (by cases entry.item <;> rfl) entry rfl
    exact Item.reading_avoids fits sound same.kept.length_eq same.tidy same.carries last reads
  | startRepeat => cases reads
  | resetRepeat => cases reads
  | endRepeat old => cases reads

/-- A pop in an inner level that takes what was pushed behind the open redirect of the outer one. -/
theorem due_pops_avoid_what_was_consumed_behind_a_redirect :
    ∃ (t : Tape) (s s' : Ledger) (c : Call) (a : Answer) (r : Reading),
      t.Follows (fun levels s => s.Due levels) s ∧ Ledger.Move s c a s' ∧
        (c.isPop = true → s.Due t.stack.levels) ∧ c.Reads t r ∧
        r.levels = [⟨3, 3, none⟩, ⟨2, 2, some 1⟩] ∧ r.Avoids := by
  have created : Tape.create ⟨4, 4⟩ none = .ok _ := rfl
  have run := @Tape.Follows.create (fun levels s => s.Due levels) _ _ _ created
  have run := run.call (.push (.bytes [1]) trivial) (by decide +kernel) (by decide +kernel)
  have run := run.call (.push (.bytes [2]) trivial) (by decide +kernel) (by decide +kernel)
  have run := run.call .startRepeat (by decide +kernel) (by decide +kernel)
  have run := run.call .pop (by decide +kernel) (by decide +kernel)
  have run := run.call (.push (.bytes [9]) trivial) (by decide +kernel) (by decide +kernel)
  have run := run.call .startRepeat (by decide +kernel) (by decide +kernel)
  exact ⟨_, _, _, _, _, _, run, .pop, by decide +kernel, .bytes, by decide +kernel,
    due_pops_avoid_what_was_consumed run .pop (by decide +kernel) .bytes⟩

/-- Without this rule a pop may read what was consumed: a pop inside the inner level brings the
cursor down to the `freePush` of the outer one, whose redirect is open but not looked at, and the
next one reads on below it. -/
theorem pops_may_read_what_was_consumed :
    ¬ ∀ (t : Tape) (s s' : Ledger) (c : Call) (a : Answer) (r : Reading),
      t.Follows (fun _ _ => True) s → Ledger.Move s c a s' → c.Reads t r → r.Avoids := by
  intro law
  have created : Tape.create ⟨4, 4⟩ none = .ok _ := rfl
  have run := @Tape.Follows.create (fun _ _ => True) _ _ _ created
  have run := run.call (.push (.bytes [1]) trivial) (fun _ => trivial) (by decide +kernel)
  have run := run.call (.push (.bytes [2]) trivial) (fun _ => trivial) (by decide +kernel)
  have run := run.call .startRepeat (fun _ => trivial) (by decide +kernel)
  have run := run.call .pop (fun _ => trivial) (by decide +kernel)
  have run := run.call (.push (.bytes [9]) trivial) (fun _ => trivial) (by decide +kernel)
  have run := run.call .startRepeat (fun _ => trivial) (by decide +kernel)
  have run := run.call .pop (fun _ => trivial) (by decide +kernel)
  have avoids := law _ _ _ _ _ _ run .pop .bytes
  exact avoids ⟨2, 2, some 1⟩ (by decide +kernel) 1 rfl 1 (by decide +kernel) (by decide +kernel)
    (by decide)

end AdjointTape

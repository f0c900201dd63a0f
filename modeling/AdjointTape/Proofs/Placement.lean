import AdjointTape.Proofs.Stage

/-!
# Segments under repeat levels

While levels are open the segments of a stack do not lie one behind the other.  A level whose
redirect is open has the segments that were pushed since it was opened behind its `freePush`, and
the others end where its redirect comes back to; a level whose redirect is not open breaks nothing
up.  A push puts a segment on top and a pop takes the top one off, wherever it lies.
-/

open AdjointTape.Action AdjointTape.FlatStack

namespace AdjointTape

/-- Segments split into those that were pushed since a time and those that were pushed before. -/
structure Parted (since : Nat) (above below : List ByteSegment) : Prop where
  above : ∀ x ∈ above, since ≤ x.serial
  below : ∀ x ∈ below, x.serial < since

/-- The serial numbers tell which segments were pushed since. -/
lemma Parted.above_eq {since : Nat} {above below : List ByteSegment}
    (parted : Parted since above below) :
    above = (above ++ below).filter fun x => since ≤ x.serial := by
  have late : above.filter (fun x => since ≤ x.serial) = above :=
    List.filter_eq_self.2 fun x mem => decide_eq_true (parted.above x mem)
  have early : below.filter (fun x => since ≤ x.serial) = [] :=
    List.filter_eq_nil_iff.2 fun x mem => by simpa using parted.below x mem
  rw [List.filter_append, late, early, List.append_nil]

/-- Segments can be split in one way only. -/
lemma Parted.unique {since : Nat} {above below above' below' : List ByteSegment}
    (parts : above ++ below = above' ++ below') (parted : Parted since above below)
    (parted' : Parted since above' below') : above = above' ∧ below = below' := by
  have same : above = above' :=
    parted.above_eq.trans ((congrArg _ parts).trans parted'.above_eq.symm)
  subst same
  exact ⟨rfl, List.append_cancel_left parts⟩

/-- Where the top segment was pushed before, all of them were. -/
lemma Parted.all_below {since : Nat} {x : ByteSegment} {segments above below : List ByteSegment}
    (parted : Parted since above below) (parts : x :: segments = above ++ below)
    (old : x.serial < since) : above = [] ∧ below = x :: segments := by
  cases above with
  | nil => exact ⟨rfl, parts.symm⟩
  | cons y above =>
    obtain ⟨rfl, -⟩ := List.cons.inj parts
    exact absurd (parted.above x List.mem_cons_self) (Nat.not_le.2 old)

/-- Segments lie under levels that were opened or restarted at the given times, with a cursor on
top.  Levels further out, for which no time is given, are not looked at. -/
inductive Lies (m : ByteMap) :
    List RepeatLevel → List Nat → Location → List ByteSegment → Prop where
  | ground {levels : List RepeatLevel} {cursor : Location} {segments : List ByteSegment}
    (bytes : m.read 0 cursor = spell segments) : Lies m levels [] cursor segments
  | closed {level : RepeatLevel} {outer : List RepeatLevel} {since : Nat} {sinces : List Nat}
    {cursor : Location} {segments above below : List ByteSegment} (none : level.backPop = none)
    (parts : segments = above ++ below) (parted : Parted since above below)
    (beyond : spell above = [] ∨ level.freePush + (spell above).length ≤ cursor)
    (lies : Lies m outer sinces cursor segments) :
    Lies m (level :: outer) (since :: sinces) cursor segments
  | opened {level : RepeatLevel} {outer : List RepeatLevel} {since : Nat} {sinces : List Nat}
    {cursor back : Location} {segments above below : List ByteSegment}
    (some : level.backPop = some back)
    (before : back < level.freePush) (parts : segments = above ++ below)
    (parted : Parted since above below) (beyond : level.freePush ≤ cursor)
    (bytes : m.read level.freePush (cursor - level.freePush) = spell above)
    (lies : Lies m outer sinces back below) :
    Lies m (level :: outer) (since :: sinces) cursor segments

/-- Whether the last push with a serial number may be undone: every level whose redirect is open was
opened or restarted before it. -/
def Due (levels : List RepeatLevel) (sinces : List Nat) (serial : Nat) : Prop :=
  ∀ p ∈ levels.zip sinces, p.1.backPop ≠ none → p.2 ≤ serial

instance (levels : List RepeatLevel) (sinces : List Nat) (serial : Nat) :
    Decidable (Due levels sinces serial) :=
  inferInstanceAs (Decidable (∀ p ∈ levels.zip sinces, p.1.backPop ≠ none → p.2 ≤ serial))

/-- What was pushed since all levels may be popped. -/
lemma due_of_recent {levels : List RepeatLevel} {sinces : List Nat} {serial : Nat}
    (recent : ∀ since ∈ sinces, since ≤ serial) : Due levels sinces serial :=
  fun p mem _ => recent p.2 (List.of_mem_zip mem).2

namespace Lies

variable {m : ByteMap} {levels : List RepeatLevel} {sinces : List Nat} {cursor : Location}
  {segments : List ByteSegment}

/-- Under no level the segments are all there is. -/
lemma spelt (lies : Lies m levels [] cursor segments) : m.read 0 cursor = spell segments := by
  cases lies with
  | ground bytes => exact bytes

/-- Only the bytes below the cursor matter. -/
lemma congr {m' : ByteMap} (lies : Lies m levels sinces cursor segments)
    (same : ∀ l < cursor, m' l = m l) : Lies m' levels sinces cursor segments := by
  induction lies with
  | ground bytes =>
    refine .ground (Eq.trans ?_ bytes)
    exact ByteMap.read_congr fun l _ below => same l (by simpa using below)
  | closed none parts parted beyond _ ih => exact .closed none parts parted beyond (ih same)
  | opened some before parts parted beyond bytes _ ih =>
    refine .opened some before parts parted beyond (Eq.trans ?_ bytes) (ih fun l below => ?_)
    · refine ByteMap.read_congr fun l _ below => same l ?_
      rwa [Nat.add_sub_cancel' beyond] at below
    · exact same l (Nat.lt_of_lt_of_le below (Nat.le_trans (Nat.le_of_lt before) beyond))

/-- A level whose redirect is not open goes over segments that were pushed before. -/
lemma coveredBy {level : RepeatLevel} {since : Nat} (lies : Lies m levels sinces cursor segments)
    (none : level.backPop = none) (old : ∀ x ∈ segments, x.serial < since) :
    Lies m (level :: levels) (since :: sinces) cursor segments :=
  .closed none (List.nil_append segments).symm ⟨nofun, old⟩ (.inl rfl) lies

/-- A segment that is pushed on or above every `freePush`. -/
lemma put (lies : Lies m levels sinces cursor segments) (x : ByteSegment)
    (above : ∀ level ∈ levels, level.freePush ≤ cursor)
    (recent : ∀ since ∈ sinces, since ≤ x.serial) :
    Lies (m.write cursor x.data) levels sinces (cursor + x.data.length) (x :: segments) := by
  induction lies with
  | ground bytes =>
    refine .ground ?_
    rw [← ByteMap.read_append, ByteMap.read_write_below _ _ (Nat.le_of_eq (Nat.zero_add _)), bytes,
      Nat.zero_add, ByteMap.read_write, spell]
  | @closed level outer since sinces cursor segments upper lower none parts parted beyond _ ih =>
    refine .closed none (?_ : x :: segments = (x :: upper) ++ lower) ⟨?_, parted.below⟩ (.inr ?_)
      (ih (fun y mem => above y (List.mem_cons_of_mem _ mem))
        fun s mem => recent s (List.mem_cons_of_mem _ mem))
    · rw [parts, List.cons_append]
    · intro y mem
      obtain rfl | mem := List.mem_cons.1 mem
      · exact recent _ List.mem_cons_self
      · exact parted.above y mem
    · have le := above level List.mem_cons_self
      rw [spell, List.length_append]
      obtain empty | beyond := beyond
      · rw [empty, List.length_nil]
        lia
      · lia
  | @opened level outer since sinces cursor back segments upper lower some before parts parted
      beyond bytes lies _ =>
    refine .opened some before (?_ : x :: segments = (x :: upper) ++ lower) ⟨?_, parted.below⟩
      (Nat.le_trans beyond (Nat.le_add_right _ _)) ?_ (lies.congr fun l lt => ?_)
    · rw [parts, List.cons_append]
    · intro y mem
      obtain rfl | mem := List.mem_cons.1 mem
      · exact recent _ List.mem_cons_self
      · exact parted.above y mem
    · have place : level.freePush + (cursor - level.freePush) = cursor := Nat.add_sub_cancel' beyond
      have length : cursor + x.data.length - level.freePush =
          cursor - level.freePush + x.data.length := by lia
      rw [length, ← ByteMap.read_append, ByteMap.read_write_below _ _ (Nat.le_of_eq place), place,
        ByteMap.read_write, bytes, spell]
    · have le := Nat.le_trans (Nat.le_of_lt before) beyond
      exact ByteMap.write_below _ _ (Nat.lt_of_lt_of_le lt le)

/-- What ends in a segment's bytes has them on top. -/
lemma read_top {start count : Nat} {before data : List UInt8}
    (bytes : m.read start count = before ++ data) :
    data.length ≤ count ∧ m.read (start + (count - data.length)) data.length = data ∧
      m.read start (count - data.length) = before := by
  have length := congrArg List.length bytes
  rw [ByteMap.length_read, List.length_append] at length
  have enough : data.length ≤ count := by omega
  have split := ByteMap.read_append m start (count - data.length) data.length
  rw [Nat.sub_add_cancel enough, bytes] at split
  obtain ⟨first, last⟩ := List.append_inj split (by rw [ByteMap.length_read]; omega)
  exact ⟨enough, last, first⟩

/-- The top segment lies below the cursor when it is due. -/
lemma take {x : ByteSegment} (lies : Lies m levels sinces cursor (x :: segments))
    (due : Due levels sinces x.serial) :
    x.data.length ≤ cursor ∧ m.read (cursor - x.data.length) x.data.length = x.data ∧
      Lies m levels sinces (cursor - x.data.length) segments := by
  generalize e : x :: segments = all at lies
  -- the closed levels on top are passed, and the first open one has the segment above it
  induction lies generalizing segments with
  | ground bytes =>
    subst e
    obtain ⟨enough, last, first⟩ := read_top bytes
    rw [Nat.zero_add] at last
    exact ⟨enough, last, .ground first⟩
  | @closed level outer since sinces cursor all upper lower none parts parted beyond _ ih =>
    subst e
    obtain ⟨-, due⟩ := List.forall_mem_cons.1 due
    obtain ⟨enough, last, lies⟩ := ih due rfl
    refine ⟨enough, last, ?_⟩
    cases upper with
    | nil =>
      obtain rfl : x :: segments = lower := parts
      exact lies.coveredBy none fun y mem => parted.below y (List.mem_cons_of_mem _ mem)
    | cons y upper =>
      obtain ⟨rfl, rfl⟩ := List.cons.inj parts
      refine .closed none rfl
        ⟨fun z mem => parted.above z (List.mem_cons_of_mem _ mem), parted.below⟩ ?_ lies
      rw [spell, List.append_eq_nil_iff, List.length_append] at beyond
      obtain ⟨empty, -⟩ | beyond := beyond
      · exact .inl empty
      · exact .inr (by lia)
  | @opened level outer since sinces cursor back all upper lower some before parts parted beyond
      bytes lies _ =>
    subst e
    cases upper with
    | nil =>
      have old := parted.below x (show x ∈ lower from parts.subst List.mem_cons_self)
      exact absurd (due _ List.mem_cons_self (by simp [some])) (Nat.not_le.2 old)
    | cons y upper =>
      obtain ⟨rfl, rfl⟩ := List.cons.inj parts
      obtain ⟨enough, last, first⟩ := read_top bytes
      have place : level.freePush + (cursor - level.freePush - x.data.length) =
          cursor - x.data.length := by lia
      have left : cursor - level.freePush - x.data.length =
          cursor - x.data.length - level.freePush := by lia
      rw [place] at last
      rw [left] at first
      have parted : Parted since upper lower :=
        ⟨fun z mem => parted.above z (List.mem_cons_of_mem _ mem), parted.below⟩
      exact ⟨by lia, last, .opened some before rfl parted (by lia) first lies⟩

/-- Segments without bytes can be taken off. -/
lemma drop {above : List ByteSegment} (lies : Lies m levels sinces cursor (above ++ segments))
    (empty : spell above = []) (recent : ∀ since ∈ sinces, ∀ x ∈ above, since ≤ x.serial) :
    Lies m levels sinces cursor segments := by
  induction above with
  | nil => exact lies
  | cons x above ih =>
    rw [spell, List.append_eq_nil_iff] at empty
    obtain ⟨-, -, lies⟩ :=
      lies.take (due_of_recent fun since mem => recent since mem x List.mem_cons_self)
    rw [empty.2] at lies
    exact ih lies empty.1 fun since mem y mem' => recent since mem y (List.mem_cons_of_mem _ mem')

/-- Segments without bytes can be put on. -/
lemma lift {above : List ByteSegment} (lies : Lies m levels sinces cursor segments)
    (empty : spell above = []) (recent : ∀ since ∈ sinces, ∀ x ∈ above, since ≤ x.serial) :
    Lies m levels sinces cursor (above ++ segments) := by
  induction lies with
  | ground bytes => exact .ground (by rw [bytes, spell_append, empty, List.append_nil])
  | @closed level outer since sinces cursor all upper lower none parts parted beyond _ ih =>
    refine .closed none (?_ : above ++ all = (above ++ upper) ++ lower) ⟨?_, parted.below⟩ ?_
      (ih fun s mem => recent s (List.mem_cons_of_mem _ mem))
    · rw [parts, List.append_assoc]
    · intro x mem
      exact (List.mem_append.1 mem).elim (recent since List.mem_cons_self x) (parted.above x)
    · rw [spell_append, empty, List.append_nil]
      exact beyond
  | @opened level outer since sinces cursor back all upper lower some before parts parted beyond
      bytes lies _ =>
    refine .opened some before (?_ : above ++ all = (above ++ upper) ++ lower)
      ⟨?_, parted.below⟩ beyond ?_ lies
    · rw [parts, List.append_assoc]
    · intro x mem
      exact (List.mem_append.1 mem).elim (recent since List.mem_cons_self x) (parted.above x)
    · rw [spell_append, empty, List.append_nil]
      exact bytes

end Lies

/-! ## Stacks that carry segments -/

/-- An active level whose redirect is open has a segment that was pushed since. -/
def Settled (levels : List RepeatLevel) (sinces : List Nat) (segments : List ByteSegment) : Prop :=
  ∀ level outer since rest, levels = level :: outer → sinces = since :: rest →
    level.backPop ≠ none → ∃ x ∈ segments, since ≤ x.serial

/-- A stack with segments under its levels, the inner ones opened or restarted after the outer ones.
If there is an active level its time is given. -/
structure FlatStack.Carries (s : FlatStack) (sinces : List Nat) (segments : List ByteSegment) :
    Prop where
  lies : Lies s.bytes s.levels sinces s.cursor segments
  settled : Settled s.levels sinces segments
  sorted : sinces.Pairwise (· ≥ ·)
  timed : sinces = [] → s.levels = []

namespace FlatStack

/-- With no level open there is nothing to settle. -/
lemma carries_ground {s : FlatStack} {segments : List ByteSegment} (levels : s.levels = [])
    (lies : Lies s.bytes s.levels [] s.cursor segments) : s.Carries [] segments :=
  ⟨lies, (fun _ _ _ _ _ times => nomatch times), .nil, fun _ => levels⟩

/-- A redirect lays the segments under the level that it leaves. -/
lemma lies_redirected {s : FlatStack} {sinces : List Nat} {segments : List ByteSegment}
    (carries : s.Carries sinces segments) :
    Lies s.redirected.bytes s.redirected.levels sinces s.redirected.cursor segments := by
  obtain ⟨bytes, cursor, levels, traffic, blockSize, blocks, memory⟩ := s
  obtain ⟨lies, -, sorted, timed⟩ := carries
  cases levels with
  | nil => exact lies
  | cons level outer =>
    simp only [redirected]
    split
    case isFalse => exact lies
    case isTrue low =>
      cases lies with
      | ground _ => cases timed rfl
      | @closed _ _ since sinces _ _ above below none parts parted beyond lies =>
        -- a level with bytes of its own has the cursor above them
        have empty : spell above = [] := beyond.resolve_right fun le =>
          Nat.lt_irrefl _ (Nat.lt_of_lt_of_le low (Nat.le_trans (Nat.le_add_right _ _) le))
        obtain ⟨older, -⟩ := List.pairwise_cons.1 sorted
        refine .opened rfl low parts parted (Nat.le_refl _) ?_
          (Lies.drop (parts ▸ lies) empty fun s mem x mem' => ?_)
        · rw [Nat.sub_self, empty]
          rfl
        · exact Nat.le_trans (older s mem) (parted.above x mem')
      | opened _ _ _ _ beyond _ _ => exact absurd low (Nat.not_lt.2 beyond)

/-- A jump back leaves a stack that carries the segments. -/
lemma carries_rejoined {s : FlatStack} {sinces : List Nat} {segments : List ByteSegment}
    (lies : Lies s.bytes s.levels sinces s.cursor segments) (sorted : sinces.Pairwise (· ≥ ·))
    (timed : sinces = [] → s.levels = []) : s.rejoined.Carries sinces segments := by
  obtain ⟨bytes, cursor, levels, traffic, blockSize, blocks, memory⟩ := s
  cases lies with
  | ground bytes =>
    obtain rfl : levels = [] := timed rfl
    exact ⟨.ground bytes, nofun, sorted, timed⟩
  | @closed level outer since sinces _ _ above below none parts parted beyond lies =>
    simp only [rejoined, none]
    refine ⟨.closed none parts parted beyond lies, ?_, sorted, fun empty => by cases empty⟩
    rintro _ _ _ _ ⟨rfl, rfl⟩ - backPop
    exact absurd none backPop
  | @opened level outer since sinces _ back _ above below some before parts parted beyond spelt
      lies =>
    simp only [rejoined, some]
    split
    case isTrue on =>
      -- on `freePush` no byte is left above, but empty segments may be
      have empty : spell above = [] := by
        rw [← spelt, on, Nat.sub_self]
        rfl
      obtain ⟨older, -⟩ := List.pairwise_cons.1 sorted
      refine ⟨.closed rfl parts parted (.inl empty) ?_, ?_, sorted, fun empty => by cases empty⟩
      · rw [parts]
        exact lies.lift empty fun s mem x mem' => Nat.le_trans (older s mem) (parted.above x mem')
      · rintro _ _ _ _ ⟨rfl, rfl⟩ - backPop
        exact absurd rfl backPop
    case isFalse off =>
      refine ⟨.opened some before parts parted beyond spelt lies, ?_, sorted,
        fun empty => by cases empty⟩
      rintro _ _ _ _ ⟨rfl, rfl⟩ ⟨rfl, rfl⟩ -
      -- off `freePush` there are bytes above, and so there is a segment
      cases above with
      | nil =>
        have length := congrArg List.length spelt
        rw [ByteMap.length_read] at length
        exact absurd (Nat.le_antisymm (Nat.le_of_sub_eq_zero length) beyond) off
      | cons x above =>
        exact ⟨x, parts ▸ List.mem_cons_self, parted.above x List.mem_cons_self⟩

namespace Carries

variable {s : FlatStack} {sinces : List Nat} {segments : List ByteSegment}

/-- A protected push puts a segment on top. -/
lemma pushed (carries : s.Carries sinces segments) (x : ByteSegment)
    (nested : ∀ level ∈ s.redirected.levels, level.freePush ≤ floor s.levels)
    (recent : ∀ since ∈ sinces, since ≤ x.serial) :
    (s.pushed x.data true).Carries sinces (x :: segments) := by
  have above level (mem : level ∈ s.redirected.levels) : level.freePush ≤ s.redirected.cursor :=
    Nat.le_trans (nested level mem) (floor_le_redirected s)
  refine ⟨(lies_redirected carries).put x above recent, ?_, carries.sorted, fun none => ?_⟩
  · rintro _ _ since rest - rfl -
    exact ⟨x, List.mem_cons_self, recent since List.mem_cons_self⟩
  · have redirects := (guarded_redirected s).levels
    rw [carries.timed none] at redirects
    exact List.length_eq_zero_iff.1 redirects.length_eq

/-- An active level whose redirect is open has a recent segment, and then the top one is recent. -/
lemma due {x : ByteSegment} (carries : s.Carries sinces (x :: segments))
    (due : Due s.levels.tail sinces.tail x.serial) : Due s.levels sinces x.serial := by
  obtain ⟨bytes, cursor, levels, traffic, blockSize, blocks, memory⟩ := s
  obtain ⟨lies, settled, -, -⟩ := carries
  cases lies with
  | ground _ =>
    rw [Due, List.zip_nil_right]
    exact nofun
  | closed none _ _ _ _ =>
    exact List.forall_mem_cons.2 ⟨fun backPop => absurd none backPop, due⟩
  | opened some _ parts parted _ _ _ =>
    refine List.forall_mem_cons.2 ⟨fun backPop => ?_, due⟩
    by_contra early
    obtain ⟨-, rfl⟩ := parted.all_below parts (Nat.lt_of_not_le early)
    obtain ⟨y, mem, late⟩ := settled _ _ _ _ rfl rfl backPop
    exact absurd (parted.below y mem) (Nat.not_lt.2 late)

/-- A segment that is due is popped as it was pushed. -/
lemma popped {x : ByteSegment} (carries : s.Carries sinces (x :: segments))
    (due : Due s.levels.tail sinces.tail x.serial) :
    x.data.length ≤ s.cursor ∧ s.top x.data.length = x.data ∧
      (s.popped x.data.length true).Carries sinces segments := by
  obtain ⟨enough, top, lies⟩ := carries.lies.take (carries.due due)
  exact ⟨enough, top, carries_rejoined (s := s.seek (s.cursor - x.data.length)) lies
    carries.sorted carries.timed⟩

/-- A level whose redirect is not open goes over segments that were pushed before. -/
lemma coveredBy {level : RepeatLevel} {outer : List RepeatLevel} {since : Nat}
    (levels : s.levels = level :: outer) (none : level.backPop = none)
    (old : ∀ x ∈ segments, x.serial < since) (lies : Lies s.bytes outer sinces s.cursor segments)
    (sorted : (since :: sinces).Pairwise (· ≥ ·)) : s.Carries (since :: sinces) segments := by
  refine ⟨?_, ?_, sorted, nofun⟩
  · rw [levels]
    exact lies.coveredBy none old
  · rw [levels]
    rintro _ _ _ _ ⟨rfl, rfl⟩ - backPop
    exact absurd none backPop

/-- A level with no segment that was pushed since has no redirect open, and comes off. -/
lemma under {level : RepeatLevel} {outer : List RepeatLevel} {since : Nat}
    (carries : s.Carries (since :: sinces) segments) (levels : s.levels = level :: outer)
    (old : ∀ x ∈ segments, x.serial < since) :
    level.backPop = none ∧ Lies s.bytes outer sinces s.cursor segments := by
  obtain ⟨lies, settled, -, -⟩ := carries
  have none : level.backPop = none := by
    by_contra backPop
    obtain ⟨x, mem, late⟩ := settled level outer since sinces levels rfl backPop
    exact absurd (old x mem) (Nat.not_lt.2 late)
  rw [levels] at lies
  cases lies with
  | closed _ _ _ _ lies => exact ⟨none, lies⟩
  | opened some _ _ _ _ _ _ =>
    rw [none] at some
    cases some

end Carries

end FlatStack

end AdjointTape

import AdjointTape.Proofs.Course
import AdjointTape.Proofs.Sweeping

/-!
# What replays cost

Under its level every replay of a segment begins where the first one began, with buffers filled as
far.  So a replay pushes as much as the first one, and what it puts on the stack goes to the places
where the first one put it: a sweep that replays more takes no more blocks, and its traffic grows by
the same amount with every replay.
-/

open AdjointTape.Action

namespace AdjointTape

/-! ## Calls that stay under the open levels -/

/-- Every call of a script stays under the open levels. -/
def Script.Stays (p : Script) : Prop := ∀ c ∈ p.calls, c.Stays

namespace Script.Stays

/-- One script behind another one stays when both do. -/
lemma append {p q : Script} (hp : p.Stays) (hq : q.Stays) : (p ++ q).Stays := fun c mem =>
  (List.mem_append.1 mem).elim (hp c) (hq c)

/-- A script for each element stays when each one does. -/
lemma each {γ : Type} {script : γ → Script} (stays : ∀ x, (script x).Stays) (xs : List γ) :
    (Script.each script xs).Stays := by
  intro c mem
  rw [calls_each] at mem
  obtain ⟨x, -, mem⟩ := List.mem_flatMap.1 mem
  exact stays x c mem

/-- A line makes no call. -/
lemma line (pieces : List String) : (ofLine pieces).Stays := fun _ mem => nomatch mem

/-- The count of a step makes no call. -/
lemma counted : Script.counted.Stays := fun _ mem => nomatch mem

/-- Pushing items opens no level and closes none. -/
lemma pushes (items : List Item) : (ofCalls (Item.pushes items)).Stays := by
  intro c mem
  obtain ⟨item, -, rfl⟩ := List.mem_map.1 mem
  cases item <;> exact ⟨nofun, nofun, rfl⟩

/-- Popping items opens no level and closes none. -/
lemma pops (items : List Item) : (ofCalls (Item.pops items)).Stays := by
  intro c mem
  obtain ⟨item, -, rfl⟩ := List.mem_map.1 mem
  cases item <;> exact ⟨nofun, nofun, rfl⟩

/-- A replay opens no level and closes none. -/
lemma visit (segment : Segment) (left : Nat) : (Sweep.visitScript segment left).Stays :=
  ((pops _).append (line _)).append
    ((each (fun _ => (pushes _).append (line _)) _).append
      (each (fun _ => (pops _).append ((line _).append counted)) _))

end Script.Stays

/-! ## Tapes that are as far as each other -/

namespace FlatStack.Abreast

variable {ahead : Nat} {s t u : FlatStack}

/-- Where the first stack has the blocks already, neither is ahead. -/
lemma level (abreast : Abreast ahead s t) (there : ahead ≤ s.blocks) : Abreast 0 s t := by
  obtain ⟨cursor, levels, blockSize, blocks, memory⟩ := abreast
  rw [Nat.max_eq_left there, ← Nat.max_zero s.blocks] at blocks
  exact ⟨cursor, levels, blockSize, blocks, memory⟩

/-- Where neither is ahead, either stack can be the first. -/
lemma symm (abreast : Abreast 0 s t) : Abreast 0 t s := by
  obtain ⟨cursor, levels, blockSize, blocks, memory⟩ := abreast
  rw [Nat.max_zero] at blocks
  rw [blocks, Nat.sub_self] at memory
  refine ⟨cursor.symm, levels.symm, blockSize.symm, ?_, ?_⟩
  · rw [blocks, Nat.max_zero]
  · rw [blocks, Nat.sub_self, memory]
    rfl

end FlatStack.Abreast

namespace FlatTape

variable {ahead : Nat} {f g h : FlatTape}

namespace Abreast

/-- Where the first tape has the blocks already, neither is ahead. -/
lemma level (abreast : Abreast ahead f g) (there : ahead ≤ f.stack.blocks) : Abreast 0 f g :=
  ⟨abreast.stack.level there, abreast.fill, abreast.marks, abreast.capacity⟩

/-- Where neither is ahead, either tape can be the first. -/
lemma symm (abreast : Abreast 0 f g) : Abreast 0 g f :=
  ⟨abreast.stack.symm, abreast.fill.symm, abreast.marks.symm, abreast.capacity.symm⟩

end Abreast

namespace Course

variable {f' g' : FlatTape} {a v : Account}

/-- A call that pushes nothing that counts. -/
lemma idle {c : Call} {answer : Answer} (call : c.performFlat f = .ok answer f')
    (idles : c.account f.capacity f.fill = 0) : Course [c] f 0 f' := by
  have course := Course.cons call (.nil f')
  rw [idles] at course
  exact course

/-- A run of a single call is that call. -/
lemma of_single {c : Call} (course : Course [c] f a f') :
    ∃ answer, c.performFlat f = .ok answer f' := by
  obtain _ | ⟨call, _ | _⟩ := course
  exact ⟨_, call⟩

/-! ## Replays of a segment -/

/-- Replays after a first one push what it pushed and leave the tape as far as it did. -/
lemma replays {segment : Segment} {n : Nat}
    (visit : Course (Sweep.visitScript segment n).calls g v h)
    (restart : resetRepeat h = .ok () g') (abreast : Abreast ahead g g') :
    ∀ left k, Abreast ahead h k → ∃ b k', Course (Sweep.replaysScript segment left).calls k b k' ∧
      b.total = left * v.total ∧ Abreast ahead h k' := by
  intro left
  induction left with
  | zero => exact fun k same => ⟨0, k, .nil k, (Nat.zero_mul _).symm, same⟩
  | succ left ih =>
    intro k same
    obtain ⟨_, k₁, again, same₁⟩ := together_resetRepeat _ _ same _ _ restart
    obtain ⟨k₂, course₂, same₂⟩ := visit.together (abreast.trans same₁)
    obtain ⟨b, k₃, course₃, total, same₃⟩ := ih k₂ same₂
    refine ⟨_, k₃, (idle (c := .resetRepeat) (bind_ok again) rfl).append (course₂.append course₃),
      ?_, same₃⟩
    rw [Account.zero_add, Account.total_add, total, Nat.succ_mul, Nat.add_comm]

/-- A segment that can be replayed some number of times can be replayed any number of times, at the
same cost each. -/
lemma segment {segment : Segment} {r₁ : Nat} (sound : f.Sound)
    (course : Course (Sweep.segmentScript r₁ segment).calls f a f') :
    ∃ cost, ∀ r, 0 < r → ∃ b g, Course (Sweep.segmentScript r segment).calls f b g ∧
      b.total = r * cost ∧ Abreast 0 f' g := by
  obtain ⟨_, g, _, start, course, -⟩ := course.split
  obtain ⟨_, k, _, course, finish, -⟩ := course.split
  obtain ⟨v, h, c, visit, more, -⟩ := course.split
  obtain ⟨_, start⟩ := start.of_single
  obtain ⟨_, finish⟩ := finish.of_single
  obtain ⟨_, start, -⟩ := of_answer_ok start
  obtain ⟨_, finish, -⟩ := of_answer_ok finish
  have opened : Opened f g := by
    obtain ⟨g', run, opened⟩ | ⟨_, _, g', run, -⟩ := startRepeat_spec f
    · rw [run] at start
      cases start
      exact opened
    · rw [run] at start
      cases start
  obtain ⟨g', restart, abreast⟩ :=
    visit.restarts opened (opened.sound sound) (Script.Stays.visit segment _)
  have replays := visit.replays restart abreast
  -- the replays that were made leave the tape as far as any other number of them
  obtain ⟨_, k', more', -, same⟩ := replays _ h (.refl h (Nat.le_refl _))
  obtain ⟨-, rfl⟩ := more.unique more'
  refine ⟨v.total, fun r positive => ?_⟩
  obtain ⟨b, k', more, total, same'⟩ := replays (r - 1) h (.refl h (Nat.le_refl _))
  have level := (same.level (Nat.le_refl _)).symm.trans (same'.level (Nat.le_refl _))
  obtain ⟨_, g'', finish', last⟩ := together_endRepeat _ _ level _ _ finish
  have visit' : Course (Sweep.visitScript segment (r - 1)).calls g v h := visit
  refine ⟨_, g'', (idle (c := .startRepeat) (bind_ok start) rfl).append ((visit'.append more).append
    (idle (c := .endRepeat) (bind_ok finish') rfl)), ?_, last⟩
  obtain ⟨left, rfl⟩ := Nat.exists_eq_add_one.2 positive
  rw [Account.zero_add, Account.add_zero, Account.total_add, total, Nat.add_sub_cancel,
    Nat.succ_mul, Nat.add_comm]

/-- Segments that can be replayed some number of times can be replayed any number of times. -/
lemma segments {r₁ : Nat} {segments : List Segment} (sound : f.Sound)
    (course : Course (Script.each (Sweep.segmentScript r₁) segments).calls f a f') :
    ∃ cost, ∀ r, 0 < r → ∃ b g, Course (Script.each (Sweep.segmentScript r) segments).calls f b g ∧
      b.total = r * cost ∧ Abreast 0 f' g := by
  induction segments generalizing f a with
  | nil =>
    cases course
    exact ⟨0, fun r _ => ⟨0, f', .nil f', rfl, .refl f' (Nat.zero_le _)⟩⟩
  | cons segment rest ih =>
    obtain ⟨_, g, _, first, next, -⟩ := course.split
    obtain ⟨cost, first'⟩ := first.segment sound
    obtain ⟨cost', next'⟩ := ih (first.sound sound) next
    refine ⟨cost + cost', fun r positive => ?_⟩
    obtain ⟨b, g₁, course₁, total, level⟩ := first' r positive
    obtain ⟨b', g₂, course₂, total', level'⟩ := next' r positive
    -- the rest goes on from a tape that is as far as the one it went on from
    obtain ⟨g₃, course₃, level₃⟩ := course₂.together level
    refine ⟨_, g₃, course₁.append course₃, ?_, level'.trans level₃⟩
    rw [Account.total_add, total, total', Nat.mul_add]

/-- A snapshot is a word and three reals. -/
lemma snapshots {segments : List Segment}
    (course : Course (Script.each Sweep.pushSnapshotScript segments).calls f a g) :
    a.total = 32 * segments.length := by
  induction segments generalizing f a with
  | nil =>
    cases course
    rfl
  | cons segment rest ih =>
    obtain ⟨b, _, c, first, next, rfl⟩ := course.split
    have total : b.total = 32 := by
      obtain _ | ⟨_, _ | ⟨_, _ | _⟩⟩ := first
      rfl
    rw [Account.total_add, ih next, total, List.length_cons, Nat.mul_succ, Nat.add_comm]

/-- What a sweep over segments pushes, for any number of replays. -/
lemma script {steps every r₁ : UInt64} (segmented : every ≠ 0) (sound : f.Sound)
    (course : Course (Sweep.script ⟨steps, every, r₁⟩).calls f a f') :
    ∃ cost, ∀ r, 0 < r → ∃ b g, Course (Sweep.script ⟨steps, every, r⟩).calls f b g ∧
      b.total = 32 * (SweepConfig.mk steps every r₁).count + r.toNat * cost ∧
      Abreast 0 f' g := by
  rw [Sweep.script, if_neg segmented] at course
  obtain ⟨b, g, _, first, next, -⟩ := course.split
  obtain ⟨cost, next⟩ := next.segments (first.sound sound)
  refine ⟨cost, fun r positive => ?_⟩
  obtain ⟨b', g', course, total, level⟩ := next r.toNat (UInt64.lt_iff_toNat_lt.1 positive)
  rw [Sweep.script, if_neg segmented]
  refine ⟨_, g', first.append course, ?_, level⟩
  rw [Account.total_add, total, first.snapshots, SweepConfig.length_slices]

end Course

end FlatTape

/-! ## Sweeps with any number of replays -/

namespace Tape

/-- Tapes with as many blocks, which are at the same place with buffers filled as far. -/
structure SameExtent (t t' : Tape) : Prop where
  peakBlocks : t'.peakBlocks = t.peakBlocks
  peakBytes : t'.peakBytes = t.peakBytes
  location : t'.location = t.location
  fill : t'.area.marks = t.area.marks

/-- Tapes whose flat views are abreast, with neither ahead, have the same extent. -/
lemma sameExtent {t t' : Tape} (sound : t.Sound) (sound' : t'.Sound)
    (geometry : t'.geometry = t.geometry) (abreast : t.flat.Abreast 0 t'.flat) :
    t.SameExtent t' := by
  have blocks : t'.peakBlocks = t.peakBlocks := abreast.stack.blocks.trans (Nat.max_zero _)
  refine ⟨blocks, ?_, abreast.stack.cursor, ?_⟩
  · rw [peakBytes, peakBytes, blocks, geometry]
  · rw [← sound.blocks.fill, ← sound'.blocks.fill, abreast.fill]

end Tape

namespace Sweep

variable {t : Tape} {trace : Trace} {o : Overflow}

/-- The calls of a sweep that ends can be made with any number of replays: they leave the tape as
far, and every replay pushes as much. -/
lemma replayed {steps every r₁ : UInt64} (sound : t.Sound) (segmented : 0 < every)
    (fits : steps.toNat + every.toNat < wordLimit) {report₁ : SweepReport} {s₁ : Sweep}
    (run₁ : run o ⟨steps, every, r₁⟩ (.start t trace) = .ok report₁ s₁) :
    ∃ cost, ∀ r, 0 < r → ∃ t', Tape.Runs (script ⟨steps, every, r⟩).calls t t' ∧
      s₁.tape.SameExtent t' ∧ (t.addsAll (script ⟨steps, every, r⟩).calls).total =
        32 * (SweepConfig.mk steps every r₁).count + r.toNat * cost := by
  obtain ⟨-, -, runs₁⟩ := runs_of_ok (SweepConfig.reach_lt fits) run₁
  obtain ⟨sound₁, geometry₁, course₁, -⟩ := runs₁.course sound
  obtain ⟨cost, others⟩ := course₁.script (UInt64.pos_iff_ne_zero.1 segmented) sound.levels
  refine ⟨cost, fun r positive => ?_⟩
  obtain ⟨b, f, course, total, level⟩ := others r positive
  obtain ⟨t', runs, rfl⟩ := sound.runs course
  obtain ⟨sound', geometry, course', -⟩ := runs.course sound
  obtain ⟨rfl, -⟩ := course.unique course'
  exact ⟨t', runs, Tape.sameExtent sound₁ sound' (geometry.trans geometry₁.symm) level, total⟩

end Sweep

end AdjointTape

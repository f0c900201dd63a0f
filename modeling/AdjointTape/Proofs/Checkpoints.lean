import AdjointTape.Proofs.Undoing

/-!
# What open levels keep

For every open level there is a checkpoint whose copy is the stack of items that a restart is to
bring back.  The level keeps what this takes: the bytes of the buffers it saved, and the segments
below the place where it resumes.  All of it lies below what the level protects, so guarded steps
leave it alone.
-/

open AdjointTape.Action AdjointTape.FlatStack

namespace AdjointTape

/-- The atoms of entries, the last one first. -/
def Ledger.atoms (entries : List Entry) : List (Nat × Atom) :=
  entries.flatMap fun entry => entry.item.atoms entry.serial

/-- The atoms of an item have the serial number of the item. -/
lemma Item.serial_atoms {item : Item} {serial : Nat} :
    ∀ atom ∈ item.atoms serial, atom.1 = serial := by
  cases item with
  | control value width =>
    intro atom mem
    obtain ⟨bit, -, rfl⟩ := List.mem_map.1 mem
    rfl
  | _ =>
    intro atom mem
    rw [List.mem_singleton.1 mem]

namespace Stage

/-- The stage with entries on it, the last one first. -/
def ofEntries (capacity : Nat) (base : Stage) (entries : List Entry) : Stage :=
  .of capacity base (Ledger.atoms entries)

/-- Segments of entries that were made before a time were put on the byte stack before. -/
lemma serial_ofEntries {capacity time : Nat} {base : Stage} {entries : List Entry}
    (early : ∀ x ∈ base.segments, x.serial < time) (before : Ledger.Before time entries) :
    ∀ x ∈ (ofEntries capacity base entries).segments, x.serial < time := by
  intro x mem
  obtain mem | ⟨atom, mem, serial⟩ := serial_of mem
  · exact early x mem
  · obtain ⟨entry, made, mem⟩ := List.mem_flatMap.1 mem
    rw [← serial, Item.serial_atoms atom mem]
    exact (before entry made).2

end Stage

namespace FlatTape

/-! ## Saving without stray bits -/

/-- The tape with a zero word where no bit is buffered.  It saves the same bytes. -/
def cleaned (f : FlatTape) : FlatTape :=
  { f with bits := if f.bits.index = 0 then .empty else f.bits }

/-- A cleaned tape has as many bits buffered. -/
lemma index_cleaned (f : FlatTape) : f.cleaned.bits.index = f.bits.index := by
  rw [cleaned]
  split
  case isTrue empty => exact empty.symm
  case isFalse => rfl

/-- A cleaned tape has no stray word. -/
lemma clean_cleaned (f : FlatTape) : f.cleaned.Clean := by
  intro empty
  rw [index_cleaned] at empty
  rw [cleaned, if_pos empty]
  rfl

/-- A cleaned tape is filled as far. -/
lemma fill_cleaned (f : FlatTape) : f.cleaned.fill = f.fill := by
  have index (kind : Kind) : f.cleaned.index kind = f.index kind := by
    rw [FlatTape.index, FlatTape.index, index_cleaned]
    rfl
  simp only [fill, index]

/-- A cleaned tape saves the same bytes. -/
lemma saved_cleaned (f : FlatTape) : f.cleaned.saved = f.saved := by
  have chunk (kind : Kind) : f.cleaned.chunk kind = f.chunk kind := by
    rw [FlatTape.chunk, FlatTape.chunk, index_cleaned]
    by_cases empty : f.bits.index = 0
    · simp only [if_pos empty]
      rfl
    · simp only [cleaned, if_neg empty]
  rw [saved, saved, funext chunk]

/-- A cleaned tape has the same valid bits. -/
lemma valid_cleaned (f : FlatTape) : f.cleaned.bits.valid = f.bits.valid := by
  by_cases empty : f.bits.index = 0
  · rw [cleaned, if_pos empty, BitBuffer.valid, BitBuffer.valid, empty]
    rfl
  · rw [cleaned, if_neg empty]

/-! ## Levels and their checkpoints -/

/-- The bytes that open levels keep for their checkpoints. -/
inductive Kept (capacity : Nat) (base : Stage) (m : ByteMap) :
    List RepeatLevel → List Marks → List Checkpoint → Prop where
  | outermost : Kept capacity base m [] [] []
  | inner {level : RepeatLevel} {outer : List RepeatLevel} {rest : List Marks} {copy : List Entry}
    {since : Nat} {others : List Checkpoint} {saved : FlatTape}
    (clean : saved.Clean) (valid : saved.valid = (Stage.ofEntries capacity base copy).valid)
    (bits : saved.bits.valid = (Stage.ofEntries capacity base copy).bits.valid)
    (bytes : m.read (level.freePush - saved.fill.savedBytes) saved.fill.savedBytes = saved.saved)
    (lies : Lies m outer (others.map Checkpoint.since) level.resume
      (Stage.ofEntries capacity base copy).segments)
    (kept : Kept capacity base m outer rest others) :
    Kept capacity base m (level :: outer) (saved.fill :: rest) (⟨copy, since⟩ :: others)

namespace Kept

variable {capacity : Nat} {base : Stage} {m : ByteMap} {levels : List RepeatLevel}
  {marks : List Marks} {checkpoints : List Checkpoint}

/-- Only the bytes below the active `freePush` matter. -/
lemma congr {m' : ByteMap} (kept : Kept capacity base m levels marks checkpoints)
    (nested : Nested capacity levels marks) (same : ∀ l < floor levels, m' l = m l) :
    Kept capacity base m' levels marks checkpoints := by
  induction kept with
  | outermost => exact .outermost
  | @inner level outer rest copy since others saved clean valid bits bytes lies _ ih =>
    -- what is kept ends at `freePush`, and the enclosing levels keep theirs below
    obtain _ | ⟨freePush, -, -, nested'⟩ := nested
    refine .inner clean valid bits (Eq.trans ?_ bytes) (lies.congr fun l below => same l ?_)
      (ih nested' fun l below => same l ?_)
    · refine ByteMap.read_congr fun l _ below => same l ?_
      rw [floor]
      lia
    · rw [floor]
      lia
    · rw [floor]
      lia

/-- Redirects do not matter to what levels keep. -/
lemma redirects {levels' : List RepeatLevel} (kept : Kept capacity base m levels marks checkpoints)
    (h : ActiveRedirects levels levels') : Kept capacity base m levels' marks checkpoints := by
  cases h with
  | outermost => exact kept
  | active first =>
    cases kept with
    | inner clean valid bits bytes lies kept =>
      rw [← first.freePush] at bytes
      rw [← first.resume] at lies
      exact .inner clean valid bits bytes lies kept

/-- What a level keeps for its checkpoint. -/
lemma of_cons {copy : List Entry} {since : Nat} {others : List Checkpoint}
    (kept : Kept capacity base m levels marks (⟨copy, since⟩ :: others)) :
    ∃ level outer rest, ∃ saved : FlatTape, levels = level :: outer ∧ marks = saved.fill :: rest ∧
      saved.Clean ∧ saved.valid = (Stage.ofEntries capacity base copy).valid ∧
      saved.bits.valid = (Stage.ofEntries capacity base copy).bits.valid ∧
      m.read (level.freePush - saved.fill.savedBytes) saved.fill.savedBytes = saved.saved ∧
      Lies m outer (others.map Checkpoint.since) level.resume
        (Stage.ofEntries capacity base copy).segments ∧
      Kept capacity base m outer rest others := by
  obtain _ | ⟨clean, valid, bits, bytes, lies, kept⟩ := kept
  exact ⟨_, _, _, _, rfl, rfl, clean, valid, bits, bytes, lies, kept⟩

/-- There is a checkpoint for every open level. -/
lemma length_eq (kept : Kept capacity base m levels marks checkpoints) :
    levels.length = (checkpoints.map Checkpoint.since).length := by
  induction kept with
  | outermost => rfl
  | inner _ _ _ _ _ _ ih => rw [List.length_cons, ih, List.map_cons, List.length_cons]

/-- Without checkpoints no level is open. -/
lemma timed (kept : Kept capacity base m levels marks checkpoints)
    (none : checkpoints.map Checkpoint.since = []) : levels = [] := by
  cases kept with
  | outermost => rfl
  | inner _ _ _ _ _ _ => cases none

end Kept

variable {f f' : FlatTape} {base : Stage} {checkpoints : List Checkpoint}

/-- Guarded steps leave what is kept. -/
lemma Guarded.kept (step : Guarded f f') (sound : f.Sound)
    (kept : Kept f.capacity base f.stack.bytes f.stack.levels f.marks checkpoints) :
    Kept f'.capacity base f'.stack.bytes f'.stack.levels f'.marks checkpoints := by
  rw [step.capacity, step.marks]
  exact (kept.congr sound.nested step.stack.bytes).redirects step.stack.levels

/-- A level that is opened keeps what there is. -/
lemma Opened.kept (opened : Opened f f') (sound : f.Sound) {entries : List Entry} (since : Nat)
    (carries : f.Carries (checkpoints.map Checkpoint.since) (.ofEntries f.capacity base entries))
    (kept : Kept f.capacity base f.stack.bytes f.stack.levels f.marks checkpoints) :
    Kept f'.capacity base f'.stack.bytes f'.stack.levels f'.marks
      (⟨entries, since⟩ :: checkpoints) := by
  have below l (lt : l < f.stack.frontier) : f'.stack.bytes l = f.stack.bytes l := by
    rw [opened.bytes]
    exact ByteMap.write_below _ _ lt
  rw [opened.capacity, opened.levels, opened.marks, ← f.fill_cleaned]
  refine .inner f.clean_cleaned carries.valid (f.valid_cleaned.trans carries.bits) ?_
    (carries.stack.lies.congr fun l lt => below l ?_)
    (kept.congr sound.nested fun l lt => below l ?_)
  · rw [f.fill_cleaned, f.saved_cleaned]
    have place : f.newLevel.freePush - f.fill.savedBytes = f.stack.frontier :=
      Nat.add_sub_cancel _ _
    rw [place, opened.bytes, ← f.length_saved]
    exact ByteMap.read_write _ _ _
  · exact Nat.lt_of_lt_of_le lt (Nat.le_max_left _ _)
  · exact Nat.lt_of_lt_of_le lt (Nat.le_max_right _ _)

end FlatTape

end AdjointTape

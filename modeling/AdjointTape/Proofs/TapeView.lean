import AdjointTape.Proofs.Nesting

/-!
# Calls of a tape on flat memory

Every call of a reachable tape answers what it answers on flat memory and leaves a tape whose flat
view is what the flat call leaves.  A tape is reached by calls from an empty one, and the memory
that blocks are taken from may change between them, so an allocation may fail at any time.
-/

open AdjointTape.Action

namespace AdjointTape

/-- Whether a call may write below what the open levels protect. -/
def Call.bypasses : Call → Bool
  | .pushBytes _ isProtected => !isProtected
  | _ => false

namespace FlatTape

/-- Every call is guarded but those that open or close a level and those that bypass the levels. -/
lemma guarded_performFlat {c : Call} (opens : c ≠ .startRepeat) (closes : c ≠ .endRepeat)
    (bypasses : c.bypasses = false) {f : FlatTape} (sound : f.Sound) :
    Guarded f (after (c.performFlat f)) := by
  cases c with
  | push k value => exact Steps.answer (steps_push k value) _ f
  | pop k => exact Steps.answer (steps_pop k) _ f
  | pushBit bit => exact Steps.answer (steps_pushBit bit) _ f
  | popBit => exact Steps.answer steps_popBit _ f
  | pushControl value width =>
    rw [Call.performFlat]
    split
    case isTrue => exact Steps.answer (steps_pushBits _) _ f
    case isFalse => exact .refl f
  | popControl width =>
    rw [Call.performFlat]
    split
    case isTrue => exact Steps.answer (steps_popBits width 0) _ f
    case isFalse => exact .refl f
  | pushArray k values => exact Steps.answer (steps_onStack (FlatStack.steps_push _)) _ f
  | popArray k count => exact Steps.answer (steps_onStack (FlatStack.steps_pop _ true)) _ f
  | pushBytes data isProtected =>
    cases isProtected with
    | true => exact Steps.answer (steps_onStack (FlatStack.steps_push data)) _ f
    | false => cases bypasses
  | popBytes count isProtected =>
    exact Steps.answer (steps_onStack (FlatStack.steps_pop count isProtected)) _ f
  | startRepeat => exact absurd rfl opens
  | resetRepeat =>
    exact Steps.answer (R := fun f f' => f.Sound → Guarded f f')
      (fun _ => guarded_resetRepeat) _ f sound
  | endRepeat => exact absurd rfl closes
  | setLocation l => exact Steps.answer (steps_onStack (FlatStack.steps_setLocation l)) _ f

/-- Pushing a byte string leads from a sound tape to a sound one, whatever it bypasses. -/
lemma sound_push {f : FlatTape} (data : List UInt8) (isProtected : Bool) (sound : f.Sound) :
    (after (onStack (FlatStack.push data isProtected) f)).Sound := by
  cases isProtected with
  | true => exact (steps_onStack (FlatStack.steps_push data) f).sound sound
  | false =>
    have levels : (after (FlatStack.push data false f.stack)).levels = f.stack.levels := by
      rw [FlatStack.push]
      split <;> rfl
    rw [onStack]
    cases r : FlatStack.push data false f.stack with
    | ok _ stack =>
      rw [r] at levels
      exact ⟨levels ▸ sound.nested, sound.roomy.valid, sound.roomy.bits⟩
    | error e stack =>
      rw [r] at levels
      exact ⟨levels ▸ sound.nested, sound.roomy.valid, sound.roomy.bits⟩

/-- Every call keeps a tape sound. -/
lemma sound_performFlat (c : Call) {f : FlatTape} (sound : f.Sound) :
    (after (c.performFlat f)).Sound := by
  by_cases opens : c = .startRepeat
  · subst opens
    refine Steps.answer (R := fun f f' => f.Sound → f'.Sound) (fun f sound => ?_) _ f sound
    obtain ⟨f', run, opened⟩ | ⟨_, _, f', run, step, -⟩ := startRepeat_spec f
    · rw [run]
      exact opened.sound sound
    · rw [run]
      exact step.sound sound
  by_cases closes : c = .endRepeat
  · subst closes
    refine Steps.answer (R := fun f f' => f.Sound → f'.Sound) (fun f sound => ?_) _ f sound
    obtain ⟨-, run⟩ | ⟨level, outer, f', levels, run, closed⟩ := endRepeat_spec f
    · rw [run]
      exact sound
    · rw [run]
      exact closed.sound levels sound
  cases bypasses : c.bypasses with
  | false => exact (guarded_performFlat opens closes bypasses sound).sound sound
  | true =>
    cases c with
    | pushBytes data isProtected =>
      exact Steps.answer (R := fun f f' => f.Sound → f'.Sound)
        (fun f => sound_push data isProtected) _ f sound
    | _ => cases bypasses

end FlatTape

/-- The sizes of a geometry without flaw are positive. -/
lemma Geometry.positive {g : Geometry} (sane : g.flaw? = none) :
    0 < g.blockSize ∧ 0 < g.capacity := by
  rw [flaw?] at sane
  split at sane
  case isTrue => cases sane
  case isFalse block =>
    split at sane
    case isTrue => cases sane
    case isFalse buffer => exact ⟨Nat.pos_of_ne_zero block, Nat.pos_of_ne_zero buffer⟩

namespace Tape

/-- A well-formed tape with nested levels. -/
structure Sound (t : Tape) : Prop where
  blocks : t.WellFormed
  levels : t.flat.Sound

/-- Restarting a level of a sound tape never runs out of bytes. -/
lemma Sound.resetRepeat_commutes : Commutes Sound flat resetRepeat FlatTape.resetRepeat := by
  intro t sound
  have nested : FlatTape.Nested t.geometry.capacity t.stack.levels t.marks := sound.levels.nested
  obtain ⟨wf, e⟩ :=
    Tape.resetRepeat_commutes sound.blocks fun level outer marks rest levels marked => by
    rw [levels, marked] at nested
    obtain _ | ⟨freePush, -, within, -⟩ := nested
    exact ⟨within, freePush ▸ Nat.le_add_left _ _⟩
  have same : flat (after (resetRepeat t)) = after (FlatTape.resetRepeat t.flat) := by
    rw [← e, after_through]
  exact ⟨⟨wf, same ▸ (FlatTape.guarded_resetRepeat sound.levels).sound sound.levels⟩, e⟩

/-- The calls of a sound tape answer what they answer on flat memory. -/
lemma perform_commutes (c : Call) : Commutes Sound flat c.perform c.performFlat := by
  intro t sound
  have both : WellFormed (after (c.perform t)) ∧
      through flat (c.perform t) = c.performFlat t.flat := by
    cases c with
    | push k value => exact Commutes.seq (push_commutes k value) (fun _ => .ret _) t sound.blocks
    | pop k => exact Commutes.seq (pop_commutes k) (fun _ => .ret _) t sound.blocks
    | pushBit bit => exact Commutes.seq (pushBit_commutes bit) (fun _ => .ret _) t sound.blocks
    | popBit => exact Commutes.seq popBit_commutes (fun _ => .ret _) t sound.blocks
    | pushControl value width =>
      simp only [Call.perform, Call.performFlat, pushControl]
      split
      case isTrue => exact Commutes.seq (pushBits_commutes _) (fun _ => .ret _) t sound.blocks
      case isFalse => exact ⟨sound.blocks, rfl⟩
    | popControl width =>
      simp only [Call.perform, Call.performFlat, popControl]
      split
      case isTrue => exact Commutes.seq (popBits_commutes width 0) (fun _ => .ret _) t sound.blocks
      case isFalse => exact ⟨sound.blocks, rfl⟩
    | pushArray k values =>
      exact Commutes.seq (pushBytes_commutes _ true) (fun _ => .ret _) t sound.blocks
    | popArray k count =>
      simp only [Call.perform, Call.performFlat, popArray, bind_assoc, pure_bind]
      exact Commutes.seq (popBytes_commutes _ true) (fun _ => .ret _) t sound.blocks
    | pushBytes data isProtected =>
      exact Commutes.seq (pushBytes_commutes data isProtected) (fun _ => .ret _) t sound.blocks
    | popBytes count isProtected =>
      exact Commutes.seq (popBytes_commutes count isProtected) (fun _ => .ret _) t sound.blocks
    | startRepeat => exact Commutes.seq startRepeat_commutes (fun _ => .ret _) t sound.blocks
    | resetRepeat =>
      -- the only call that needs more than well-formed blocks and buffers
      obtain ⟨sound', e⟩ :=
        Commutes.seq Sound.resetRepeat_commutes (fun _ => .ret Answer.unit) t sound
      exact ⟨sound'.blocks, e⟩
    | endRepeat => exact Commutes.seq endRepeat_commutes (fun _ => .ret _) t sound.blocks
    | setLocation l => exact Commutes.seq (setLocation_commutes l) (fun _ => .ret _) t sound.blocks
  -- the levels stay nested because they do on flat memory
  have same : flat (after (c.perform t)) = after (c.performFlat t.flat) := by
    rw [← both.2, after_through]
  exact ⟨⟨both.1, same ▸ FlatTape.sound_performFlat c sound.levels⟩, both.2⟩

/-! ## Reachable tapes -/

/-- Calls are performed one after the other. -/
lemma performAll_eq (calls : List Call) (t : Tape) :
    Call.performAll calls t = runAll Call.perform calls t := by
  induction calls generalizing t with
  | nil => rfl
  | cons c rest ih =>
    rw [Call.performAll, runAll_cons]
    cases c.perform t with
    | ok a t' =>
      dsimp only
      rw [ih]
      rfl
    | error e t' =>
      dsimp only
      rw [ih]
      rfl

/-- A new tape is sound, and its view is a new one. -/
lemma create_spec {geometry : Geometry} {limit : Option Nat} {t : Tape}
    (created : create geometry limit = .ok t) : t.Sound ∧ t.flat = .empty geometry limit := by
  rw [create] at created
  cases sane : geometry.flaw? with
  | some flaw =>
    rw [sane] at created
    cases created
  | none =>
    rw [sane] at created
    cases e : ByteStack.create geometry.blockSize limit with
    | error err =>
      rw [e] at created
      cases created
    | ok stack =>
      rw [e] at created
      cases created
      obtain ⟨block, buffer⟩ := Geometry.positive sane
      obtain ⟨wf, view⟩ := ByteStack.create_spec block e
      have vacant (k : ScalarKind) :
          (StagingArea.create geometry.capacity).get k = .create geometry.capacity := by
        cases k <;> rfl
      have valid (k : ScalarKind) :
          ((StagingArea.create geometry.capacity).get k).valid.reverse = [] := by
        rw [vacant, TypedBuffer.create, TypedBuffer.valid_empty]
        rfl
      have flat : Tape.flat
          { geometry, stack, area := .create geometry.capacity, marks := [], buffered := 0 } =
            .empty geometry limit := by
        simp only [Tape.flat, valid, view, FlatTape.empty]
        rfl
      refine ⟨⟨⟨wf, fun k => ?_⟩, ?_⟩, flat⟩
      · rw [vacant]
        exact ⟨Array.size_replicate, buffer⟩
      · rw [flat]
        exact ⟨.outermost, fun _ => buffer, Nat.zero_lt_succ _⟩

/-- Tapes that calls lead to from a new one.  In between the memory that blocks are taken from may
change in any way. -/
inductive Reachable : Tape → Prop where
  | create {geometry : Geometry} {limit : Option Nat} {t : Tape}
    (created : create geometry limit = .ok t) : Reachable t
  | call {t : Tape} (c : Call) (reachable : Reachable t) : Reachable (after (c.perform t))
  | memory {t : Tape} (m : Memory) (reachable : Reachable t) : Reachable (t.withMemory m)

/-- Calls lead from a reachable tape to a reachable one. -/
lemma Reachable.run {t : Tape} (reachable : t.Reachable) (calls : List Call) :
    (runAll Call.perform calls t).2.Reachable := by
  induction calls generalizing t with
  | nil => exact reachable
  | cons c rest ih => exact ih (reachable.call c)

/-- Soundness does not depend on the memory. -/
lemma Sound.withMemory {t : Tape} (sound : t.Sound) (m : Memory) : (t.withMemory m).Sound := by
  obtain ⟨⟨⟨⟨positive, inhabited, inPlace⟩, current, top, levels⟩, buffers⟩, ⟨nested, roomy⟩⟩ :=
    sound
  exact ⟨⟨⟨⟨positive, inhabited, inPlace⟩, current, top, levels⟩, buffers⟩,
    ⟨nested, ⟨roomy.valid, roomy.bits⟩⟩⟩

/-- Every reachable tape is sound. -/
lemma Reachable.sound {t : Tape} (reachable : t.Reachable) : t.Sound := by
  induction reachable with
  | create created => exact (create_spec created).1
  | call c _ ih => exact (perform_commutes c _ ih).1
  | memory m _ ih => exact ih.withMemory m

end Tape

end AdjointTape

import AdjointTape.Geometry

/-!
# Failures

Every way in which a tape call can fail, and the shape of a call: it passes a state on, and a failed
call passes on the state it leaves behind.
-/

namespace AdjointTape

/-- The calls that need an open repeat level. -/
inductive LevelCall where
  | resetRepeat
  | endRepeat
  deriving DecidableEq

/-- The name of a call as failures report it. -/
def LevelCall.name : LevelCall → String
  | resetRepeat => "reset_repeat"
  | endRepeat => "end_repeat"

/-- Why a tape call failed. -/
inductive Failure where
  /-- The chain cannot grow beyond the blocks it has. -/
  | outOfMemory (blocks blockSize : Nat)
  /-- Fewer bytes lie below the cursor than a pop asks for. -/
  | popUnderflow (requested available : Nat)
  /-- No repeat level is open. -/
  | noActiveRepeat (call : LevelCall)
  /-- A location beyond the allocated blocks. -/
  | locationOutOfRange (location : Location) (allocated : Nat)
  /-- A control tag of a width that is not one to eight bits. -/
  | invalidControlWidth (width : Nat)
  /-- Settings no tape or sweep can be built with. -/
  | invalidSettings (flaw : SettingsFlaw)
  /-- A missing link, block or mark: the tape is no longer well formed. -/
  | damaged
  /-- The program was stopped in the middle of the call. -/
  | stopped (cause : Stop)
  deriving DecidableEq

/-- The wording of a failure. -/
def Failure.message : Failure → String
  | outOfMemory blocks blockSize =>
    s!"out of memory (allocated {blocks} blocks of {blockSize} bytes)"
  | popUnderflow requested available =>
    s!"popping from an empty stack: requested {requested} bytes, {available} available"
  | noActiveRepeat call => call.name ++ " called with no active repeat level"
  | locationOutOfRange location allocated =>
    s!"location {location} lies beyond the {allocated} allocated bytes"
  | invalidControlWidth width => s!"control tags are 1 to 8 bits wide, got {width}"
  | invalidSettings flaw => "invalid tape settings: " ++ flaw.message
  | damaged => "the tape is damaged"
  | stopped cause => cause.message

/-- The exit status of a process that a failure ends. -/
def Failure.status : Failure → UInt32
  | stopped _ => 101
  | _ => 1

/-- A call on a state of type `σ` that answers an `α` or fails. -/
abbrev Action (σ α : Type) := EStateM Failure σ α

namespace Action

/-- The answer of a call, apart from the state it leaves. -/
def outcome {σ α : Type} : EStateM.Result Failure σ α → Except Failure α
  | .ok a _ => .ok a
  | .error e _ => .error e

/-- The state a call leaves, whether or not it failed. -/
def after {σ α : Type} : EStateM.Result Failure σ α → σ
  | .ok _ s => s
  | .error _ s => s

/-- Reads something off the state. -/
@[inline] def inspect {σ α : Type} (f : σ → α) : Action σ α := fun s => .ok (f s) s

/-- Changes the state. -/
@[inline] def update {σ : Type} (f : σ → σ) : Action σ Unit := fun s => .ok () (f s)

/-- Goes on with a result, unless the program is stopped. -/
@[inline] def orStop {σ α : Type} : Except Stop α → Action σ α
  | .ok a => fun s => .ok a s
  | .error cause => fun s => .error (.stopped cause) s

end Action

end AdjointTape

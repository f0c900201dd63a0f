import AdjointTape.Geometry
import AdjointTape.Sweep.Schedule

/-!
# Options of the command line

Arguments are read from left to right, and the first that is wrong, or asks for the version or for
help, settles the matter.  An option takes its value behind an equals sign or from the next
argument, which must not look like an option itself, and is given at most once.
-/

namespace AdjointTape

/-- What the program is asked to do. -/
structure Options where
  steps : Option UInt64 := none
  checkpointEvery : Option UInt64 := none
  replays : Option UInt64 := none
  blockSize : Option UInt64 := none
  capacity : Option UInt64 := none
  dump : Bool := false
  trace : Bool := false
  verbose : Bool := false

/-- What the arguments amount to. -/
inductive Arguments where
  | run (options : Options)
  | version
  | help
  | usage

namespace Options

/-- The sweep that is asked for. -/
def sweep (o : Options) : SweepConfig where
  steps := o.steps.getD 1000
  checkpointEvery := o.checkpointEvery.getD 50
  replays := o.replays.getD 2

/-- The geometry that is asked for. -/
def geometry (o : Options) : Geometry :=
  .ofRequest (o.blockSize.map (·.toNat)) (o.capacity.map (·.toNat))

end Options

/-- The options that take a number. -/
inductive NumberOption where
  | steps
  | checkpointEvery
  | replays
  | blockSize
  | capacity

namespace NumberOption

/-- The option of a name. -/
def ofName? (name : String) : Option NumberOption :=
  match name with
  | "steps" => some steps
  | "checkpoint-every" => some checkpointEvery
  | "replays" => some replays
  | "block-size" => some blockSize
  | "buffer-capacity" => some capacity
  | _ => none

/-- The value an option has so far. -/
def get (o : Options) : NumberOption → Option UInt64
  | steps => o.steps
  | checkpointEvery => o.checkpointEvery
  | replays => o.replays
  | blockSize => o.blockSize
  | capacity => o.capacity

/-- Gives an option a value. -/
def set (o : Options) (value : UInt64) : NumberOption → Options
  | steps => { o with steps := some value }
  | checkpointEvery => { o with checkpointEvery := some value }
  | replays => { o with replays := some value }
  | blockSize => { o with blockSize := some value }
  | capacity => { o with capacity := some value }

end NumberOption

/-- A machine word in decimal, a plus sign before it allowed. -/
def readWord? (text : String) : Option UInt64 :=
  let digits := match text.toList with
    | '+' :: rest => rest
    | all => all
  if digits.isEmpty ∨ ¬ digits.all Char.isDigit then none
  else
    let n := digits.foldl (fun n c => 10 * n + (c.toNat - '0'.toNat)) 0
    if n < wordLimit then some (UInt64.ofNat n) else none

namespace Arguments

/-- A switch that is turned on, at most once. -/
def switch (isOn : Bool) (on : Options) : Except Arguments Options :=
  if isOn then .error usage else .ok on

/-- Reads the letters behind a single dash. -/
def readLetters (o : Options) : List Char → Except Arguments Options
  | [] => .ok o
  | 'v' :: rest => do
    let o ← switch o.verbose { o with verbose := true }
    readLetters o rest
  | 'V' :: _ => .error version
  | 'h' :: _ => .error help
  | _ :: _ => .error usage

/-- Gives a number to an option that has none yet. -/
def assign (o : Options) (option : NumberOption) (text : String) : Except Arguments Options :=
  match option.get o, readWord? text with
  | none, some value => .ok (option.set o value)
  | _, _ => .error usage

/-- Reads a switch by its long name. -/
def readSwitch (o : Options) (name : String) : Except Arguments Options :=
  match name with
  | "dump" => switch o.dump { o with dump := true }
  | "trace" => switch o.trace { o with trace := true }
  | "verbose" => switch o.verbose { o with verbose := true }
  | "version" => .error version
  | "help" => .error help
  | _ => .error usage

/-- Whether an argument may be the value of the option before it. -/
def isValue (argument : String) : Bool :=
  match argument.toList with
  | ['-'] => true
  | '-' :: _ => false
  | _ => true

/-- The name and the value of `name=value`, or the name alone. -/
def splitAssignment (text : List Char) : String × Option String :=
  let name := text.takeWhile (· ≠ '=')
  match text.drop name.length with
  | [] => (String.ofList name, none)
  | _ :: value => (String.ofList name, some (String.ofList value))

/-- Reads arguments onto options. -/
def readOnto (o : Options) : List String → Except Arguments Options
  | [] => .ok o
  | argument :: rest =>
    match argument.toList with
    | ['-', '-'] => if rest.isEmpty then .ok o else .error usage
    | '-' :: '-' :: text =>
      match splitAssignment text with
      | (name, some value) =>
        match NumberOption.ofName? name with
        | some option => do
          let o ← assign o option value
          readOnto o rest
        | none => .error usage
      | (name, none) =>
        match NumberOption.ofName? name, rest with
        | some option, value :: rest =>
          if isValue value then do
            let o ← assign o option value
            readOnto o rest
          else .error usage
        | some _, [] => .error usage
        | none, rest => do
          let o ← readSwitch o name
          readOnto o rest
    | '-' :: letter :: letters => do
      let o ← readLetters o (letter :: letters)
      readOnto o rest
    | _ => .error usage

/-- What a list of arguments amounts to. -/
def read (arguments : List String) : Arguments :=
  match readOnto {} arguments with
  | .ok o => run o
  | .error settled => settled

end Arguments

end AdjointTape

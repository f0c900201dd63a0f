import AdjointTape.CommandLine.Options
import AdjointTape.Session
import AdjointTape.Sweep.Run

/-!
# The program

Runs one sweep on a new tape and reports on it.
-/

namespace AdjointTape

/-- What a run of the program leaves: two texts and an exit status. -/
structure Outcome where
  output : String
  errors : String
  status : UInt32

namespace Outcome

/-- The most mismatches that are printed. -/
def mismatchLimit : Nat := 10

/-- The line of a mismatch. -/
def mismatchLine (m : Mismatch) : String :=
  "step " ++ toString m.step.toNat ++ ": expected " ++ m.expected ++ " found " ++ m.found ++ "\n"

/-- What is printed about a finished sweep. -/
def summary (r : SweepReport) : String :=
  toString r.stepsChecked.toNat ++ " steps checked, " ++ toString r.mismatches.length ++
    " mismatches\n" ++ Tape.peakText r.peakBlocks r.peakBytes ++ Tape.trafficText r.totalTraffic

/-- What is reported as wrong about a finished sweep. -/
def complaints (r : SweepReport) : String :=
  String.join ((r.mismatches.take mismatchLimit).map mismatchLine) ++
    (if r.balanced then "" else "tape did not return to its starting position\n")

/-- What is reported about a sweep that failed, or was stopped. -/
def complaint : Failure → String
  | .stopped cause => cause.message ++ "\n"
  | e => "Error during sweep: " ++ e.message ++ "\n"

/-- The outcome of the sweep that options ask for, in a program that goes on or stops where a result
leaves its range. -/
def ofOptions (overflow : Overflow) (o : Options) : Outcome :=
  match Tape.create o.geometry none with
  | .error e =>
    { output := "", errors := "Error creating tape: " ++ e.message ++ "\n", status := 1 }
  | .ok tape =>
    match Sweep.run overflow o.sweep (.start tape (if o.trace then .into none else .off)) with
    | .error e s =>
      { output := s.trace.sink.received
        errors := complaint e
        status := e.status }
    | .ok r s =>
      { output :=
          s.trace.sink.received ++
            (if o.dump then s.tape.listing ++ "\n" ++ s.tape.bufferListing else "") ++ summary r
        errors := complaints r
        status := if r.isClean then 0 else 1 }

/-- How the program is called. -/
def usageText : String :=
  "Usage: adstack [OPTIONS]\n\n" ++
  "Options:\n" ++
  "      --steps <STEPS>                        Number of forward steps [default: 1000]\n" ++
  "      --checkpoint-every <CHECKPOINT_EVERY>  Steps per segment, 0 for none [default: 50]\n" ++
  "      --replays <REPLAYS>                    Replays of each segment [default: 2]\n" ++
  "      --block-size <BLOCK_SIZE>              Block size in bytes (default 65536)\n" ++
  "      --buffer-capacity <BUFFER_CAPACITY>    Buffer capacity in elements (default 512)\n" ++
  "      --dump                                 Print the tape and its buffers at the end\n" ++
  "      --trace                                Print every push and pop\n" ++
  "  -v, --verbose                              Say more\n" ++
  "  -h, --help                                 Print help\n" ++
  "  -V, --version                              Print version\n"

/-- The outcome of the program for a list of arguments. -/
def ofArguments (overflow : Overflow) (arguments : List String) : Outcome :=
  match Arguments.read arguments with
  | .run o => ofOptions overflow o
  | .version => { output := "adstack 0.1.0\n", errors := "", status := 0 }
  | .help => { output := usageText, errors := "", status := 0 }
  | .usage => { output := "", errors := usageText, status := 2 }

end Outcome

end AdjointTape

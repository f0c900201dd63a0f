/-!
# Traces

A trace is handed to a sink in pieces.  Once the sink refuses a piece the trace falls silent for
good, so that a line is never resumed in the middle.
-/

namespace AdjointTape

/-- A receiver of text.  It refuses one write after `quota` complete lines, and takes everything
again after that. -/
structure Sink where
  received : String
  quota : Option Nat

namespace Sink

/-- Hands over a piece of text and says whether it was taken. -/
def write (text : String) (sink : Sink) : Bool × Sink :=
  match sink with
  | ⟨received, some 0⟩ => (false, ⟨received, none⟩)
  | ⟨received, some (quota + 1)⟩ =>
    (true, ⟨received ++ text, some (quota + 1 - text.toList.count '\n')⟩)
  | ⟨received, none⟩ => (true, ⟨received ++ text, none⟩)

/-- Hands over pieces of text up to the first one that is refused. -/
def writeAll : List String → Sink → Bool × Sink
  | [], sink => (true, sink)
  | text :: rest, sink =>
    match sink.write text with
    | (true, sink) => sink.writeAll rest
    | (false, sink) => (false, sink)

end Sink

/-- A trace on its way to a sink. -/
structure Trace where
  sink : Sink
  active : Bool

namespace Trace

/-- No trace. -/
def off : Trace := { sink := ⟨"", none⟩, active := false }

/-- A trace to a sink that takes `quota` lines, or everything. -/
def into (quota : Option Nat) : Trace := { sink := ⟨"", quota⟩, active := true }

/-- Hands over the pieces of a line. -/
def line (pieces : List String) (trace : Trace) : Trace :=
  match trace with
  | ⟨sink, true⟩ =>
    let (active, sink) := sink.writeAll pieces
    { sink, active }
  | silent => silent

end Trace

end AdjointTape

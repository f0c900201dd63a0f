import AdjointTape.Tape.Call
import AdjointTape.Tape.Listing

/-!
# One tape for a whole process

Generated adjoint code works on a single tape through entry points that have no way to hand a
failure back: a failing call is reported and ends the process.  Only a request for a new tape may be
refused and leaves the old one in place.
-/

namespace AdjointTape

/-- What code asks of the tape of its process. -/
inductive Command where
  | call (c : Call)
  | renew (blockSize capacity : Option Nat)
  | showStack
  | showBuffers
  | showSize (place : Nat)
  | showLocation
  | showPeakSize
  | showTotalTraffic

/-- The reply to a command that did not end the process: its answer, or why it was refused, and what
it printed. -/
structure Reply where
  answer : Except Failure Answer
  printed : String

namespace Tape

/-- The peak memory in words. -/
def peakText (blocks bytes : Nat) : String :=
  toString bytes ++ " bytes maximum tape memory (" ++ toString blocks ++ " blocks)\n"

/-- The traffic in words. -/
def trafficText (traffic : UInt64) : String := toString traffic.toNat ++ " bytes pushed\n"

end Tape

namespace Session

/-- The tape of a process that has not asked for another one. -/
def initial : Except Failure Tape := Tape.create {} none

/-- The report of a failure that ends the process. -/
def fatalReport (failure : Failure) : String := "adstack: " ++ failure.message ++ "\n"

end Session

namespace Command

/-- A reply that prints a text. -/
def prints (text : String) : Reply := { answer := .ok .unit, printed := text }

/-- Performs a command: a reply, or the failure that ends the process. -/
def perform (o : Overflow) : Command → Action Tape Reply
  | .call c => do
    let answer ← c.performIn o
    return { answer := .ok answer, printed := "" }
  | .renew blockSize capacity => fun t =>
    match Tape.create (.ofRequest blockSize capacity) none with
    | .ok fresh => .ok (prints "") fresh
    | .error e => .ok { answer := .error e, printed := "" } t
  | .showStack => Action.inspect fun t => prints (t.listing ++ "\n")
  | .showBuffers => Action.inspect fun t => prints t.bufferListing
  | .showSize place => Action.inspect fun t => prints (t.sizeLine place ++ "\n")
  | .showLocation => Action.inspect fun t =>
    prints (Location.text t.geometry.blockSize t.location ++ "\n")
  | .showPeakSize => Action.inspect fun t => prints (Tape.peakText t.peakBlocks t.peakBytes)
  | .showTotalTraffic => Action.inspect fun t => prints (Tape.trafficText t.totalTraffic)

end Command

end AdjointTape

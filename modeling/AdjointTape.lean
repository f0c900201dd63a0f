import AdjointTape.CommandLine.Options
import AdjointTape.CommandLine.Program
import AdjointTape.Failure
import AdjointTape.Geometry
import AdjointTape.Main
import AdjointTape.Numeral.Binary
import AdjointTape.Numeral.Fixed
import AdjointTape.Numeral.Padding
import AdjointTape.Numeral.Shortest
import AdjointTape.Overflow
import AdjointTape.Proofs.Abreast
import AdjointTape.Proofs.Action
import AdjointTape.Proofs.Agreement
import AdjointTape.Proofs.Answers
import AdjointTape.Proofs.Batches
import AdjointTape.Proofs.BitLog
import AdjointTape.Proofs.Bits
import AdjointTape.Proofs.Bracketed
import AdjointTape.Proofs.Buffers
import AdjointTape.Proofs.ByteMap
import AdjointTape.Proofs.Chain
import AdjointTape.Proofs.Checkpoints
import AdjointTape.Proofs.ControlTags
import AdjointTape.Proofs.Course
import AdjointTape.Proofs.Cursor
import AdjointTape.Proofs.Enclosed
import AdjointTape.Proofs.Failing
import AdjointTape.Proofs.Fidelity
import AdjointTape.Proofs.FlatStack
import AdjointTape.Proofs.FlatTape
import AdjointTape.Proofs.FoldedTags
import AdjointTape.Proofs.Growth
import AdjointTape.Proofs.Guard
import AdjointTape.Proofs.Holding
import AdjointTape.Proofs.Ledger
import AdjointTape.Proofs.LevelGeometry
import AdjointTape.Proofs.Listing
import AdjointTape.Proofs.Lodging
import AdjointTape.Proofs.Matching
import AdjointTape.Proofs.NestedSweep
import AdjointTape.Proofs.Nesting
import AdjointTape.Proofs.Neutral
import AdjointTape.Proofs.Numbers
import AdjointTape.Proofs.Occupancy
import AdjointTape.Proofs.Overflow
import AdjointTape.Proofs.Placement
import AdjointTape.Proofs.Protection
import AdjointTape.Proofs.Readings
import AdjointTape.Proofs.Redirection
import AdjointTape.Proofs.Replay
import AdjointTape.Proofs.ReplayCost
import AdjointTape.Proofs.Rerecording
import AdjointTape.Proofs.Restoring
import AdjointTape.Proofs.Saving
import AdjointTape.Proofs.Schedule
import AdjointTape.Proofs.Script
import AdjointTape.Proofs.Segments
import AdjointTape.Proofs.Series
import AdjointTape.Proofs.Session
import AdjointTape.Proofs.Stage
import AdjointTape.Proofs.StrayBits
import AdjointTape.Proofs.SweepScript
import AdjointTape.Proofs.Sweeping
import AdjointTape.Proofs.TapeView
import AdjointTape.Proofs.Texts
import AdjointTape.Proofs.TraceSchedule
import AdjointTape.Proofs.Traffic
import AdjointTape.Proofs.Transparency
import AdjointTape.Proofs.Undamaged
import AdjointTape.Proofs.Undoing
import AdjointTape.Scalar.Kind
import AdjointTape.Scalar.LittleEndian
import AdjointTape.Session
import AdjointTape.Stack.Call
import AdjointTape.Stack.Cursor
import AdjointTape.Stack.Level
import AdjointTape.Stack.Transfer
import AdjointTape.Staging.Area
import AdjointTape.Staging.Bits
import AdjointTape.Staging.Typed
import AdjointTape.Store.Block
import AdjointTape.Store.Chain
import AdjointTape.Store.Memory
import AdjointTape.Sweep.Run
import AdjointTape.Sweep.Schedule
import AdjointTape.Sweep.Trace
import AdjointTape.Sweep.Values
import AdjointTape.Tape.Basic
import AdjointTape.Tape.Call
import AdjointTape.Tape.Listing

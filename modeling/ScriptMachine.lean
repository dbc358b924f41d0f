import ScriptMachine.Bytes.Basic
import ScriptMachine.Bytes.Utf8
import ScriptMachine.Crypto.Ecdsa
import ScriptMachine.Crypto.P256
import ScriptMachine.Crypto.Ripemd
import ScriptMachine.Crypto.Sha1
import ScriptMachine.Crypto.Sha2
import ScriptMachine.Crypto.Suite
import ScriptMachine.Emit
import ScriptMachine.Engine.Dispatch
import ScriptMachine.Engine.Exec
import ScriptMachine.Engine.Host
import ScriptMachine.Engine.State
import ScriptMachine.Engine.Step
import ScriptMachine.Fault
import ScriptMachine.Frame
import ScriptMachine.Heap.Basic
import ScriptMachine.Heap.Container
import ScriptMachine.Heap.CycleTracker
import ScriptMachine.Heap.Liveness
import ScriptMachine.Heap.Struct
import ScriptMachine.Instructions.Container
import ScriptMachine.Instructions.Control
import ScriptMachine.Instructions.Numeric
import ScriptMachine.Instructions.Push
import ScriptMachine.Instructions.Shuffle
import ScriptMachine.Instructions.Signature
import ScriptMachine.Instructions.Splice
import ScriptMachine.Integer.Arithmetic
import ScriptMachine.Integer.Basic
import ScriptMachine.Integer.Bitwise
import ScriptMachine.Integer.Codec
import ScriptMachine.Integer.Decimal
import ScriptMachine.Integer.LongDivision
import ScriptMachine.Integer.Register
import ScriptMachine.Integer.Words
import ScriptMachine.Item.Basic
import ScriptMachine.Item.Kind
import ScriptMachine.Json.Basic
import ScriptMachine.Json.Printer
import ScriptMachine.Json.Reader
import ScriptMachine.Limits
import ScriptMachine.Main
import ScriptMachine.OpCode
import ScriptMachine.Proofs.Budgets
import ScriptMachine.Proofs.ByteViews
import ScriptMachine.Proofs.CallFrames
import ScriptMachine.Proofs.Callbacks
import ScriptMachine.Proofs.Calls
import ScriptMachine.Proofs.CodeRuns
import ScriptMachine.Proofs.Cycles
import ScriptMachine.Proofs.Debugging
import ScriptMachine.Proofs.Emissions
import ScriptMachine.Proofs.FrameChange
import ScriptMachine.Proofs.Gas
import ScriptMachine.Proofs.GasExhaustion
import ScriptMachine.Proofs.GasFree
import ScriptMachine.Proofs.Heap.CopiedValues
import ScriptMachine.Proofs.Heap.Copies
import ScriptMachine.Proofs.Heap.Finite
import ScriptMachine.Proofs.Heap.Live
import ScriptMachine.Proofs.Heap.MapHistory
import ScriptMachine.Proofs.Heap.Maps
import ScriptMachine.Proofs.Heap.References
import ScriptMachine.Proofs.Heap.Rings
import ScriptMachine.Proofs.Heap.Shapes
import ScriptMachine.Proofs.Heap.StructCopies
import ScriptMachine.Proofs.Heap.StructEquality
import ScriptMachine.Proofs.Heap.TrackedRings
import ScriptMachine.Proofs.Heap.Unfoldings
import ScriptMachine.Proofs.Heap.Walks
import ScriptMachine.Proofs.HostBoundary
import ScriptMachine.Proofs.Hosted
import ScriptMachine.Proofs.Identities
import ScriptMachine.Proofs.Integer.Arithmetic
import ScriptMachine.Proofs.Integer.Bits
import ScriptMachine.Proofs.Integer.ByteCodec
import ScriptMachine.Proofs.Integer.ByteLength
import ScriptMachine.Proofs.Integer.ByteRange
import ScriptMachine.Proofs.Integer.Canonical
import ScriptMachine.Proofs.Integer.CheckedDivision
import ScriptMachine.Proofs.Integer.Decimal
import ScriptMachine.Proofs.Integer.Division
import ScriptMachine.Proofs.Integer.DivisionRounds
import ScriptMachine.Proofs.Integer.Narrowing
import ScriptMachine.Proofs.Integer.Order
import ScriptMachine.Proofs.Integer.Quotients
import ScriptMachine.Proofs.Integer.Scaling
import ScriptMachine.Proofs.Integer.Shifts
import ScriptMachine.Proofs.Integer.TwosComplement
import ScriptMachine.Proofs.Integer.Words
import ScriptMachine.Proofs.ItemCoercions
import ScriptMachine.Proofs.ItemEquality
import ScriptMachine.Proofs.Keeps
import ScriptMachine.Proofs.KeyedAccess
import ScriptMachine.Proofs.Nesting
import ScriptMachine.Proofs.Numbers
import ScriptMachine.Proofs.Operands
import ScriptMachine.Proofs.Perform
import ScriptMachine.Proofs.Policy
import ScriptMachine.Proofs.Rebuilding
import ScriptMachine.Proofs.Renaming.Heaps
import ScriptMachine.Proofs.Renaming.Instructions
import ScriptMachine.Proofs.Renaming.Items
import ScriptMachine.Proofs.Renaming.Matching
import ScriptMachine.Proofs.Renaming.Steps
import ScriptMachine.Proofs.Reports
import ScriptMachine.Proofs.ResourceBounds
import ScriptMachine.Proofs.Resume
import ScriptMachine.Proofs.ReturnCounts
import ScriptMachine.Proofs.ScriptCache
import ScriptMachine.Proofs.ScriptEnd
import ScriptMachine.Proofs.Shuffles
import ScriptMachine.Proofs.SignatureMatching
import ScriptMachine.Proofs.SignaturePrices
import ScriptMachine.Proofs.SingleWrites
import ScriptMachine.Proofs.StateChange
import ScriptMachine.Proofs.Steps
import ScriptMachine.Proofs.StructValues
import ScriptMachine.Proofs.Tidy
import ScriptMachine.Proofs.Writes
import ScriptMachine.Runner.Command
import ScriptMachine.Runner.Config
import ScriptMachine.Runner.LimitsTable
import ScriptMachine.Runner.Options
import ScriptMachine.Runner.Report
import ScriptMachine.Stack
import ScriptMachine.Text.Blank
import ScriptMachine.Text.HexText
import ScriptMachine.Toml.Basic
import ScriptMachine.Toml.Moment
import ScriptMachine.Toml.Reader

import ScriptMachine.Bytes.Utf8
import ScriptMachine.Frame
import ScriptMachine.Heap.Container
import ScriptMachine.Heap.CycleTracker

/-! # The state of a machine

A *session* is one execution: its frames, results, loaded scripts, gas and tracked containers. The
*state* of a machine is its session with the heap, the limits and the cryptography under which it runs,
the items that the host keeps hold of, and a journal of what happened.

* `Status`: whether a machine runs, and how it ended.
* `Event`: an entry of the journal.
* `Session`, `State`: the two layers.
* `State.consumeGas`, `State.loadScript`, `State.clean`, `State.close`: what hosts and instructions do.
* `State.itemCount`, `State.price`: the measures that a step checks.
-/

namespace ScriptMachine

/-- Whether a machine runs, and how it ended. All but `running` are final for a session. -/
inductive Status where
  /-- The machine can go on. -/
  | running
  /-- The last frame has returned. -/
  | halted
  /-- An instruction failed. -/
  | faulted
  /-- The gas did not suffice for the next instruction or for the host. -/
  | outOfGas
  deriving DecidableEq, Repr, Inhabited

namespace Status

/-- The name of a status. -/
def name : Status → String
  | running => "NONE"
  | halted => "HALT"
  | faulted => "FAULT"
  | outOfGas => "FAULT_BY_GAS"

/-- The number of a status. -/
def code : Status → Nat
  | running => 0
  | halted => 1
  | faulted => 2
  | outOfGas => 4

/-- Whether the machine can go on. -/
def isRunning (s : Status) : Bool := s == running

/-- Whether the machine ended well. -/
def isHalted (s : Status) : Bool := s == halted

/-- Whether the machine failed. -/
def isFault (s : Status) : Bool := s == faulted || s == outOfGas

/-- Whether the machine ended. -/
def isFinal (s : Status) : Bool := !s.isRunning

/-- All statuses. -/
def all : List Status := [running, halted, faulted, outOfGas]

end Status

/-- An entry of the journal. -/
inductive Event where
  /-- The behaviour of an instruction failed. -/
  | failed (op : OpCode) (position : Nat)
  /-- A step ended in a fault. -/
  | fault (cause : Fault)
  /-- An amount of gas was refused. -/
  | gasRefused (consumed amount limit : Nat)
  /-- The end of a session emptied containers. -/
  | released (count : Nat)
  /-- The host was asked for the message to sign. -/
  | messageAsked (iteration : UInt32)
  /-- A signature was checked. -/
  | signatureChecked (message signature key : Bytes)
  /-- The host took a note. -/
  | note (text : String)
  deriving DecidableEq, Repr

/-- One execution. -/
structure Session where
  /-- Whether the execution goes on. -/
  status : Status := .running
  /-- The number that the host gave to the execution. -/
  iteration : UInt32 := 0
  /-- The frames. -/
  calls : CallStack
  /-- The items that the outermost frames returned. -/
  results : Stack := []
  /-- The loaded scripts, with different hashes, in the order of loading. -/
  scripts : Array Script := #[]
  /-- The gas consumed so far. -/
  gasConsumed : Nat := 0
  /-- The most gas that may be consumed. -/
  gasLimit : Nat := maxUInt64
  /-- The containers that received containers. -/
  tracker : CycleTracker := .empty
  deriving Repr, Inhabited

/-- A new execution. -/
def Session.start (limits : Limits) (iteration : UInt32) : Session :=
  { iteration, calls := { maxDepth := limits.maxInvocationStackSize } }

/-- A machine without its host. -/
structure State where
  /-- The bounds of the machine. -/
  limits : Limits
  /-- The digests and the signature check. -/
  crypto : CryptoSuite
  /-- The objects. -/
  heap : Heap := .empty
  /-- The current execution. -/
  session : Session
  /-- The message to sign, by iteration, if the host provides one. -/
  message : Option (UInt32 → Bytes) := none
  /-- The items that the host keeps hold of, by name. -/
  kept : List (String × Item) := []
  /-- What happened, the latest entry first. -/
  journal : List Event := []
  deriving Inhabited

namespace State

/-- A machine before its first execution. -/
def new (limits : Limits) (crypto : CryptoSuite) : State :=
  { limits, crypto, session := Session.start limits 0 }

/-! ### Views -/

/-- The frames, the innermost one first. -/
def frames (s : State) : List Frame := s.session.calls.frames

/-- The innermost frame. -/
def currentFrame? (s : State) : Option Frame := s.session.calls.peek? 0

/-- The number of items on all stacks. -/
def itemCount (s : State) : Nat :=
  s.frames.foldr (fun f n => f.eval.length + f.alt.length + n) s.session.results.length

/-- The items on all stacks. -/
def stackItems (s : State) : List Item :=
  s.session.results ++ s.frames.flatMap fun f => f.eval ++ f.alt

/-- Everything that is held outside of containers. -/
def roots (s : State) : List Item := s.kept.map (·.2) ++ s.stackItems

/-- The place of a script among the loaded ones. -/
def scriptIndex? (s : State) (hash : Bytes) : Option Nat :=
  s.session.scripts.findIdx? (·.hash == hash)

/-! ### Changes -/

/-- Adds an entry to the journal. -/
def record (s : State) (e : Event) : State := { s with journal := e :: s.journal }

/-- Replaces the frames. -/
def setFrames (s : State) (frames : List Frame) : State :=
  { s with session := { s.session with calls := { s.session.calls with frames } } }

/-- Sets the status. -/
def setStatus (s : State) (status : Status) : State :=
  { s with session := { s.session with status } }

/-- Sets the most gas that may be consumed. -/
def setGasLimit (s : State) (gasLimit : Nat) : State :=
  { s with session := { s.session with gasLimit } }

/-- Consumes gas. An amount that does not fit is refused, which ends the execution. The consumed gas
never exceeds 64 bits. -/
def consumeGas (s : State) (amount : Nat) : Bool × State :=
  let consumed := s.session.gasConsumed
  let total := Nat.min (consumed + amount) maxUInt64
  if total > s.session.gasLimit then
    (false, (s.record (.gasRefused consumed amount s.session.gasLimit)).setStatus .outOfGas)
  else (true, { s with session := { s.session with gasConsumed := total } })

/-- Pushes a frame for a loaded script. -/
def loadCached (s : State) (index : Nat) (returnCount : Int) : Except Fault Unit × State :=
  match s.session.scripts[index]? with
  | none => (.error (.noCachedScript index), s)
  | some script =>
    match s.session.calls.push { script, returnCount } with
    | .error f => (.error f, s)
    | .ok calls => (.ok (), { s with session := { s.session with calls } })

/-- Loads a script, unless one with its hash is loaded already, and pushes a frame for it. Returns its
place among the loaded scripts. A script stays loaded when its frame finds no room. -/
def loadScript (s : State) (body : Bytes) (returnCount : Int) : Except Fault Nat × State :=
  let script := Script.of s.crypto body
  let (index, s) :=
    match s.scriptIndex? script.hash with
    | some index => (index, s)
    | none =>
      (s.session.scripts.size,
        { s with session := { s.session with scripts := s.session.scripts.push script } })
  match s.loadCached index returnCount with
  | (.ok (), s) => (.ok index, s)
  | (.error f, s) => (.error f, s)

/-- Remembers that a container received a container. The extra items are held by the caller. -/
def track (s : State) (x : Item) (extra : List Item) : State :=
  let tracker := s.session.tracker.track s.heap (extra ++ s.roots) x
  { s with session := { s.session with tracker } }

/-- Ends the execution: its stacks are dropped, and the tracked containers that lie on a ring are
emptied. The session that is left has nothing but the given iteration. -/
def clean (s : State) (iteration : UInt32) : State :=
  let (count, heap) := s.session.tracker.release s.heap
  let s := { s with heap, session := Session.start s.limits iteration }
  if count == 0 then s else s.record (.released count)

/-- Ends the machine; only the items that the host keeps are left. -/
def close (s : State) : State := s.clean 0

/-- Keeps hold of an item under a name. -/
def keep (s : State) (name : String) (x : Item) : State :=
  { s with kept := (name, x) :: s.kept.filter (·.1 != name) }

/-- Lets go of the item under a name. -/
def forget (s : State) (name : String) : State :=
  { s with kept := s.kept.filter (·.1 != name) }

/-- The item that is kept under a name. -/
def keptItem? (s : State) (name : String) : Option Item := s.kept.lookup name

/-! ### Prices -/

/-- The price of checking several signatures: 100 for every key announced by the top item, at least
one. -/
def multiSigPrice (s : State) : Nat :=
  match s.currentFrame? with
  | none => 1
  | some f =>
    match f.eval.head? with
    | none => 1
    | some x =>
      let keys : Int :=
        match s.heap.elements? x, x.integerValue with
        | some items, _ => items.length
        | none, .ok value => (value.toInt64?.map Int64.toInt).getD 0
        | none, .error _ => 0
      if keys < 1 then 1 else Nat.min (keys.toNat * 100) maxUInt64

/-- The price of an instruction in gas. -/
def price (s : State) : OpCode → Nat
  | .sha1 | .sha256 => 10
  | .hash160 | .hash256 => 20
  | .checkSig | .verify => 100
  | .checkMultiSig => s.multiSigPrice
  | .appCall | .tailCall | .callE | .callED | .callET | .callEDT => 10
  | _ => 1

end State

end ScriptMachine

import ScriptMachine.Engine.State

/-! # The host

A host serves a machine through callbacks. A callback is a `HostProgram`: a finite tree of requests to
the machine, each of which is answered before the program goes on, until it answers yes or no. The
requests are data, so that one can say of a host which of them it makes.

* `HostCall`, `HostReply`: requests and their answers.
* `HostCall.perform`: the effect of a request.
* `HostProgram`: callbacks.
-/

namespace ScriptMachine

/-- A request of the host to the machine. -/
inductive HostCall where
  /-- Take a note in the journal. -/
  | note (text : String)
  /-- Consume gas. -/
  | consumeGas (amount : Nat)
  /-- Load a script and push a frame for it. -/
  | loadScript (body : Bytes) (returnCount : Int)
  /-- Push a frame for a loaded script. -/
  | loadCached (index : Nat) (returnCount : Int)
  /-- Push an item on the innermost frame. -/
  | push (x : Item)
  /-- Pop an item of the innermost frame. -/
  | pop
  /-- Push an item on the results. -/
  | pushResult (x : Item)
  /-- Take away the innermost frame. -/
  | popFrame
  /-- Take away all frames. -/
  | clearFrames
  /-- Create a byte string. -/
  | newBytes (data : Bytes)
  /-- Create a host handle. -/
  | newHandle (data : Bytes)
  /-- Create an array. -/
  | newArray (items : List Item)
  /-- Add an element to an array or a struct. -/
  | append (container x : Item)
  /-- Remember that a container received a container. -/
  | track (x : Item)
  /-- End the execution and start another one. -/
  | clean (iteration : UInt32)
  deriving DecidableEq, Repr

/-- The answer to a request. -/
inductive HostReply where
  /-- The request was carried out. -/
  | done
  /-- The gas was granted or refused. -/
  | granted (ok : Bool)
  /-- The item that was asked for. -/
  | item (x : Item)
  /-- The place of the loaded script. -/
  | index (n : Nat)
  /-- The request failed. -/
  | failed (cause : Fault)
  deriving DecidableEq, Repr

namespace HostCall

/-- The effect of a request and its answer. -/
def perform (s : State) : HostCall → HostReply × State
  | note text => (.done, s.record (.note text))
  | consumeGas amount =>
    let (ok, s) := s.consumeGas amount
    (.granted ok, s)
  | loadScript body returnCount =>
    match s.loadScript body returnCount with
    | (.ok n, s) => (.index n, s)
    | (.error f, s) => (.failed f, s)
  | loadCached index returnCount =>
    match s.loadCached index returnCount with
    | (.ok (), s) => (.index index, s)
    | (.error f, s) => (.failed f, s)
  | push x =>
    match s.frames with
    | [] => (.failed .noCurrentFrame, s)
    | f :: rest => (.done, s.setFrames ({ f with eval := x :: f.eval } :: rest))
  | pop =>
    match s.frames with
    | [] => (.failed .noCurrentFrame, s)
    | f :: rest =>
      match f.eval.pop with
      | .ok (x, eval) => (.item x, s.setFrames ({ f with eval } :: rest))
      | .error e => (.failed e, s)
  | pushResult x =>
    (.done, { s with session := { s.session with results := x :: s.session.results } })
  | popFrame => (.done, s.setFrames s.frames.tail)
  | clearFrames => (.done, s.setFrames [])
  | newBytes data =>
    let (x, heap) := s.heap.newBytes data
    (.item x, { s with heap })
  | newHandle data =>
    let (x, heap) := s.heap.newHandle data
    (.item x, { s with heap })
  | newArray items =>
    let (x, heap) := s.heap.newArray items
    (.item x, { s with heap })
  | append container x =>
    match container.listCell? with
    | some id => (.done, { s with heap := s.heap.append id x })
    | none => (.failed (.notACollection container.kind), s)
  | track x => (.done, s.track x [x])
  | clean iteration => (.done, s.clean iteration)

end HostCall

/-- A callback of the host. -/
inductive HostProgram where
  /-- Answer yes or no. -/
  | answer (ok : Bool)
  /-- Make a request and go on with its answer. -/
  | request (call : HostCall) (next : HostReply → HostProgram)
  /-- Look at the machine. -/
  | inspect (next : State → HostProgram)
  /-- Let the machine make one step. -/
  | step (next : Status → HostProgram)
  /-- Put in another service handler. -/
  | setInterop (handler : Bytes → HostProgram) (next : HostProgram)

/-- A service handler: what the host does for a service name. -/
abbrev InteropHandler := Bytes → HostProgram

/-- A script loader: what the host does for a script hash, for whether the hash came from the stack, and
for a return count. -/
abbrev ScriptLoader := Bytes → Bool → Int → HostProgram

end ScriptMachine

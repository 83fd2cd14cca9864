import DataPropagator.Lib.Courier
import DataPropagator.Lib.Machine
import DataPropagator.Network.Wire

/-!
# The processes of a table at work

`Routing` follows one warning.  Here all processes of a table run at once, each at its own
pace, with any number of warnings under way.  A propagator has a listener, a queue and
`THREAD_POOL_SIZE` workers, which finish their jobs in any order.  A destination has a
listener, a queue and a processor.  The data source sends.

Connections may fail to open, sends may be cut short, connections may break with bytes
under way, and allocations may fail.  `NetworkAction.clean` says of a step that nothing of
this happens in it.  A call of `send_warning_to` is one step: what the cache of connections
does when calls overlap is the subject of `ClientRuns` and `FrameAlignment`.

`Network.Tracks` ties the system to a log of what was sent (`Lib.Courier`), and
`Network.Tracks.step` says that every step of the system is written down there.
-/

namespace DataPropagator

open Forest Courier

/-! ## The system -/

/-- `THREAD_POOL_SIZE`. -/
def threadPoolSize : Nat := 4

/-- How a call of `send_warning_to` goes. -/
structure Attempt where
  /-- `get_or_create_connection` returns a socket. -/
  connected : Bool
  /-- The buffer is allocated. -/
  alloc : Bool
  /-- So many bytes are all that `send` takes. -/
  taken : Option Nat
deriving DecidableEq

/-- A call that succeeds. -/
def Attempt.whole : Attempt where
  connected := true
  alloc := true
  taken := none

/-- What `send` returns. -/
def Attempt.send (e : Attempt) (_ : Bytes) (len : Int) : Int :=
  match e.taken with
  | none => len
  | some n => min n len

/-- The bytes that get on the wire. -/
def Attempt.carried (e : Attempt) (buf : Bytes) : Bytes :=
  match e.taken with
  | none => buf
  | some n => buf.take n

/-- The processes, by the rows they run for. -/
structure Network where
  /-- The connections into the listener. -/
  wire : Nat → Wire
  /-- The queue of the pool of a propagator, or the queue of a destination. -/
  queue : Nat → List Warning
  /-- The jobs that workers of a propagator are at. -/
  busy : Nat → List Warning
  /-- What the processor of a destination has counted. -/
  counted : Nat → List Warning
  /-- What the data source has called `send_warning_to` for. -/
  sent : List Warning

/-- All processes listen and nothing was sent. -/
def Network.init : Network where
  wire _ := .empty
  queue _ := []
  busy _ := []
  counted _ := []
  sent := []

/-- A step of one process, or of the network. -/
inductive NetworkAction where
  /-- The data source sends a warning to the root above its destination. -/
  | send (w : Warning) (e : Attempt)
  /-- The listener of a row calls `deserialize_warning`.  `kept` says whether the
  allocations for the job or the queue succeed. -/
  | receive (i : Nat) (sock : Sock) (kept : Bool)
  /-- An allocation in `deserialize_warning` fails, and the listener closes the connection. -/
  | abandon (i : Nat)
  /-- The connection into a listener breaks. -/
  | reset (i k : Nat)
  /-- A worker takes a job. -/
  | take (i : Nat)
  /-- The worker with a job runs `dispatch_job_fn`. -/
  | dispatch (i j : Nat) (e : Attempt)
  /-- The processor of a destination takes a warning and counts it. -/
  | count (i : Nat)

/-- Nothing fails in the step. -/
def NetworkAction.clean : NetworkAction → Bool
  | .send _ e => e = .whole
  | .receive _ _ kept => kept
  | .abandon _ => false
  | .reset _ _ => false
  | .take _ => true
  | .dispatch _ _ e => e = .whole
  | .count _ => true

/-- The step is one of the data source. -/
def NetworkAction.isSend : NetworkAction → Bool
  | .send _ _ => true
  | _ => false

/-- A call of `send_warning_to` for a row. -/
def attemptTo (row : NodeInfo) (e : Attempt) (w : Warning) : Dispatch where
  address := row.address
  port := row.port
  call := sendWarningTo e.connected e.alloc e.send w

/-- The row is a `DESTINATION`. -/
def isDestination (nodes : List NodeInfo) (i : Nat) : Bool :=
  (nodes[i]?).any fun node => node.type == .destination

/-- What a call of `send_warning_to` does to the wires. -/
def Network.transfer (nodes : List NodeInfo) (s : Network) (e : Attempt) (x : Dispatch) : Network :=
  match x.call.sent, nodeAt nodes x.address x.port with
  | some buf, some n =>
      let v := (s.wire n).write (e.carried buf.1)
      { s with wire := Function.update s.wire n (if x.call.evicts then v.hangUp else v) }
  | _, _ => s

/-- What the listener of row `i` does with what a call of the decoder left.  On a connection
that is open the call does not return before the bytes are there. -/
def Network.listen (s : Network) (i : Nat) (d : Decoded) (kept : Bool) : Option Network :=
  match d.result with
  | some w =>
      some { s with
        wire := Function.update s.wire i ((s.wire i).advance d.sock.stream)
        queue := if kept then Function.update s.queue i (s.queue i ++ [w]) else s.queue }
  | none =>
      if (s.wire i).closed = [] then none
      else some { s with wire := Function.update s.wire i (s.wire i).accept }

section Steps

variable (fuel : Nat) (content : Bytes) (nodes : List NodeInfo)

/-- One turn of `network_sender_thread` for a warning. -/
def networkSendBy (e : Attempt) (w : Warning) : Option Dispatch :=
  (nodeFindById nodes w.destNode).bind fun dest =>
  (findRoot nodes fuel dest).bind fun root =>
  (nodes[root]?).map fun row => attemptTo row e w

/-- `dispatch_job_fn` in the propagator of row `c`. -/
def relayBy (e : Attempt) (w : Warning) (c : Nat) : Option Dispatch :=
  (contextOf fuel content nodes c).bind fun ctx =>
    dispatchJobFn fuel ctx e.connected e.alloc e.send w

/-- One step. -/
def Network.step (s : Network) : NetworkAction → Option Network
  | .send w e =>
      (networkSendBy fuel nodes e w).map fun x =>
        { s with sent := s.sent ++ [w] }.transfer nodes e x
  | .receive i sock kept =>
      (nodes[i]?).bind fun node =>
        if (s.wire i).front = some sock.stream then s.listen i (decoderOf node sock) kept else none
  | .abandon i => some { s with wire := Function.update s.wire i (s.wire i).accept }
  | .reset i k => some { s with wire := Function.update s.wire i ((s.wire i).reset k) }
  | .take i =>
      if isDestination nodes i = false ∧ (s.busy i).length < threadPoolSize then
        match s.queue i with
        | [] => none
        | w :: ws => some { s with
            queue := Function.update s.queue i ws
            busy := Function.update s.busy i (s.busy i ++ [w]) }
      else none
  | .dispatch i j e =>
      ((s.busy i)[j]?).bind fun w =>
        (relayBy fuel content nodes e w i).map fun x =>
          { s with busy := Function.update s.busy i ((s.busy i).eraseIdx j) }.transfer nodes e x
  | .count i =>
      if isDestination nodes i then
        match s.queue i with
        | [] => none
        | w :: ws => some { s with
            queue := Function.update s.queue i ws
            counted := Function.update s.counted i (s.counted i ++ [w]) }
      else none

end Steps

end DataPropagator

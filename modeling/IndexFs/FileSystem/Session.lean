import IndexFs.FileSystem.Link
import IndexFs.FileSystem.Operation
import IndexFs.Gate
import IndexFs.Meter

/-!
# File system sessions

A file system in use. The first read makes the connection, all reads wait for it, and then each of them
asks the index its one question. Changes are refused at once, and nothing is ever reported to those who
watch.

Between two events from outside everything happens that can happen: the connection is made, the client
introduces itself, waiting reads are let through, and answers come back.
-/

namespace IndexFs.FileSystem

/-- Who calls on the link. -/
inductive Caller where
  | introduction
  | confirmation
  | read (call : Nat)
deriving DecidableEq, Repr

/-- How far the connection has come. -/
inductive Stage where
  | unopened
  | introducing
  | confirming
  | finished
deriving DecidableEq, Repr

structure Session where
  connector : Connector
  processId : Nat
  /-- Whether a request for metadata that fails on its way counts as an answer. -/
  statErrorsAsNotFound : Bool
  released : Bool
  gate : Gate Nat
  stage : Stage
  link : Link Caller
  /-- What has gone over the channel since it was opened. -/
  metrics : Option Metrics
  /-- The reads that are not finished. -/
  reads : List (Nat × Read)
  /-- The calls that have ended, in this order; a change has no value. -/
  results : List (Nat × Except FsError Value)

/-- What those who watch do. -/
inductive Watching where
  | watch (url : Url) (recursive : Bool)
  | dispose
  | subscribe
  | receive (call : Nat)

/-- What happens from outside. -/
inductive Event where
  | read (call : Nat) (r : Read)
  | change (call : Nat) (c : Change)
  | watching (w : Watching)
  | cancel (call : Nat)
  /-- A connector that is held may go on. -/
  | release
  | resetMetrics

namespace Session

def new (connector : Connector) (link : Link Caller) (statErrorsAsNotFound : Bool)
    (processId : Nat) : Session where
  connector := connector
  processId := processId
  statErrorsAsNotFound := statErrorsAsNotFound
  released := false
  gate := .new
  stage := .unopened
  link := link
  metrics := none
  reads := []
  results := []

def finish (s : Session) (call : Nat) (r : Except FsError Value) : Session :=
  { s with results := s.results ++ [(call, r)] }

def occur (s : Session) : Event → Session
  | .read call r =>
    { s with gate := s.gate.enter call, reads := s.reads ++ [(call, r)] }
  | .change call c => s.finish call (.error c.refusal)
  | .watching _ => s
  | .cancel call =>
    { s with
      gate := s.gate.leave call
      link := s.link.cancel (.read call)
      reads := s.reads.filter fun p => p.1 ≠ call }
  | .release => { s with released := true }
  | .resetMetrics => { s with metrics := s.metrics.map fun _ => .zero }

/-! ## The channel with its meter -/

def count (s : Session) (f : Metrics → Metrics) : Session :=
  { s with metrics := s.metrics.map f }

def request (s : Session) (caller : Caller) (method : String) (params : Json) : Session :=
  { s with link := s.link.request caller method params }.count (·.countRequest method)

def notify (s : Session) (caller : Caller) (method : String) (params : Json) : Session :=
  { s with link := s.link.notify caller method params }.count (·.countNotification)

/-! ## Making the connection -/

/-- The outcome of making the connection. -/
def resolve (s : Session) (r : Except ChannelError Unit) : Session :=
  { s with gate := s.gate.resolve r, stage := .finished }

/-- Opens the channel, or fails to; a client with a name introduces itself. -/
def openChannel (s : Session) : Session :=
  match s.connector.fate with
  | .breaksDown message => s.resolve (.error (Connector.breakdown message))
  | .fails e => s.resolve (.error e)
  | .opens none => { s with metrics := some .zero }.resolve (.ok ())
  | .opens (some name) =>
    { s with metrics := some .zero, stage := .introducing }.request .introduction
      Handshake.requestMethod (Handshake.params ⟨name, Handshake.version, s.processId⟩)

/-- The connector runs once it was called, and released if it is held. -/
def connect (s : Session) : Session :=
  if s.stage = .unopened && s.gate.started && (!s.connector.held || s.released) then s.openChannel
  else s

/-! ## Results -/

/-- The end of a read. -/
def finishRead (s : Session) (call : Nat) (r : Read) (reply : Channel.Result) : Session :=
  let result := r.result reply
  { s with reads := s.reads.filter fun p => p.1 ≠ call }.finish call
    (if s.statErrorsAsNotFound then r.folded result else result)

/-- Takes note of the result of a call on the link. -/
def hear (s : Session) (caller : Caller) (reply : Channel.Result) : Session :=
  match caller with
  | .introduction =>
    let s := s.count (·.countResult reply)
    match Handshake.accept reply with
    | .error e => s.resolve (.error e)
    | .ok _ =>
      { s with stage := .confirming }.notify .confirmation Handshake.notificationMethod
        Handshake.notificationParams
  | .confirmation => s.resolve (reply.map fun _ => ())
  | .read call =>
    match s.reads.lookup call with
    | none => s
    | some r => (s.count (·.countResult reply)).finishRead call r reply

/-- Lets the link carry what was sent, and takes note of the results. -/
def exchange (s : Session) : Session :=
  let (link, results) := s.link.settle.collect
  results.foldl (fun s r => s.hear r.1 r.2) { s with link := link }

/-! ## Reads at the gate -/

/-- A read that has passed the gate, or was turned back. -/
def proceed (s : Session) (call : Nat) (verdict : Except FsError Unit) : Session :=
  match s.reads.lookup call with
  | none => s
  | some r =>
    match verdict with
    | .ok () => s.request (.read call) r.method.name r.params
    | .error e =>
      { s with reads := s.reads.filter fun p => p.1 ≠ call }.finish call (.error e)

/-- Lets the waiting reads through once the connection is made. -/
def letThrough (s : Session) : Session :=
  let (gate, admitted) := s.gate.letThrough
  admitted.foldl (fun s a => s.proceed a.1 a.2) { s with gate := gate }

/-- The session after all that can happen until something else comes from outside: the introduction, its
confirmation, and the reads each go over the link once. -/
def settle (s : Session) : Session :=
  s.connect.exchange.exchange.letThrough.exchange

/-- The session after an event. -/
def apply (s : Session) (e : Event) : Session :=
  (s.occur e).settle

end Session

end IndexFs.FileSystem

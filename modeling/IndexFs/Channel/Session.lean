import IndexFs.Channel.Message
import IndexFs.Frame

/-!
# Sessions

A session is one side of a connection: it writes the frames of its calls, reads what the other side
sends, and gives each response to the call whose request has its id. Frames are written one after the
other, in the order in which their calls were made. The reader rejects the requests of the other side,
and before such a rejection has been written it reads no further.

`apply` is what happens to a session from outside, `advance?` one thing that the session does by itself,
and `settle` everything that it can do until something else happens.
-/

namespace IndexFs.Channel

/-- Whose frame is written. -/
inductive Origin (Call : Type) where
  | request (id : Nat) (call : Call)
  | notification (call : Call)
  | rejection
deriving DecidableEq, Repr

/-- A frame that waits for its turn. -/
structure Job (Call : Type) where
  origin : Origin Call
  frame : List UInt8

/-- How a call ends. -/
abbrev Result := Except ChannelError Json

/-- One side of a connection; its calls are told apart by `Call`. -/
structure Session (Call : Type) where
  /-- The id of the next request. It is an integer of 64 bits with a sign as long as there were fewer than
  `2 ^ 63 - 1` requests. -/
  nextId : Nat
  /-- The requests that wait for a response: their ids and calls. -/
  pending : List (Nat × Call)
  /-- The frames that are not written yet. -/
  queue : List (Job Call)
  /-- The results of calls whose own frame is not written yet. -/
  answered : List (Call × Result)
  /-- Whether reading has ended. -/
  closed : Bool
  /-- Whether the reader waits until its rejection has been written. -/
  rejecting : Bool
  /-- The bytes that have arrived and are not read yet. -/
  input : List UInt8
  ending : Ending
  writer : Frame.Writer
  /-- Whether writing has to wait. -/
  blocked : Bool
  /-- All bytes that were written. -/
  output : List UInt8
  /-- The calls that have ended, in this order. -/
  results : List (Call × Result)

/-- What happens to a session from outside. -/
inductive Event (Call : Type) where
  | request (call : Call) (method : String) (params : Json)
  | notify (call : Call) (method : String) (params : Json)
  /-- The caller no longer waits. -/
  | cancel (call : Call)
  | receive (bytes : List UInt8)
  /-- Nothing arrives after the bytes so far. -/
  | endInput (ending : Ending)
  /-- The writer accepts so many bytes more, and then fails. -/
  | breakWriter (after : Nat) (message : String)
  | block
  | unblock

namespace Session

variable {Call : Type} [DecidableEq Call]

/-- A fresh connection. -/
def new : Session Call where
  nextId := 1
  pending := []
  queue := []
  answered := []
  closed := false
  rejecting := false
  input := []
  ending := .unknown
  writer := .unlimited
  blocked := false
  output := []
  results := []

def finish (s : Session Call) (call : Call) (r : Result) : Session Call :=
  { s with results := s.results ++ [(call, r)] }

/-! ## Events -/

/-- Takes an id, and puts the request into the queue unless the session is closed. -/
def request (s : Session Call) (call : Call) (method : String) (params : Json) : Session Call :=
  let id := s.nextId
  let s := { s with nextId := id + 1 }
  if s.closed then s.finish call (.error .closed)
  else
    { s with
      pending := s.pending ++ [(id, call)]
      queue := s.queue ++ [⟨.request id call, Frame.bytes (Message.request id method params)⟩] }

def notify (s : Session Call) (call : Call) (method : String) (params : Json) : Session Call :=
  if s.closed then s.finish call (.error .closed)
  else
    { s with
      queue := s.queue ++ [⟨.notification call, Frame.bytes (Message.notification method params)⟩] }

/-- Whether a frame belongs to a call. -/
def Origin.belongsTo (call : Call) : Origin Call → Bool
  | .request _ c => c = call
  | .notification c => c = call
  | .rejection => false

/-- Forgets a call; a frame of it that is not written yet never will be. -/
def cancel (s : Session Call) (call : Call) : Session Call :=
  { s with
    pending := s.pending.filter fun p => p.2 ≠ call
    queue := s.queue.filter fun j => !Origin.belongsTo call j.origin
    answered := s.answered.filter fun a => a.1 ≠ call }

/-- Bytes and an end that come after the end are not seen. -/
def receive (s : Session Call) (bytes : List UInt8) : Session Call :=
  match s.ending with
  | .unknown => { s with input := s.input ++ bytes }
  | _ => s

def endInput (s : Session Call) (ending : Ending) : Session Call :=
  match s.ending with
  | .unknown => { s with ending := ending }
  | _ => s

def occur (s : Session Call) : Event Call → Session Call
  | .request call method params => s.request call method params
  | .notify call method params => s.notify call method params
  | .cancel call => s.cancel call
  | .receive bytes => s.receive bytes
  | .endInput ending => s.endInput ending
  | .breakWriter after message => { s with writer := ⟨some (after, message)⟩ }
  | .block => { s with blocked := true }
  | .unblock => { s with blocked := false }

/-! ## Writing -/

/-- After the frame of a request: the call ends now if its write failed, or if its result is already
known. -/
def requestWritten (s : Session Call) (id : Nat) (call : Call) :
    Except ChannelError Unit → Session Call
  | .ok () =>
    match s.answered.lookup call with
    | some r => { s with answered := s.answered.filter fun a => a.1 ≠ call }.finish call r
    | none => s
  | .error e =>
    { s with
      pending := s.pending.filter fun p => p.1 ≠ id
      answered := s.answered.filter fun a => a.1 ≠ call }.finish call (.error e)

/-- After a frame has been written, or has failed to be. -/
def written (s : Session Call) (origin : Origin Call) (r : Except ChannelError Unit) :
    Session Call :=
  match origin with
  | .request id call => s.requestWritten id call r
  | .notification call => s.finish call (r.map fun _ => .null)
  | .rejection => { s with rejecting := false }

/-- Writes the first frame of the queue. -/
def writeNext? (s : Session Call) : Option (Session Call) :=
  if s.blocked then none
  else
    match s.queue with
    | [] => none
    | job :: rest =>
      let (accepted, result, writer) := s.writer.write job.frame
      some ({ s with queue := rest, writer := writer, output := s.output ++ accepted }.written
        job.origin result)

/-! ## Reading -/

/-- Whether the frame of a call still waits for its turn. -/
def isQueued (s : Session Call) (call : Call) : Bool :=
  s.queue.any fun j => Origin.belongsTo call j.origin

/-- Gives a call its result. It ends with it as soon as its own frame has been written. -/
def deliver (s : Session Call) (call : Call) (r : Result) : Session Call :=
  if s.isQueued call then { s with answered := s.answered ++ [(call, r)] }
  else s.finish call r

/-- The call that waits for the response with this id. -/
def pendingCall? (s : Session Call) (id : Int) : Option Call :=
  (s.pending.find? fun p => (p.1 : Int) = id).map (·.2)

/-- Acts upon a message. -/
def dispatch (s : Session Call) (message : Json) : Session Call :=
  match Incoming.of message with
  | .response id r =>
    match s.pendingCall? id with
    | some call =>
      { s with pending := s.pending.filter fun p => (p.1 : Int) ≠ id }.deliver call r
    | none => s
  | .request id method =>
    { s with
      queue := s.queue ++ [⟨.rejection, Frame.bytes (Message.rejection id method)⟩]
      rejecting := true }
  | .other => s

/-- Ends reading: whoever waits for a response learns that none will come. -/
def close (s : Session Call) : Session Call :=
  s.pending.foldl (fun s p => s.deliver p.2 (.error .closed)) { s with closed := true, pending := [] }

/-- Reads a frame and acts upon it, or finds that there will be none. -/
def readNext? (s : Session Call) : Option (Session Call) :=
  if s.closed || s.rejecting then none
  else
    match Frame.read s.ending s.input with
    | .pending => none
    | .message message rest => some ({ s with input := rest }.dispatch message)
    | .fault _ rest => some { s with input := rest }.close
    | .finished => some { s with input := [] }.close
    | .failed _ => some s.close

/-! ## Runs -/

/-- One thing that the session does by itself: it writes before it reads. -/
def advance? (s : Session Call) : Option (Session Call) :=
  s.writeNext? <|> s.readNext?

/-- More than the number of things that a session can do by itself: it writes each frame that waits, and
each further one rejects a frame that has two bytes or more. -/
def work (s : Session Call) : Nat :=
  2 * s.input.length + s.queue.length + 1

def run (s : Session Call) : Nat → Session Call
  | 0 => s
  | fuel + 1 =>
    match s.advance? with
    | some s => s.run fuel
    | none => s

/-- The session after all that it can do by itself. -/
def settle (s : Session Call) : Session Call :=
  s.run s.work

/-- The session after something has happened to it. -/
def apply (s : Session Call) (e : Event Call) : Session Call :=
  (s.occur e).settle

/-- The text that shows the state to a reader of the program. -/
def description (s : Session Call) : String :=
  s!"JsonRpcChannel \x7b next_id: {s.nextId}, closed: {s.closed} \x7d"

end Session

end IndexFs.Channel

import IndexFs.Channel.Message
import IndexFs.Frame
import IndexFs.Index

/-!
# Index servers

The other side of a connection: a server that takes one request after the other, asks the index, and
answers each one under its id. An error that the index reports becomes an error response; on any other
error it hangs up, and an index that is silent keeps it from ever answering again. It answers no
notification.
-/

namespace IndexFs

structure Server where
  index : Index
  /-- After so many answers the server hangs up instead of answering. -/
  patience : Option Nat
  /-- The bytes that have arrived and are not read yet. -/
  input : List UInt8
  /-- The bytes that are on their way to the client. -/
  output : List UInt8
  /-- How many requests were taken. -/
  served : Nat
  /-- Whether it waits for an answer that never comes. -/
  stuck : Bool
  closed : Bool
  /-- The messages that were taken. -/
  received : List Outgoing

namespace Server

def new (index : Index) (patience : Option Nat) : Server where
  index := index
  patience := patience
  input := []
  output := []
  served := 0
  stuck := false
  closed := false
  received := []

/-- What the client has said is kept in the order in which it came. -/
def log (s : Server) (message : Outgoing) : Server :=
  { s with received := s.received ++ [message] }

def send (s : Server) (message : Json) : Server :=
  { s with output := s.output ++ Frame.bytes message }

/-- The server reads and writes no more. -/
def hangUp (s : Server) : Server :=
  { s with closed := true }

/-- Answers a request. -/
def answer (s : Server) (id : Json) (message : Outgoing) : Server :=
  if s.patience = some s.served then s.hangUp
  else
    let s := { s with served := s.served + 1 }.log message
    match s.index message with
    | .answer (.ok v) => s.send (Message.response id (.ok v))
    | .answer (.error (.server code text)) => s.send (Message.response id (.error (code, text)))
    | .answer (.error _) => s.hangUp
    | .silence => { s with stuck := true }

/-- Takes a message. -/
def take (s : Server) (message : Json) : Server :=
  let method := ((message.get? "method").bind Json.string?).getD ""
  let params := (message.get? "params").getD .null
  match message.get? "id" with
  | some id => s.answer id (.request method params)
  | none => s.log (.notification method params)

/-- Takes the messages that have arrived. -/
def run (s : Server) : Nat → Server
  | 0 => s
  | fuel + 1 =>
    if s.closed || s.stuck then s
    else
      match Frame.read .unknown s.input with
      | .message message rest => ({ s with input := rest }.take message).run fuel
      | .pending => s
      | _ => s.hangUp

/-- The server after it has received bytes. Each message it takes is at least one byte of them. -/
def receive (s : Server) (bytes : List UInt8) : Server :=
  let s := { s with input := s.input ++ bytes }
  s.run (s.input.length + 1)

end Server

end IndexFs

import IndexFs.Channel.Session
import IndexFs.Server

/-!
# Links

The way from the file system to the index: at hand, so that it answers at once, or behind a connection
to a server. Either way a call gets its result some time after it was made, or never.
-/

namespace IndexFs

inductive Link (Call : Type) where
  /-- The index itself, with the messages it has received and the results that wait to be collected. -/
  | direct (index : Index) (received : List Outgoing) (results : List (Call × Channel.Result))
  /-- A connection to a server. -/
  | framed (client : Channel.Session Call) (server : Server)

namespace Link

variable {Call : Type} [DecidableEq Call]

def ofIndex (index : Index) : Link Call :=
  .direct index [] []

/-- A fresh connection to a server that hangs up after so many answers. -/
def ofServer (index : Index) (patience : Option Nat) : Link Call :=
  .framed .new (.new index patience)

/-- Asks the index itself. -/
def askDirectly (index : Index) (received : List Outgoing) (results : List (Call × Channel.Result))
    (call : Call) (message : Outgoing) (read : Channel.Result → Channel.Result) : Link Call :=
  match index message with
  | .answer r => .direct index (received ++ [message]) (results ++ [(call, read r)])
  | .silence => .direct index (received ++ [message]) results

/-- Makes a request. -/
def request (l : Link Call) (call : Call) (method : String) (params : Json) : Link Call :=
  match l with
  | .direct index received results =>
    askDirectly index received results call (.request method params) id
  | .framed client server => .framed (client.request call method params) server

/-- Makes a notification. Its result says no more than that it was sent. -/
def notify (l : Link Call) (call : Call) (method : String) (params : Json) : Link Call :=
  match l with
  | .direct index received results =>
    askDirectly index received results call (.notification method params)
      fun r => r.map fun _ => .null
  | .framed client server => .framed (client.notify call method params) server

/-- Forgets a call. -/
def cancel (l : Link Call) (call : Call) : Link Call :=
  match l with
  | .direct index received results =>
    .direct index received (results.filter fun r => r.1 ≠ call)
  | .framed client server => .framed (client.cancel call) server

/-- Carries what each side has written to the other one: first to the server, and then its answers
back. -/
def settle : Link Call → Link Call
  | .direct index received results => .direct index received results
  | .framed client server =>
    let client := client.settle
    let server := server.receive client.output
    let client := { client with output := [] }.receive server.output
    let client := if server.closed then client.endInput .closed else client
    .framed client.settle { server with output := [] }

/-- Collects the results. -/
def collect : Link Call → Link Call × List (Call × Channel.Result)
  | .direct index received results => (.direct index received [], results)
  | .framed client server => (.framed { client with results := [] } server, client.results)

/-- The messages that have reached the index. -/
def received : Link Call → List Outgoing
  | .direct _ received _ => received
  | .framed _ server => server.received

end Link

end IndexFs

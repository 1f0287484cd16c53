import IndexFs.Channel.Error
import IndexFs.Json.Basic

/-!
# Messages

What the two ends of a channel say to each other: requests with an id, responses with the id of their
request, and notifications. `Incoming.of` says what a received value is, and every value is something.
-/

namespace IndexFs

namespace Message

/-- A request, to be answered under its id. -/
def request (id : Nat) (method : String) (params : Json) : Json :=
  .ofMembers
    [ ("jsonrpc", .string "2.0"), ("id", .ofNat id), ("method", .string method),
      ("params", params) ]

/-- A message that wants no answer. -/
def notification (method : String) (params : Json) : Json :=
  .ofMembers [("jsonrpc", .string "2.0"), ("method", .string method), ("params", params)]

/-- The code for a method that is not known. -/
def methodNotFound : Int := -32601

/-- The answer to a request of the other end: it has no methods here. -/
def rejection (id : Json) (method : String) : Json :=
  .ofMembers
    [ ("jsonrpc", .string "2.0"), ("id", id),
      ("error", .ofMembers
        [("code", .ofInt methodNotFound), ("message", .string ("Method not found: " ++ method))]) ]

/-- A response with a result, or with the code and the text of an error. -/
def response (id : Json) (outcome : Except (Int × String) Json) : Json :=
  .ofMembers
    [ ("jsonrpc", .string "2.0"), ("id", id),
      match outcome with
      | .ok v => ("result", v)
      | .error (code, text) =>
        ("error", .ofMembers [("code", .ofInt code), ("message", .string text)]) ]

/-- What a response says. An error counts even next to a result, its code is 0 and its text empty where
they are missing, and a missing result is `null`. -/
def outcome (message : Json) : Except ChannelError Json :=
  match message.get? "error" with
  | some e =>
    .error (.server (((e.get? "code").bind Json.signed?).getD 0)
      (((e.get? "message").bind Json.string?).getD ""))
  | none => .ok ((message.get? "result").getD .null)

end Message

/-- What a received value is. -/
inductive Incoming where
  /-- The outcome of the request with this id. -/
  | response (id : Int) (outcome : Except ChannelError Json)
  /-- A request, with an id of any shape. -/
  | request (id : Json) (method : String)
  /-- Nothing that is acted upon: a notification, or a value that is no message. -/
  | other

/-- A text under `method` makes a request or a notification, and only without it a value is a
response. -/
def Incoming.of (message : Json) : Incoming :=
  match (message.get? "method").bind Json.string?, message.get? "id" with
  | some method, some id => .request id method
  | none, some id =>
    match id.signed? with
    | some n => .response n (Message.outcome message)
    | none => .other
  | _, none => .other

end IndexFs

import IndexFs.Channel.Error
import IndexFs.Json.Basic

/-!
# The index

The index is asked by messages and answers them, or does not. It does not remember what it was asked
before: the reply to a message depends on the message alone.
-/

namespace IndexFs

/-- What a client says. -/
inductive Outgoing where
  | request (method : String) (params : Json)
  | notification (method : String) (params : Json)

namespace Outgoing

def method : Outgoing → String
  | .request m _ => m
  | .notification m _ => m

def params : Outgoing → Json
  | .request _ p => p
  | .notification _ p => p

end Outgoing

/-- What becomes of a message. -/
inductive Reply where
  | answer (r : Except ChannelError Json)
  /-- No answer ever comes. -/
  | silence

/-- The replies to all messages. -/
abbrev Index := Outgoing → Reply

/-- The index that answers everything with one value. -/
def Index.constant (v : Json) : Index :=
  fun _ => .answer (.ok v)

/-- The answer to a caller who gives up if there is none. -/
def Index.ask (index : Index) (message : Outgoing) : Except ChannelError Json :=
  match index message with
  | .answer r => r
  | .silence => .error .closed

end IndexFs

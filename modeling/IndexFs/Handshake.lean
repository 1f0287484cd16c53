import IndexFs.Handshake.Capabilities
import IndexFs.Index

/-!
# The handshake

Before its first question the client introduces itself with an `initialize` request, and confirms the
answer with an `initialized` notification.
-/

namespace IndexFs

/-- How the client introduces itself. -/
structure Client where
  name : String
  version : String
  processId : Nat
deriving DecidableEq, Repr

/-- What a server tells about itself. -/
structure ServerInfo where
  name : String
  version : Option String
deriving DecidableEq, Repr

/-- The answer to the introduction. -/
structure Introduction where
  capabilities : Json
  server : Option ServerInfo

namespace Handshake

/-- The version of this program. -/
def version : String := "0.1.0"

def requestMethod : String := "initialize"

def notificationMethod : String := "initialized"

/-- The parameters of the request. -/
def params (c : Client) : Json :=
  .ofMembers
    [ ("processId", .ofNat c.processId),
      ("rootUri", .null),
      ("capabilities", .object []),
      ("clientInfo", .ofMembers [("name", .string c.name), ("version", .string c.version)]) ]

/-- The parameters of the notification. -/
def notificationParams : Json :=
  .object []

end Handshake

namespace ServerInfo

def shape : Shape :=
  .plain "ServerInfo" [Shape.required "name" .string, Shape.optional "version" .string]

def ofJson (v : Json) : ServerInfo :=
  ⟨((v.get? "name").bind Json.string?).getD "", (v.get? "version").bind Json.string?⟩

end ServerInfo

namespace Introduction

def shape : Shape :=
  .plain "InitializeResult"
    [Shape.required "capabilities" .serverCapabilities, Shape.optional "serverInfo" ServerInfo.shape]

/-- The parts of a value that has the shape of an answer. -/
def ofKept (v : Json) : Introduction :=
  ⟨(v.get? "capabilities").getD (.object []), (v.get? "serverInfo").map ServerInfo.ofJson⟩

def ofJson (v : Json) : Except Json.Mismatch Introduction :=
  ofKept <$> shape.keep v

/-- The answer to the introduction, if it is one. -/
def ofReply (v : Json) : Except ChannelError Introduction :=
  (ofJson v).mapError fun m => .protocol m.message

def toJson (i : Introduction) : Json :=
  .ofMembers
    (("capabilities", i.capabilities) ::
      (match i.server with
        | none => []
        | some s =>
          [("serverInfo", .ofMembers
            (("name", .string s.name) ::
              (match s.version with
                | none => []
                | some v => [("version", .string v)])))]))

end Introduction

/-! ## The exchange -/

namespace Handshake

def request (c : Client) : Outgoing :=
  .request requestMethod (params c)

def notification : Outgoing :=
  .notification notificationMethod notificationParams

/-- What the reply to the request means: only an introduction is good enough to go on. -/
def accept (reply : Except ChannelError Json) : Except ChannelError Introduction :=
  reply.bind Introduction.ofReply

/-- The whole exchange with an index: the messages that were sent, and the introduction unless something
went wrong. -/
def exchange (index : Index) (c : Client) : List Outgoing × Except ChannelError Introduction :=
  match accept (index.ask (request c)) with
  | .error e => ([request c], .error e)
  | .ok i => ([request c, notification], (index.ask notification).map fun _ => i)

end Handshake

end IndexFs

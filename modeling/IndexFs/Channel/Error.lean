/-!
# Channel errors

Why a request or a notification failed before the index had its say, or what the index said against it.
-/

namespace IndexFs

/-- How a request or a notification on the channel can fail. -/
inductive ChannelError where
  /-- The stream failed. -/
  | io (message : String)
  /-- The connection was closed before the answer arrived. -/
  | closed
  /-- The server answered with an error. -/
  | server (code : Int) (message : String)
  /-- A frame or its content is malformed. -/
  | protocol (message : String)
deriving DecidableEq, Repr

/-- The text of the error: the kind of failure, and then what is known of it. -/
def ChannelError.message : ChannelError → String
  | .io m => "IO error: " ++ m
  | .closed => "Connection closed"
  | .server code m => s!"Server error {code}: {m}"
  | .protocol m => "Protocol error: " ++ m

end IndexFs

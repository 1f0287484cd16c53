import IndexFs.Channel.Error

/-!
# File system errors

Why an operation of the file system failed.
-/

namespace IndexFs

/-- How an operation of the file system can fail. -/
inductive FsError where
  /-- The connection could not be made. It is not tried again. -/
  | connectionUnavailable (reason : String)
  /-- One request failed on its way. -/
  | transport (e : ChannelError)
  /-- The index answered with something of another shape. -/
  | decode (reason : String)
  /-- The index has no entry at this place. -/
  | fileNotFound (uri : String)
  /-- The operation would change the file system. -/
  | readOnly (operation : String) (uri : String)
deriving DecidableEq, Repr

namespace FsError

def message : FsError → String
  | .connectionUnavailable reason => "Index server unavailable: " ++ reason
  | .transport e => "Transport error: " ++ e.message
  | .decode reason => "Decode error: " ++ reason
  | .fileNotFound uri => "File not found: " ++ uri
  | .readOnly operation uri => "Cannot " ++ operation ++ " " ++ uri ++ ": filesystem is read-only"

/-- The index has said that there is nothing at this place. -/
def isNotFound : FsError → Bool
  | .fileNotFound _ => true
  | _ => false

/-- The error behind this one. -/
def source? : FsError → Option ChannelError
  | .transport e => some e
  | _ => none

/-- The classes of system errors that file system errors fall into. -/
inductive SystemClass where
  | notConnected
  | other
  | invalidData
  | notFound
  | readOnlyFilesystem
deriving DecidableEq, Repr

/-- The class that a caller sees who knows of system errors only. -/
def systemClass : FsError → SystemClass
  | .connectionUnavailable _ => .notConnected
  | .transport _ => .other
  | .decode _ => .invalidData
  | .fileNotFound _ => .notFound
  | .readOnly _ _ => .readOnlyFilesystem

end FsError

end IndexFs

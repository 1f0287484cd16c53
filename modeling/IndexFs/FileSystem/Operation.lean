import IndexFs.Request

/-!
# Operations

What can be done with the file system. Reading asks the index one question, and its result says what
that answer means; changing is refused without asking.
-/

namespace IndexFs

/-! ## Reading -/

structure Read where
  method : Method
  url : Url
deriving DecidableEq, Repr

/-- What was read. -/
inductive Value where
  | stat (s : FileStat)
  | content (bytes : List UInt8)
  | listing (entries : List DirectoryEntry)

namespace Read

def uri (r : Read) : String :=
  r.url.toRemote

def params (r : Read) : Json :=
  Method.params r.uri

/-- What an answer means for this read. An index without an entry has no metadata and no content of it,
but its listing is empty. -/
def valueOf (r : Read) : Method.Answer → Except FsError Value
  | .stat (some s) => .ok (.stat s)
  | .content (some encoded) => .content <$> decodeContent (Utf8.ofString encoded)
  | .listing entries => .ok (.listing (entries.getD []))
  | .stat none => .error (.fileNotFound r.uri)
  | .content none => .error (.fileNotFound r.uri)

/-- What the reply of the index means for this read. -/
def result (r : Read) (reply : Except ChannelError Json) : Except FsError Value :=
  (r.method.answer reply).bind r.valueOf

/-- The result for those who take a request for metadata that fails on its way as the answer that there
is no such entry. -/
def folded (r : Read) (result : Except FsError Value) : Except FsError Value :=
  match r.method, result with
  | .statFile, .error (.transport _) => .error (.fileNotFound r.uri)
  | _, result => result

end Read

/-! ## Changing -/

inductive Change where
  | createDirectory (url : Url)
  | writeFile (url : Url) (content : List UInt8) (create overwrite : Bool)
  | delete (url : Url) (recursive : Bool)
  | rename (source target : Url) (overwrite : Bool)

namespace Change

/-- The name of the operation, as errors give it. -/
def operation : Change → String
  | .createDirectory _ => "create directory"
  | .writeFile .. => "write"
  | .delete .. => "delete"
  | .rename .. => "rename"

/-- What would be changed. -/
def url : Change → Url
  | .createDirectory u => u
  | .writeFile u .. => u
  | .delete u _ => u
  | .rename u .. => u

/-- Every change is refused. -/
def refusal (c : Change) : FsError :=
  .readOnly c.operation c.url.toRemote

end Change

/-- What a file system can do. -/
structure Capabilities where
  readOnly : Bool
  caseSensitive : Bool
deriving DecidableEq, Repr

def Capabilities.ofIndex : Capabilities :=
  ⟨true, true⟩

end IndexFs

import IndexFs.Base64
import IndexFs.Entry
import IndexFs.FileSystem.Error
import IndexFs.Url.Parser

/-!
# Requests to the index

The three questions that the index answers, each about one URL, and what their answers mean. A question
is sent as a method and parameters; the answer is a JSON value.
-/

namespace IndexFs

/-! ## URLs on the wire -/

namespace Url

/-- The URL as the index knows it. -/
def toRemote (u : Url) : String :=
  u.text

/-- Reads a URL that came from the index. -/
def ofRemote (text : String) : Except FsError Url :=
  (parse text).mapError fun e => .decode ("invalid URI '" ++ text ++ "': " ++ e.message)

/-- The URL of the entry `name` in the directory `u`. -/
def child (u : Url) (name : String) : Except FsError Url :=
  match u.child? name with
  | some v => .ok v
  | none => .error (.decode ("'" ++ u.text ++ "' cannot contain entries"))

end Url

/-- The parameters of every request. -/
structure UriParams where
  uri : String
deriving DecidableEq, Repr

namespace UriParams

def toJson (p : UriParams) : Json :=
  .object [("uri", .string p.uri)]

open Json.Decoder in
def decoder : Json.Decoder UriParams :=
  record
    { name := "UriParams"
      fields :=
        [ { names := ["uri"]
            isGiven := Option.isSome
            decoder := string.map fun s _ => some s
            default := none } ]
      empty := (none : Option String)
      finish := fun d =>
        match d with
        | none => .error (.missingField "uri")
        | some uri => .ok ⟨uri⟩ }

end UriParams

/-! ## Methods -/

inductive Method where
  | statFile
  | readFile
  | readDirectory
deriving DecidableEq, Repr

namespace Method

def name : Method → String
  | .statFile => "statFile"
  | .readFile => "readFile"
  | .readDirectory => "readDirectory"

def all : List Method :=
  [.statFile, .readFile, .readDirectory]

def ofName? (name : String) : Option Method :=
  all.find? fun m => m.name = name

/-- The answer to a request, if the value has the shape of one. `null` is the answer for what the index
does not have. -/
inductive Answer where
  | stat (s : Option FileStat)
  | content (encoded : Option String)
  | listing (entries : Option (List DirectoryEntry))

open Json.Decoder in
def answerOfJson (m : Method) (v : Json) : Except Json.Mismatch Answer :=
  match m with
  | .statFile => .stat <$> optionalOfJson FileStat.decoder.ofJson v
  | .readFile => .content <$> optionalOfJson string.ofJson v
  | .readDirectory => .listing <$> optionalOfJson (listOfJson DirectoryEntry.decoder.ofJson) v

/-- The parameters for a URL. -/
def params (uri : String) : Json :=
  (UriParams.mk uri).toJson

/-- What the answer to a request means: a channel error is passed on, and a value of another shape is
refused. -/
def answer (m : Method) (reply : Except ChannelError Json) : Except FsError Answer :=
  match reply with
  | .error e => .error (.transport e)
  | .ok v => (m.answerOfJson v).mapError fun d => .decode (m.name ++ " response: " ++ d.message)

end Method

/-- The content of a file as it travels: its bytes in Base64. -/
def decodeContent (encoded : List UInt8) : Except FsError (List UInt8) :=
  (Base64.decode encoded).mapError fun f => .decode ("invalid base64 content: " ++ f.message)

end IndexFs

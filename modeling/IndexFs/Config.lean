import IndexFs.Disk
import IndexFs.Json.Decoder
import IndexFs.Json.Printer
import IndexFs.Url.Parser

/-!
# Configuration

Where the index server is and how it is talked to, the scheme that stands for the index, and what is
logged. Every setting has a default, and each one that a file leaves out has it.
-/

namespace IndexFs

/-- How the index server is reached. -/
structure ServerConfig where
  address : String
  handshake : Bool
  clientName : String
deriving DecidableEq, Repr

namespace ServerConfig

def default : ServerConfig :=
  ⟨"127.0.0.1:5007", true, "lsif-fs"⟩

def toJson (c : ServerConfig) : Json :=
  .object
    [ ("address", .string c.address), ("handshake", .bool c.handshake),
      ("client_name", .string c.clientName) ]

/-- The settings that have been read. -/
structure Draft where
  address : Option String := none
  handshake : Option Bool := none
  clientName : Option String := none

def Draft.finish (d : Draft) : ServerConfig :=
  ⟨d.address.getD default.address, d.handshake.getD default.handshake,
    d.clientName.getD default.clientName⟩

open Json.Decoder in
def record : Record Draft ServerConfig where
  name := "ServerConfig"
  fields :=
    [ { names := ["address"]
        isGiven := fun d => d.address.isSome
        decoder := string.map fun s d => { d with address := some s }
        default := some id },
      { names := ["handshake"]
        isGiven := fun d => d.handshake.isSome
        decoder := bool.map fun b d => { d with handshake := some b }
        default := some id },
      { names := ["client_name"]
        isGiven := fun d => d.clientName.isSome
        decoder := string.map fun s d => { d with clientName := some s }
        default := some id } ]
  empty := {}
  finish := fun d => .ok d.finish

end ServerConfig

structure Config where
  server : ServerConfig
  scheme : String
  statErrorsAsNotFound : Bool
  logLevel : String
deriving DecidableEq, Repr

/-- Why a configuration cannot be used. -/
inductive ConfigError where
  | io (message : String)
  | parse (message : String)
  | serialize (message : String)
  | validation (message : String)
deriving DecidableEq, Repr

def ConfigError.message : ConfigError → String
  | .io m => "IO error: " ++ m
  | .parse m => "Parse error: " ++ m
  | .serialize m => "Serialize error: " ++ m
  | .validation m => "Validation error: " ++ m

namespace Config

def default : Config :=
  ⟨.default, "lsif", false, "info"⟩

/-- The members in the order in which they are written. -/
def toJson (c : Config) : Json :=
  .object
    [ ("server", c.server.toJson), ("scheme", .string c.scheme),
      ("stat_errors_as_not_found", .bool c.statErrorsAsNotFound),
      ("log_level", .string c.logLevel) ]

/-- The settings that have been read. -/
structure Draft where
  server : Option ServerConfig := none
  scheme : Option String := none
  statErrorsAsNotFound : Option Bool := none
  logLevel : Option String := none

def Draft.finish (d : Draft) : Config :=
  ⟨d.server.getD default.server, d.scheme.getD default.scheme,
    d.statErrorsAsNotFound.getD default.statErrorsAsNotFound, d.logLevel.getD default.logLevel⟩

open Json.Decoder in
def record : Record Draft Config where
  name := "Config"
  fields :=
    [ { names := ["server"]
        isGiven := fun d => d.server.isSome
        decoder := (Json.Decoder.record ServerConfig.record).map fun s d =>
          { d with server := some s }
        default := some id },
      { names := ["scheme"]
        isGiven := fun d => d.scheme.isSome
        decoder := string.map fun s d => { d with scheme := some s }
        default := some id },
      { names := ["stat_errors_as_not_found"]
        isGiven := fun d => d.statErrorsAsNotFound.isSome
        decoder := bool.map fun b d => { d with statErrorsAsNotFound := some b }
        default := some id },
      { names := ["log_level"]
        isGiven := fun d => d.logLevel.isSome
        decoder := string.map fun s d => { d with logLevel := some s }
        default := some id } ]
  empty := {}
  finish := fun d => .ok d.finish

def decoder : Json.Decoder Config :=
  Json.Decoder.record record

/-! ## Files -/

/-- The text of a configuration file. -/
def fileText (c : Config) : String :=
  c.toJson.lines

/-- Reads the content of a configuration file. -/
def ofFile (content : List UInt8) : Except ConfigError Config :=
  match Utf8.decode content with
  | .error _ => .error (.io "stream did not contain valid UTF-8")
  | .ok _ => (decoder.parse content).mapError fun f => .parse f.message

/-- Loads the file at a path. -/
def loadFile (disk : Disk) (path : String) : Except ConfigError Config :=
  match disk.readFile path with
  | .error e => .error (.io e.message)
  | .ok content => ofFile content

/-- Saves to the file at a path: the text that is written. -/
def saveFile (disk : Disk) (path : String) (c : Config) : Except ConfigError String :=
  match disk.checkWrite path with
  | .error e => .error (.io e.message)
  | .ok () => .ok c.fileText

/-! ## Where the file is -/

/-- What the surroundings of the program say about directories. -/
structure Surroundings where
  /-- The directory for configuration files, if one is set. -/
  configHome : Option String
  /-- The home directory, if it is set. -/
  home : Option String
  /-- The home directory of the user's account. -/
  accountHome : String

/-- A path below a directory. -/
def joinPath (directory name : String) : String :=
  if directory.endsWith "/" || directory = "" then directory ++ name else directory ++ "/" ++ name

/-- The directory for configuration files. A setting that is no absolute path does not count. -/
def Surroundings.configDirectory (s : Surroundings) : String :=
  let home := match s.home with
    | some h => if h = "" then s.accountHome else h
    | none => s.accountHome
  match s.configHome with
  | some d => if d.startsWith "/" then d else joinPath home ".config"
  | none => joinPath home ".config"

/-- Where the configuration file is if no other place is given. -/
def defaultPath (s : Surroundings) : String :=
  joinPath (joinPath s.configDirectory "lsif-fs") "config.json"

/-- Loads the file at the given path. Without one, the file at the default place is loaded if it exists,
and otherwise the defaults are taken. -/
def loadOrDefault (disk : Disk) (s : Surroundings) (path : Option String) :
    Except ConfigError Config :=
  match path with
  | some p => loadFile disk p
  | none =>
    if disk.pathExists (defaultPath s) then loadFile disk (defaultPath s) else .ok default

/-! ## Validation -/

/-- The grammar of schemes: a letter, and then letters, digits and three marks. -/
def isScheme (s : String) : Bool :=
  match s.toList with
  | [] => false
  | c :: cs => c.isAlpha && (c :: cs).all Url.isSchemeChar

/-- Whether a configuration can be used. -/
def validate (c : Config) : Except ConfigError Unit :=
  let address := c.server.address
  if (Text.trim address.toList).isEmpty then
    .error (.validation "server.address cannot be empty")
  else if !address.toList.contains ':' then
    .error (.validation ("server.address '" ++ address ++ "' must be host:port"))
  else if !isScheme c.scheme then
    .error (.validation ("'" ++ c.scheme ++ "' is not a valid URI scheme"))
  else if Text.lower c.scheme.toList = "file".toList then
    .error (.validation "scheme must differ from the local disk scheme 'file'")
  else .ok ()

end Config

end IndexFs

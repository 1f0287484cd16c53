import IndexFs.CommandLine.Run

/-!
# The program

Looks at the words, the files and the surroundings of a run, and prints what comes of it. Connections
cannot be opened from here, so each one fails as on a machine without a network.
-/

namespace IndexFs.Main

open CommandLine

/-! ## The disk -/

def isDirectory (path : String) : IO Bool := do
  ((← IO.currentDir) / path).isDir

def fileContent? (path : String) : IO (Option (List UInt8)) :=
  try return some (← IO.FS.readBinFile path).toList
  catch _ => return none

/-- What the disk holds along the names below a path. -/
def look (path : String) : List String → IO (Option Disk)
  | [] => do
    if ← isDirectory path then return some (.directory [])
    return (← fileContent? path).map .file
  | name :: names => do
    if ← isDirectory path then
      match ← look (path ++ "/" ++ name) names with
      | some entry => return some (.directory [(name, entry)])
      | none => return some (.directory [])
    return (← fileContent? path).map .file

/-- The names of a path, with those taken back that two dots follow. -/
def plainNames (path : String) : List String :=
  ((Disk.names path).foldl (fun names name =>
    if name = "" || name = "." then names
    else if name = ".." then names.drop 1
    else name :: names) []).reverse

/-- A path from the root. -/
def absolute (path : String) : IO String := do
  if path.startsWith "/" then return path
  return (← IO.currentDir).toString ++ "/" ++ path

/-- The part of the disk that a path leads through, and the path to it there. -/
def diskAlong (path : String) : IO (Disk × String) := do
  let names := plainNames (← absolute path)
  return ((← look "" names).getD (.directory []), "/" ++ "/".intercalate names)

/-! ## The run -/

def usage : String :=
  "Usage: lsif-fs [--config PATH] [--address HOST:PORT] [--no-handshake] [--log-file PATH]\n" ++
  "               (stat URI | ls URI | cat URI | tree URI [--depth N])\n"

/-- How a connection fails here. -/
def network : Network :=
  .unreachable "Network is unreachable (os error 101)"

/-- The text of a log line. -/
def lineText (l : Log.Line) : String :=
  String.ofList (List.replicate (5 - l.level.name.length) ' ') ++ l.level.name ++ " " ++ l.target ++
    ": " ++ l.message ++ "\n"

/-- Writes the log to its file, or else to the error stream. -/
def writeLog (a : Arguments) (lines : List Log.Line) : IO Unit := do
  let text := String.join (lines.map lineText)
  match a.logFile with
  | some path => IO.FS.writeFile path text
  | none => (← IO.getStderr).putStr text

def fail (r : Report) : IO UInt32 := do
  IO.eprintln ("Error: " ++ r.text)
  return 1

/-- Prints what a run leaves behind. -/
def finish (a : Arguments) (o : Outcome) : IO UInt32 := do
  writeLog a o.log
  let stdout ← IO.getStdout
  stdout.write ⟨o.output.toArray⟩
  stdout.flush
  match o.error with
  | some r => fail r
  | none => return UInt32.ofNat o.exitCode

/-- More directories than a walk passes through in any time. -/
def bound : Nat := 1000000000000

def runArguments (a : Arguments) : IO UInt32 := do
  let directories : Config.Surroundings :=
    ⟨← IO.getEnv "XDG_CONFIG_HOME", ← IO.getEnv "HOME", "/"⟩
  let (disk, path) ← diskAlong (a.config.getD (Config.defaultPath directories))
  let located := if a.config.isSome then { a with config := some path } else a
  match setup disk directories located with
  | .error e => fail e.report
  | .ok c =>
    let (logDisk, logPath) ← diskAlong (a.logFile.getD "/")
    match openLog logDisk { a with logFile := a.logFile.map fun _ => logPath } with
    | .error r => fail r
    | .ok () =>
      let world : World :=
        ⟨disk, directories, ← IO.getEnv "RUST_LOG", network, 0⟩
      match runWith c world a.command bound with
      | some o => finish a o
      | none => fail (.ofMessage "The index never answered")

def run (words : List String) : IO UInt32 := do
  match Arguments.read words with
  | .ok a => runArguments a
  | .error .versionAsked =>
    IO.print versionText
    return 0
  | .error .helpAsked =>
    IO.print usage
    return 0
  | .error e =>
    IO.eprint usage
    return UInt32.ofNat e.exitCode

end IndexFs.Main

def main (words : List String) : IO UInt32 :=
  IndexFs.Main.run words

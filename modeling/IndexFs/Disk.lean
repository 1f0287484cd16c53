/-!
# A disk

Files and directories by path, as far as configuration and log files need them: looking up a path,
reading a file, and writing one. The errors are those of the operating system.
-/

namespace IndexFs

/-- What a path leads to. -/
inductive Disk where
  | file (content : List UInt8)
  | directory (entries : List (String × Disk))

namespace Disk

inductive Error where
  | notFound
  | notDirectory
  | isDirectory
deriving DecidableEq, Repr

def Error.message : Error → String
  | .notFound => "No such file or directory (os error 2)"
  | .notDirectory => "Not a directory (os error 20)"
  | .isDirectory => "Is a directory (os error 21)"

/-- The names of a path between its slashes; an empty name is the directory itself. -/
def names (path : String) : List String :=
  let relative :=
    match path.toList with
    | '/' :: rest => rest
    | cs => cs
  (relative.splitOn '/').map String.ofList

/-- The entry of a directory with the given name. -/
def entry? (name : String) : Disk → Option Disk
  | .file _ => none
  | .directory entries => entries.lookup name

/-- Follows the names of a path; `above` holds the directories that were passed, the latest first. -/
def find (above : List Disk) (here : Disk) : List String → Except Error Disk
  | [] => .ok here
  | name :: rest =>
    match here with
    | .file _ => .error .notDirectory
    | .directory entries =>
      if name = "" || name = "." then find above here rest
      else if name = ".." then
        match above with
        | [] => find [] here rest
        | parent :: above => find above parent rest
      else
        match entries.lookup name with
        | none => .error .notFound
        | some next => find (here :: above) next rest

/-- What an absolute path leads to. -/
def lookup (root : Disk) (path : String) : Except Error Disk :=
  find [] root (names path)

def pathExists (root : Disk) (path : String) : Bool :=
  (root.lookup path).isOk

/-- The content of a file. -/
def readFile (root : Disk) (path : String) : Except Error (List UInt8) :=
  match root.lookup path with
  | .error e => .error e
  | .ok (.file content) => .ok content
  | .ok (.directory _) => .error .isDirectory

/-- The names of a path without the empty ones that slashes at its end leave. -/
def namesTrimmed (path : String) : List String :=
  ((names path).reverse.dropWhile (· = "")).reverse

/-- Whether a file can be written: there may be a file at the path, or nothing in a directory that
exists. A path that ends with a slash means a directory. -/
def checkWrite (root : Disk) (path : String) : Except Error Unit :=
  let trimmed := namesTrimmed path
  match trimmed.getLast?, find [] root trimmed.dropLast with
  | none, _ => .error .isDirectory
  | some _, .error e => .error e
  | some _, .ok (.file _) => .error .notDirectory
  | some name, .ok (.directory entries) =>
    if name = "." || name = ".." || trimmed ≠ names path then .error .isDirectory
    else
      match entries.lookup name with
      | some (.directory _) => .error .isDirectory
      | _ => .ok ()

end Disk

end IndexFs

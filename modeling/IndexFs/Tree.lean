import IndexFs.FileSystem.Operation
import IndexFs.Index
import IndexFs.Report

/-!
# Trees

A directory with everything below it, printed with one line for each entry. All entries of a directory
come first, in the order of its listing, and then each of its directories in turn, so the walk goes depth
first.

A walk is a state that asks for the listing of one directory after the other; whoever has the listings
answers. It ends when nothing is left to visit, or at the first error.
-/

namespace IndexFs

/-- A directory that is going to be visited, and how far below the root it is. -/
structure Visit where
  url : Url
  depth : Nat
deriving DecidableEq, Repr

/-- Why a walk stops before its end. -/
inductive TreeError where
  /-- A directory could not be listed. -/
  | listing (directory : Url) (e : FsError)
  /-- A directory has a name that cannot be put below it. -/
  | entry (e : FsError)
deriving DecidableEq, Repr

structure Walk where
  /-- The depth from which on nothing is listed. -/
  limit : Option Nat
  /-- What is still to be visited, the next one first. -/
  todo : List Visit
  lines : List String
  /-- The directories that were listed. -/
  requested : List Url
  error : Option TreeError

namespace Walk

/-- A walk that starts at a root. -/
def start (limit : Option Nat) (root : Url) : Walk :=
  ⟨limit, [⟨root, 0⟩], [root.text], [], none⟩

/-- The line of an entry of a directory at some depth. -/
def line (depth : Nat) (e : DirectoryEntry) : String :=
  String.ofList (List.replicate (2 * (depth + 1)) ' ') ++ e.name

/-- The lines of the entries of a directory, and its directories. The name of a directory that cannot be
put below it ends the listing after its own line. -/
def expand (directory : Visit) : List DirectoryEntry → List String × Except FsError (List Visit)
  | [] => ([], .ok [])
  | e :: es =>
    if e.kind = .directory then
      match directory.url.child e.name with
      | .error error => ([line directory.depth e], .error error)
      | .ok url =>
        let (lines, found) := expand directory es
        (line directory.depth e :: lines,
          found.map fun vs => ⟨url, directory.depth + 1⟩ :: vs)
    else
      let (lines, found) := expand directory es
      (line directory.depth e :: lines, found)

/-- Whether a directory is too deep to be listed. -/
def isBeyond (w : Walk) (v : Visit) : Bool :=
  match w.limit with
  | none => false
  | some n => n ≤ v.depth

/-- What is still to be visited, without what is too deep to be listed. -/
def rest (w : Walk) : List Visit :=
  w.todo.dropWhile w.isBeyond

/-- Whether nothing is left to do. -/
def isFinished (w : Walk) : Bool :=
  w.error.isSome || w.rest.isEmpty

/-- Goes on with the listing of a directory. -/
def resume (w : Walk) (directory : Visit) (others : List Visit)
    (listing : Except FsError (List DirectoryEntry)) : Walk :=
  let w := { w with requested := w.requested ++ [directory.url], todo := others }
  match listing with
  | .error e => { w with error := some (.listing directory.url e) }
  | .ok entries =>
    match expand directory entries with
    | (lines, .ok found) => { w with lines := w.lines ++ lines, todo := found ++ others }
    | (lines, .error e) => { w with lines := w.lines ++ lines, error := some (.entry e) }

/-- Visits the next directory, if there is one. -/
def step (list : Url → Except FsError (List DirectoryEntry)) (w : Walk) : Walk :=
  if w.error.isSome then w
  else
    match w.rest with
    | [] => w
    | directory :: others => w.resume directory others (list directory.url)

/-- Visits at most so many directories. -/
def run (list : Url → Except FsError (List DirectoryEntry)) (w : Walk) : Nat → Walk
  | 0 => w
  | fuel + 1 => if w.isFinished then w else (w.step list).run list fuel

/-- What was printed. -/
def text (w : Walk) : String :=
  String.join (w.lines.map (· ++ "\n"))

end Walk

/-- The entries of a directory, as the index lists them. -/
def Index.list (index : Index) (u : Url) : Except FsError (List DirectoryEntry) :=
  let read : Read := ⟨.readDirectory, u⟩
  match read.result (index.ask (.request read.method.name read.params)) with
  | .ok (.listing entries) => .ok entries
  | .ok _ => .ok []
  | .error e => .error e

namespace FsError

/-- The report of an error, with the error behind it as its cause. -/
def report (e : FsError) : Report :=
  ⟨e.message, e.source?.toList.map ChannelError.message⟩

end FsError

def TreeError.report : TreeError → Report
  | .listing directory e => e.report.context ("Failed to list " ++ directory.text)
  | .entry e => e.report

end IndexFs

import IndexFs.Json.Decoder
import IndexFs.Json.Printer

/-!
# Entries of the index

What the index tells about a file or a directory: its kind, its metadata, and the children of a
directory. Kinds travel as integers; symbolic links are a flag, so a number that has it is a link
whatever else it says, and every other unknown number is of unknown kind.
-/

namespace IndexFs

/-- What an entry is. -/
inductive FileKind where
  | unknown
  | file
  | directory
  | symbolicLink
deriving DecidableEq, Repr

namespace FileKind

/-- The bit that marks symbolic links. -/
def linkFlag : Nat := 64

/-- The integer that a kind travels as. -/
def code : FileKind → Nat
  | .unknown => 0
  | .file => 1
  | .directory => 2
  | .symbolicLink => linkFlag

/-- The kind behind an integer: files and directories are exact values, links are told by their flag. -/
def ofCode (n : Nat) : FileKind :=
  if n = 1 then .file
  else if n = 2 then .directory
  else if n / linkFlag % 2 = 1 then .symbolicLink
  else .unknown

def name : FileKind → String
  | .unknown => "unknown"
  | .file => "file"
  | .directory => "directory"
  | .symbolicLink => "symlink"

instance : ToString FileKind := ⟨name⟩

def toJson (k : FileKind) : Json :=
  .ofNat k.code

/-- Kinds are read from unsigned integers of 32 bits. -/
def decoder : Json.Decoder FileKind :=
  Json.Decoder.word32.map ofCode

end FileKind

/-! ## Metadata -/

/-- The metadata of an entry; times are in milliseconds since the start of 1970. -/
structure FileStat where
  kind : FileKind
  createdAt : Nat
  modifiedAt : Nat
  size : Nat
deriving DecidableEq, Repr

namespace FileStat

/-- An entry of which only the kind is known. -/
def new (kind : FileKind) : FileStat :=
  ⟨kind, 0, 0, 0⟩

/-- The members in the order in which they are written. -/
def members (s : FileStat) : List (String × Json) :=
  [("kind", s.kind.toJson), ("createdAt", .ofNat s.createdAt), ("modifiedAt", .ofNat s.modifiedAt),
    ("size", .ofNat s.size)]

def toJson (s : FileStat) : Json :=
  .ofMembers s.members

/-- The compact text, with the members in their own order. -/
def text (s : FileStat) : String :=
  (Json.object s.members).text

/-- A time as whole seconds and the nanoseconds after them. -/
def seconds (millis : Nat) : Nat × Nat :=
  (millis / 1000, millis % 1000 * 1000000)

/-- The fields that have been read. -/
structure Draft where
  kind : Option FileKind := none
  createdAt : Option Nat := none
  modifiedAt : Option Nat := none
  size : Option Nat := none

open Json.Decoder in
/-- How metadata is read: only the kind must be given. Each name has an older form as well. -/
def record : Record Draft FileStat where
  name := "FileStat"
  fields :=
    [ { names := ["kind", "type"]
        isGiven := fun d => d.kind.isSome
        decoder := FileKind.decoder.map fun k d => { d with kind := some k }
        default := none },
      { names := ["createdAt", "ctime"]
        isGiven := fun d => d.createdAt.isSome
        decoder := word64.map fun n d => { d with createdAt := some n }
        default := some id },
      { names := ["modifiedAt", "mtime"]
        isGiven := fun d => d.modifiedAt.isSome
        decoder := word64.map fun n d => { d with modifiedAt := some n }
        default := some id },
      { names := ["size"]
        isGiven := fun d => d.size.isSome
        decoder := word64.map fun n d => { d with size := some n }
        default := some id } ]
  empty := {}
  finish := fun d =>
    match d.kind with
    | none => .error (.missingField "kind")
    | some kind =>
      .ok ⟨kind, d.createdAt.getD 0, d.modifiedAt.getD 0, d.size.getD 0⟩

def decoder : Json.Decoder FileStat :=
  Json.Decoder.record record

end FileStat

/-! ## Directory entries -/

/-- One child of a directory, written as a pair of its name and its kind. -/
structure DirectoryEntry where
  name : String
  kind : FileKind
deriving DecidableEq, Repr

namespace DirectoryEntry

def toJson (e : DirectoryEntry) : Json :=
  .array [.string e.name, e.kind.toJson]

def decoder : Json.Decoder DirectoryEntry :=
  (Json.Decoder.pair Json.Decoder.string FileKind.decoder).map fun p => ⟨p.1, p.2⟩

end DirectoryEntry

/-! ## Changes -/

/-- What happened to a file. -/
inductive FileChange where
  | changed
  | created
  | deleted
deriving DecidableEq, Repr

namespace FileChange

def name : FileChange → String
  | .changed => "Changed"
  | .created => "Created"
  | .deleted => "Deleted"

def toJson (c : FileChange) : Json :=
  .string c.name

def decoder : Json.Decoder FileChange :=
  .variant ([FileChange.changed, .created, .deleted].map fun c => (c.name, c))

end FileChange

end IndexFs

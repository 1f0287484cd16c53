import IndexFs.Url.Basic

/-!
# Path segments

A path grows segment by segment. A segment of one dot is left out and a segment of two dots takes back
the one before it; as the last segment either leaves an empty one, so that the path ends with a slash.
-/

namespace IndexFs.Url

/-- The spellings of a segment of one dot. -/
def isSingleDot (segment : List Char) : Bool :=
  match Text.lower segment with
  | ['.'] => true
  | ['%', '2', 'e'] => true
  | _ => false

/-- The spellings of a segment of two dots. -/
def isDoubleDot (segment : List Char) : Bool :=
  match Text.lower segment with
  | ['.', '.'] => true
  | ['.', '%', '2', 'e'] => true
  | ['%', '2', 'e', '.'] => true
  | ['%', '2', 'e', '%', '2', 'e'] => true
  | _ => false

/-- Whether a text starts with a drive letter: a letter, a colon or a bar, and then its end or the end of
a segment. -/
def startsWithDriveLetter : List Char → Bool
  | a :: b :: rest =>
    a.isAlpha && (b = ':' || b = '|') &&
      (match rest with
        | [] => true
        | c :: _ => c = '/' || c = '\\' || c = '?' || c = '#')
  | _ => false

/-- Whether a segment is a drive letter and nothing else. -/
def isDriveLetter (segment : List Char) : Bool :=
  segment.length = 2 && startsWithDriveLetter segment

/-- Takes back the last segment, unless there is none or it is a drive. -/
def parentSegments (names : List String) : List String :=
  match names.getLast? with
  | none => names
  | some last => if startsWithDriveLetter last.toList then names else names.dropLast

/-- The segment as it is kept: below the root of a file system a drive letter has a colon. -/
def keptSegment (kind : SchemeKind) (names : List String) (segment : List Char) : String :=
  match segment with
  | a :: _ =>
    if kind = .file && names.isEmpty && isDriveLetter segment then String.ofList [a, ':']
    else String.ofList segment
  | [] => ""

/-- Adds a segment that is followed by another one. -/
def addSegment (kind : SchemeKind) (names : List String) (segment : List Char) : List String :=
  if isDoubleDot segment then parentSegments names
  else if isSingleDot segment then names
  else names ++ [keptSegment kind names segment]

/-- Adds the last segment of a path. -/
def addLastSegment (kind : SchemeKind) (names : List String) (segment : List Char) : List String :=
  if isDoubleDot segment then parentSegments names ++ [""]
  else if isSingleDot segment then names ++ [""]
  else names ++ [keptSegment kind names segment]

/-- Adds all segments of a path. -/
def addSegments (kind : SchemeKind) (names : List String) : List (List Char) → List String
  | [] => names
  | [segment] => addLastSegment kind names segment
  | segment :: rest => addSegments kind (addSegment kind names segment) rest

/-- The path of a file never starts with an empty segment that is not its only one. -/
def trimFront (kind : SchemeKind) (names : List String) : List String :=
  if kind = .file then
    match names.dropWhile (· = "") with
    | [] => [""]
    | names => names
  else names

/-- Whether a segment puts a drive directly below the root. -/
def bringsDrive (kind : SchemeKind) (names : List String) : List (List Char) → Bool
  | [] => false
  | segment :: rest =>
    (kind = .file && names.isEmpty && isDriveLetter segment) ||
      (match rest with
        | [] => false
        | _ => bringsDrive kind (addSegment kind names segment) rest)

end IndexFs.Url

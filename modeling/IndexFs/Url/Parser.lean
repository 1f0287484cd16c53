import IndexFs.Url.Segments

/-!
# Reading a URL

`Url.parse` reads an absolute URL and gives its normal form: the scheme in lower case, the host in its
normal form, no port that goes without saying, dot segments resolved, and everything encoded that may not
stand for itself.
-/

namespace IndexFs.Url

/-- Blanks and controls at the ends of the text do not belong to it, and line ends and tabs never do. -/
def clean (cs : List Char) : List Char :=
  (Text.trimBy (fun c => c.toNat ≤ 0x20) cs).filter fun c => !(c = '\t' || c = '\n' || c = '\r')

/-! ## Scheme -/

def isSchemeChar (c : Char) : Bool :=
  c.isAlphanum || c = '+' || c = '-' || c = '.'

/-- The scheme in lower case, and what follows its colon. -/
def splitScheme? (cs : List Char) : Option (List Char × List Char) :=
  match cs with
  | [] => none
  | c :: _ =>
    if c.isAlpha then
      match cs.dropWhile isSchemeChar with
      | ':' :: rest => some (Text.lower (cs.takeWhile isSchemeChar), rest)
      | _ => none
    else none

/-! ## Query and fragment -/

def isPathEnd (c : Char) : Bool :=
  c = '?' || c = '#'

/-- The query and the fragment, from the mark that starts the first of them. -/
def splitTail (special : Bool) (cs : List Char) : Option String × Option String :=
  let fragment (cs : List Char) : Option String :=
    match cs with
    | '#' :: f => some (String.ofList (encode fragmentSet f))
    | _ => none
  match cs with
  | '?' :: rest =>
    let q := rest.takeWhile (· ≠ '#')
    let set := if special then specialQuerySet else querySet
    (some (String.ofList (encode set q)), fragment (rest.dropWhile (· ≠ '#')))
  | cs => (none, fragment cs)

/-! ## Authority -/

/-- Cuts at the last `@`, if there is one. -/
def splitLastAt (cs : List Char) : Option (List Char × List Char) :=
  match cs.reverse.dropWhile (· ≠ '@') with
  | [] => none
  | _ :: before =>
    some (before.reverse, (cs.reverse.takeWhile (· ≠ '@')).reverse)

/-- The user name and the password, in their encoded forms. -/
def splitUserinfo (cs : List Char) : String × String :=
  let name := cs.takeWhile (· ≠ ':')
  let password := (cs.dropWhile (· ≠ ':')).drop 1
  (String.ofList (encode userinfoSet name), String.ofList (encode userinfoSet password))

/-- The host and what follows it: a colon ends the host unless it stands in brackets. -/
def splitHost (inBrackets : Bool) : List Char → List Char × List Char
  | [] => ([], [])
  | c :: cs =>
    if c = ':' && !inBrackets then ([], c :: cs)
    else
      let inside := if c = '[' then true else if c = ']' then false else inBrackets
      let (host, rest) := splitHost inside cs
      (c :: host, rest)

/-- The port after its colon: digits only, of at most 16 bits. A backslash ends it, and belongs to the
path together with what follows it. -/
def parsePort (cs : List Char) : Except ParseError (Option Nat × List Char) :=
  let digits := cs.takeWhile (· ≠ '\\')
  let rest := cs.dropWhile (· ≠ '\\')
  match digitsValue? 10 digits with
  | none => .error .invalidPort
  | some n =>
    if digits.isEmpty then .ok (none, rest)
    else if n < UInt16.size then .ok (some n, rest)
    else .error .invalidPort

/-- A host, a port, and the start of the path where that has no slash. -/
structure HostAndPort where
  host : List Char
  port : Option Nat
  rest : List Char

/-- The host and the port of an authority. -/
def parseHostAndPort (scheme : String) (cs : List Char) : Except ParseError HostAndPort := do
  let special := (SchemeKind.of scheme).isSpecial
  let (host, rest) := splitHost false cs
  if special && host.isEmpty then throw .emptyHost
  let host ← if special then specialHost host else plainHost host
  if host.isEmpty && !rest.isEmpty then throw .emptyHost
  let (port, rest) ← match rest with
    | ':' :: digits => parsePort digits
    | _ => pure (none, [])
  return ⟨host, if port = defaultPort? scheme then none else port, rest⟩

/-- The part between the two slashes and the path, and the start of the path where that has no slash.
Only at the end of the text may nothing follow the mark after an empty user name. -/
def parseAuthority (scheme : String) (cs : List Char) (atEnd : Bool) :
    Except ParseError (Authority × List Char) := do
  let marked := cs.contains '@'
  let (userinfo, cs) := (splitLastAt cs).getD ([], cs)
  let (username, password) := splitUserinfo userinfo
  let named := username ≠ "" || password ≠ ""
  if userinfo.isEmpty && cs.isEmpty && !atEnd && marked then throw .emptyHost
  let ⟨host, port, rest⟩ ← parseHostAndPort scheme cs
  if host.isEmpty && named then throw .emptyHost
  return (⟨username, password, String.ofList host, port⟩, rest)

/-- Whether a character ends the authority. -/
def endsAuthority (kind : SchemeKind) (c : Char) : Bool :=
  kind.isSlash c || isPathEnd c

/-! ## Path -/

/-- The encoded segments of a path, from after its first slash. -/
def rawSegments (kind : SchemeKind) (cs : List Char) : List (List Char) :=
  (splitBy kind.isSlash cs).map (encode pathSet)

/-- The path below an authority. Special schemes always have one. -/
def pathAfterHost (kind : SchemeKind) (cs : List Char) : List String :=
  match cs with
  | [] => if kind.isSpecial then [""] else []
  | c :: rest =>
    let body := if kind.isSlash c then rest else cs
    trimFront kind (addSegments kind [] (rawSegments kind body))

/-- A URL with an authority, from after its slashes. -/
def parseWithAuthority (scheme : String) (cs : List Char) : Except ParseError Url := do
  let kind := SchemeKind.of scheme
  let authorityText := cs.takeWhile (!endsAuthority kind ·)
  let rest := cs.dropWhile (!endsAuthority kind ·)
  let (authority, pathStart) ← parseAuthority scheme authorityText rest.isEmpty
  let tail := splitTail kind.isSpecial (rest.dropWhile (!isPathEnd ·))
  let path := pathAfterHost kind (pathStart ++ rest.takeWhile (!isPathEnd ·))
  return ⟨scheme, some authority, false, .segments path, tail.1, tail.2⟩

/-- Whether the text of a path would start with two slashes. -/
def startsEmpty : List String → Bool
  | "" :: _ :: _ => true
  | _ => false

/-- A URL of a scheme that is not special, from after its colon. -/
def parsePlain (scheme : String) (cs : List Char) : Except ParseError Url :=
  match cs with
  | '/' :: '/' :: rest => parseWithAuthority scheme rest
  | '/' :: rest =>
    let names := addSegments .plain [] (rawSegments .plain (rest.takeWhile (!isPathEnd ·)))
    let tail := splitTail false (rest.dropWhile (!isPathEnd ·))
    .ok ⟨scheme, none, startsEmpty names, .segments names, tail.1, tail.2⟩
  | cs =>
    let text := encode controls (cs.takeWhile (!isPathEnd ·))
    let tail := splitTail false (cs.dropWhile (!isPathEnd ·))
    .ok ⟨scheme, none, false, .verbatim (String.ofList text), tail.1, tail.2⟩

/-- The host of a file URL, none where the text between the slashes is empty or names a drive or this
machine. -/
def fileHost (cs : List Char) : Except ParseError (Option String) :=
  if cs.isEmpty then .ok none
  else do
    let host ← specialHost cs
    return if host = "localhost".toList then none else some (String.ofList host)

/-- The URL of a file with the given segments. A drive has no host. -/
def fileUrl (host : Option String) (segments : List (List Char)) (tail : List Char) : Url :=
  let host := if bringsDrive .file [] segments then none else host
  let names := trimFront .file (addSegments .file [] segments)
  let tail := splitTail true tail
  ⟨"file", some ⟨"", "", host.getD "", none⟩, false, .segments names, tail.1, tail.2⟩

/-- The URL of a file, from after the colon of its scheme. -/
def parseFile (cs : List Char) : Except ParseError Url :=
  let isSlash := SchemeKind.file.isSlash
  let fromPath (cs : List Char) (host : Option String) : Url :=
    fileUrl host (rawSegments .file (cs.takeWhile (!isPathEnd ·))) (cs.dropWhile (!isPathEnd ·))
  match cs with
  | a :: b :: rest =>
    if isSlash a && isSlash b then
      let hostText := rest.takeWhile (!endsAuthority .file ·)
      let afterHost := rest.dropWhile (!endsAuthority .file ·)
      if isDriveLetter hostText then .ok (fromPath rest none)
      else do
        match ← fileHost hostText with
        | none => return fromPath afterHost none
        | some host =>
          let path := match afterHost with
            | c :: cs => if isSlash c then cs else c :: cs
            | [] => []
          return fromPath path (some host)
    else if isSlash a then .ok (fromPath (b :: rest) none)
    else .ok (fromPath cs none)
  | [a] => .ok (fromPath (if isSlash a then [] else [a]) none)
  | [] => .ok (fromPath [] none)

/-- The URL that a text stands for. -/
def parse (text : String) : Except ParseError Url :=
  match splitScheme? (clean text.toList) with
  | none => .error .relativeWithoutBase
  | some (scheme, rest) =>
    let scheme := String.ofList scheme
    match SchemeKind.of scheme with
    | .file => parseFile rest
    | .special => parseWithAuthority scheme (rest.dropWhile SchemeKind.special.isSlash)
    | .plain => parsePlain scheme rest

/-! ## Children -/

/-- The set of characters that are encoded in a new segment. -/
def newSegmentSet (kind : SchemeKind) : EncodeSet :=
  if kind.isSpecial then specialSegmentSet else segmentSet

/-- The path without the empty segment at its end, if it is not the only one. -/
def withoutEndSlash (names : List String) : List String :=
  if 2 ≤ names.length && names.getLast? = some "" then names.dropLast else names

/-- The path with one more segment: the root has an empty segment, which the new one replaces. The names
of the current and the parent directory add nothing. -/
def pushSegment (kind : SchemeKind) (names : List String) (name : String) : List String :=
  if name = "." || name = ".." then names
  else
    let base := if names = [""] then [] else names
    let segment := name.toList.filter fun c => !(c = '\t' || c = '\n' || c = '\r')
    trimFront kind (addLastSegment kind base (encode (newSegmentSet kind) segment))

/-- The URL of the entry `name` below `u`; `none` if `u` has no hierarchy. -/
def child? (u : Url) (name : String) : Option Url :=
  match u.path with
  | .verbatim _ => none
  | .segments names =>
    some { u with
      path := .segments (pushSegment (.of u.scheme) (withoutEndSlash names) name) }

end IndexFs.Url

import IndexFs.Url.Host

/-!
# URLs

A URL in its normal form. Two URLs are the same if their texts are.
-/

namespace IndexFs.Url

/-- The path of a URL: a text that is no hierarchy, or a list of segments, each with a slash in front of
it. -/
inductive Path where
  | verbatim (text : String)
  | segments (names : List String)
deriving DecidableEq, Repr

def segmentsText (names : List String) : String :=
  String.join (names.map ("/" ++ ·))

def Path.text : Path → String
  | .verbatim text => text
  | .segments names => segmentsText names

/-- Who is asked: user name and password, empty where there is none, host and port. -/
structure Authority where
  username : String
  password : String
  host : String
  port : Option Nat
deriving DecidableEq, Repr

/-- The user name and the password, with the mark that ends them. -/
def Authority.userinfo (a : Authority) : String :=
  if a.username = "" && a.password = "" then ""
  else a.username ++ (if a.password = "" then "" else ":" ++ a.password) ++ "@"

def Authority.portText (a : Authority) : String :=
  match a.port with
  | none => ""
  | some n => ":" ++ toString n

def Authority.text (a : Authority) : String :=
  a.userinfo ++ a.host ++ a.portText

end Url

/-- A URL. Where it has no authority and its path would start with two slashes, the path stands behind
`/.`; this mark is `guarded`. -/
structure Url where
  scheme : String
  authority : Option Url.Authority
  guarded : Bool
  path : Url.Path
  query : Option String
  fragment : Option String
deriving DecidableEq, Repr

namespace Url

/-- The text of what comes before the path. -/
def head (u : Url) : String :=
  u.scheme ++ ":" ++
    (match u.authority with
      | none => ""
      | some a => "//" ++ a.text) ++
    (if u.guarded then "/." else "")

/-- The text of what comes after the path. -/
def tail (u : Url) : String :=
  (match u.query with
    | none => ""
    | some q => "?" ++ q) ++
  (match u.fragment with
    | none => ""
    | some f => "#" ++ f)

/-- The text of a URL. -/
def text (u : Url) : String :=
  u.head ++ u.path.text ++ u.tail

instance : ToString Url := ⟨text⟩

/-- Whether entries can be put below the URL. -/
def isHierarchical (u : Url) : Bool :=
  match u.path with
  | .verbatim _ => false
  | .segments _ => true

/-! ## Schemes -/

/-- The port that need not be written. -/
def defaultPort? (scheme : String) : Option Nat :=
  if scheme = "http" || scheme = "ws" then some 80
  else if scheme = "https" || scheme = "wss" then some 443
  else if scheme = "ftp" then some 21
  else none

/-- How a scheme treats hosts, slashes and paths. -/
inductive SchemeKind where
  | file
  | special
  | plain
deriving DecidableEq, Repr

def SchemeKind.of (scheme : String) : SchemeKind :=
  if scheme = "file" then .file
  else if (defaultPort? scheme).isSome then .special
  else .plain

/-- Special schemes have domains as hosts, and read a backslash as a slash. -/
def SchemeKind.isSpecial (k : SchemeKind) : Bool :=
  k ≠ .plain

/-- The characters that separate segments. -/
def SchemeKind.isSlash (k : SchemeKind) (c : Char) : Bool :=
  c = '/' || (k.isSpecial && c = '\\')

end IndexFs.Url

import IndexFs.Url.Encode
import IndexFs.Text.Blank

/-!
# Hosts

A host in brackets is an IPv6 address in every scheme. In a special scheme any other host is a domain,
in lower case and without escapes, or, if its last label is a number, an IPv4 address; in all other
schemes it is kept as it is. The parsers give the host in its normal form.
-/

namespace IndexFs.Url

/-- Why a text is no URL. -/
inductive ParseError where
  | relativeWithoutBase
  | emptyHost
  | invalidPort
  | invalidIpv6
  | invalidIpv4
  | invalidHostCharacter
  | invalidDomain
deriving DecidableEq, Repr

def ParseError.message : ParseError → String
  | .relativeWithoutBase => "relative URL without a base"
  | .emptyHost => "empty host"
  | .invalidPort => "invalid port number"
  | .invalidIpv6 => "invalid IPv6 address"
  | .invalidIpv4 => "invalid IPv4 address"
  | .invalidHostCharacter => "invalid domain character"
  | .invalidDomain => "invalid international domain name"

/-- Cuts a text at every character that satisfies `p`. -/
def splitBy (p : Char → Bool) : List Char → List (List Char)
  | [] => [[]]
  | c :: cs =>
    if p c then [] :: splitBy p cs
    else match splitBy p cs with
      | [] => [[c]]
      | part :: parts => (c :: part) :: parts

/-- The value of a text of digits in the base, if every character is one. -/
def digitsValue? (base : Nat) (cs : List Char) : Option Nat :=
  cs.foldlM (fun n c => do
    let d ← hexDigit? c
    if d < base then some (n * base + d) else none) 0

/-! ## IPv6 -/

/-- A decimal number of an IPv4 address inside an IPv6 address: no zero in front, at most 255. -/
def ipv4Part? (cs : List Char) : Option Nat := do
  let n ← digitsValue? 10 cs
  match cs with
  | [] => none
  | ['0'] => some 0
  | '0' :: _ => none
  | _ => if n ≤ 255 then some n else none

/-- The two pieces that the dotted end of an IPv6 address stands for. -/
def dottedPieces? (cs : List Char) : Option (List Nat) :=
  match (splitBy (· = '.') cs).mapM ipv4Part? with
  | some [a, b, c, d] => some [a * 256 + b, c * 256 + d]
  | _ => none

/-- A piece of one to four hexadecimal digits. -/
def hexPiece? (cs : List Char) : Option Nat :=
  if cs.isEmpty || 4 < cs.length then none else digitsValue? 16 cs

/-- Pieces between colons; where `dotted` holds the last one may be an IPv4 address. -/
def pieces? (dotted : Bool) : List (List Char) → Option (List Nat)
  | [] => some []
  | [part] =>
    if dotted && part.contains '.' then dottedPieces? part else (hexPiece? part).map ([·])
  | part :: parts => do
    let n ← hexPiece? part
    let ns ← pieces? dotted parts
    return n :: ns

/-- The pieces of one side of the double colon, which may be empty. -/
def side? (dotted : Bool) (cs : List Char) : Option (List Nat) :=
  if cs.isEmpty then some [] else pieces? dotted (splitBy (· = ':') cs)

/-- The texts before and after the first double colon. -/
def splitDouble : List Char → Option (List Char × List Char)
  | [] => none
  | ':' :: ':' :: cs => some ([], cs)
  | c :: cs => (splitDouble cs).map fun r => (c :: r.1, r.2)

/-- The eight pieces of an IPv6 address. A double colon stands for one or more pieces that are zero. -/
def ipv6Pieces? (cs : List Char) : Option (List Nat) :=
  match splitDouble cs with
  | none => do
    let ns ← side? true cs
    if ns.length = 8 then some ns else none
  | some (before, after) => do
    let xs ← side? false before
    let ys ← side? true after
    if xs.length + ys.length ≤ 7 then
      some (xs ++ List.replicate (8 - (xs.length + ys.length)) 0 ++ ys)
    else none

/-- The number of zeros at the start. -/
def leadingZeros (ns : List Nat) : Nat :=
  (ns.takeWhile (· = 0)).length

/-- Start and length of the longest run of zeros, the first one of several; `index` counts the pieces
before. -/
def longestZeros (index : Nat) (best : Nat × Nat) : List Nat → Nat × Nat
  | [] => best
  | n :: ns =>
    let run := leadingZeros (n :: ns)
    longestZeros (index + 1) (if best.2 < run then (index, run) else best) ns

def joinPieces (ns : List Nat) : List Char :=
  [':'].intercalate (ns.map (Nat.toDigits 16))

/-- The normal form of an IPv6 address: the longest run of at least two zeros becomes a double colon. -/
def ipv6Chars (ns : List Nat) : List Char :=
  let (start, length) := longestZeros 0 (0, 0) ns
  let body :=
    if length < 2 then joinPieces ns
    else joinPieces (ns.take start) ++ [':', ':'] ++ joinPieces (ns.drop (start + length))
  '[' :: body ++ [']']

/-- A host that starts with a bracket. -/
def bracketedHost (cs : List Char) : Except ParseError (List Char) :=
  if cs.getLast? = some ']' then
    match ipv6Pieces? cs.dropLast with
    | some ns => .ok (ipv6Chars ns)
    | none => .error .invalidIpv6
  else .error .invalidIpv6

/-! ## IPv4 -/

/-- A number of an IPv4 address: decimal, or hexadecimal after `0x`, or octal after a zero. -/
def ipv4Number? (cs : List Char) : Option Nat :=
  match cs with
  | [] => none
  | '0' :: 'x' :: rest => digitsValue? 16 rest
  | '0' :: 'X' :: rest => digitsValue? 16 rest
  | '0' :: c :: rest => digitsValue? 8 (c :: rest)
  | cs => digitsValue? 10 cs

/-- The labels of a domain, without an empty one at its end. -/
def labels (domain : List Char) : List (List Char) :=
  let parts := splitBy (· = '.') domain
  if parts.getLast? = some [] then parts.dropLast else parts

/-- Whether the last label of a domain is a number, so that it must be an IPv4 address. -/
def endsInNumber (domain : List Char) : Bool :=
  match (labels domain).getLast? with
  | none => false
  | some last =>
    (!last.isEmpty && last.all fun c => '0' ≤ c && c ≤ '9') || (ipv4Number? last).isSome

/-- The four bytes of `n`, with dots between them. -/
def ipv4Chars (n : Nat) : List Char :=
  ['.'].intercalate
    ([n / 0x1000000, n / 0x10000 % 0x100, n / 0x100 % 0x100, n % 0x100].map (Nat.toDigits 10))

/-- The bytes before the last number of an address, put together as its highest bytes. -/
def highBytes (index : Nat) : List Nat → Nat
  | [] => 0
  | n :: ns => n <<< (8 * (3 - index)) + highBytes (index + 1) ns

/-- An IPv4 address of one to four numbers; the last one fills all the bytes that are left. -/
def ipv4Host (domain : List Char) : Except ParseError (List Char) :=
  let parts := labels domain
  match parts.mapM ipv4Number? with
  | none => .error .invalidIpv4
  | some ns =>
    match ns.getLast? with
    | none => .error .invalidIpv4
    | some last =>
      let high := ns.dropLast
      if 4 < ns.length || high.any (255 < ·) || 1 <<< (8 * (4 - high.length)) ≤ last then
        .error .invalidIpv4
      else .ok (ipv4Chars (highBytes 0 high + last))

/-! ## Domains -/

/-- The ASCII characters that no domain has. -/
def isForbiddenInDomain (c : Char) : Bool :=
  c.toNat ≤ 0x20 || 0x7F ≤ c.toNat || c = '%' || c = '#' || c = '/' || c = ':' || c = '<' ||
    c = '>' || c = '?' || c = '@' || c = '[' || c = '\\' || c = ']' || c = '^' || c = '|'

/-- A host of a special scheme. Only domains of ASCII characters are known. -/
def specialHost (cs : List Char) : Except ParseError (List Char) :=
  match cs with
  | '[' :: rest => bracketedHost rest
  | cs =>
    match Utf8.decode (decode cs) with
    | .error _ => .error .invalidDomain
    | .ok decoded =>
      let domain := Text.lower decoded
      if domain.any isForbiddenInDomain then .error .invalidDomain
      else if domain.isEmpty then .error .emptyHost
      else if endsInNumber domain then ipv4Host domain
      else .ok domain

/-- The characters that a host of a scheme that is not special may not have. -/
def isForbiddenInHost (c : Char) : Bool :=
  c.toNat = 0 || c = '\t' || c = '\n' || c = '\r' || c = ' ' || c = '#' || c = '/' || c = ':' ||
    c = '<' || c = '>' || c = '?' || c = '@' || c = '[' || c = '\\' || c = ']' || c = '^' || c = '|'

/-- A host of a scheme that is not special: only controls and characters above ASCII are encoded. -/
def plainHost (cs : List Char) : Except ParseError (List Char) :=
  match cs with
  | '[' :: rest => bracketedHost rest
  | cs =>
    if cs.any isForbiddenInHost then .error .invalidHostCharacter
    else .ok (encode controls cs)

end IndexFs.Url

import IndexFs.Utf8

/-!
# Percent-encoding

The bytes of a character that may not stand for itself are written as `%` and two capital hexadecimal
digits. Every part of a URL has its own set of such characters; controls and all characters above ASCII
are in each of them.
-/

namespace IndexFs.Url

/-- The ASCII characters that a part of a URL encodes. -/
abbrev EncodeSet := Char → Bool

/-- Controls are encoded everywhere. -/
def controls : EncodeSet := fun c => c.toNat < 0x20 || c.toNat = 0x7F

def fragmentSet : EncodeSet := fun c =>
  controls c || c = ' ' || c = '"' || c = '<' || c = '>' || c.toNat = 0x60

def pathSet : EncodeSet := fun c =>
  fragmentSet c || c = '#' || c = '?' || c = '{' || c = '}'

/-- The set for a name that becomes one segment: the separator and the percent sign are encoded. -/
def segmentSet : EncodeSet := fun c =>
  pathSet c || c = '/' || c = '%'

/-- In special schemes the backslash is a separator as well. -/
def specialSegmentSet : EncodeSet := fun c =>
  segmentSet c || c = '\\'

def userinfoSet : EncodeSet := fun c =>
  pathSet c || c = '/' || c = ':' || c = ';' || c = '=' || c = '@' || c = '[' || c = '\\' ||
    c = ']' || c = '^' || c = '|'

def querySet : EncodeSet := fun c =>
  controls c || c = ' ' || c = '"' || c = '#' || c = '<' || c = '>'

def specialQuerySet : EncodeSet := fun c =>
  querySet c || c.toNat = 0x27

/-- A hexadecimal digit, in capitals. -/
def upperHex (n : Nat) : Char :=
  (Nat.digitChar n).toUpper

def encodeByte (b : UInt8) : List Char :=
  ['%', upperHex (b.toNat / 16), upperHex (b.toNat % 16)]

def encodeChar (set : EncodeSet) (c : Char) : List Char :=
  if c.toNat < 0x80 && !set c then [c] else (Utf8.encodeChar c).flatMap encodeByte

def encode (set : EncodeSet) (cs : List Char) : List Char :=
  cs.flatMap (encodeChar set)

/-- The value of a hexadecimal digit of either case. -/
def hexDigit? (c : Char) : Option Nat :=
  let n := c.toNat
  if 0x30 ≤ n && n ≤ 0x39 then some (n - 0x30)
  else if 0x41 ≤ n && n ≤ 0x46 then some (n - 0x37)
  else if 0x61 ≤ n && n ≤ 0x66 then some (n - 0x57)
  else none

/-- The bytes of a text in which escapes stand for bytes; a percent sign without two hexadecimal digits
stands for itself. -/
def decode : List Char → List UInt8
  | [] => []
  | '%' :: a :: b :: cs =>
    match hexDigit? a, hexDigit? b with
    | some x, some y => UInt8.ofNat (x * 16 + y) :: decode cs
    | _, _ => Utf8.encodeChar '%' ++ decode (a :: b :: cs)
  | c :: cs => Utf8.encodeChar c ++ decode cs

end IndexFs.Url

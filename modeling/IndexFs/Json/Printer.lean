import IndexFs.Json.Basic
import IndexFs.Utf8

/-!
# JSON as text

The compact text of a value, without blanks, and a text over several lines with two blanks for each
level. Quotes, backslashes and the characters below the blank are escaped; every other character
stands for itself.
-/

namespace IndexFs.Json

/-- The two last digits of the escape by number. -/
def controlEscape (n : Nat) : List Char :=
  ['\\', 'u', '0', '0', Nat.digitChar (n / 16), Nat.digitChar (n % 16)]

/-- One character of a string. -/
def escapeChar (c : Char) : List Char :=
  if c = '"' then ['\\', '"']
  else if c = '\\' then ['\\', '\\']
  else if c = '\n' then ['\\', 'n']
  else if c = '\r' then ['\\', 'r']
  else if c = '\t' then ['\\', 't']
  else if c = '\x08' then ['\\', 'b']
  else if c = '\x0C' then ['\\', 'f']
  else if c.toNat < 0x20 then controlEscape c.toNat
  else [c]

def stringChars (s : String) : List Char :=
  '"' :: s.toList.flatMap escapeChar ++ ['"']

mutual

/-- The compact text of a value. -/
def chars : Json → List Char
  | .null => ['n', 'u', 'l', 'l']
  | .bool true => ['t', 'r', 'u', 'e']
  | .bool false => ['f', 'a', 'l', 's', 'e']
  | .number n => n.chars
  | .string s => stringChars s
  | .array [] => ['[', ']']
  | .array (v :: vs) => '[' :: chars v ++ moreItems vs
  | .object [] => ['{', '}']
  | .object ((k, v) :: ms) => '{' :: stringChars k ++ ':' :: chars v ++ moreMembers ms

/-- The items after the first one, up to the end of the array. -/
def moreItems : List Json → List Char
  | [] => [']']
  | v :: vs => ',' :: chars v ++ moreItems vs

/-- The members after the first one, up to the end of the object. -/
def moreMembers : List (String × Json) → List Char
  | [] => ['}']
  | (k, v) :: ms => ',' :: stringChars k ++ ':' :: chars v ++ moreMembers ms

end

/-- The compact text of a value. -/
def text (v : Json) : String :=
  String.ofList v.chars

/-- The bytes of the compact text. -/
def bytes (v : Json) : List UInt8 :=
  Utf8.encode v.chars

/-! ## Over several lines -/

/-- A new line at the given level. -/
def newLine (level : Nat) : List Char :=
  '\n' :: List.replicate (2 * level) ' '

mutual

/-- The text of a value whose first line stands at the given level. -/
def linesAt (level : Nat) : Json → List Char
  | .array [] => ['[', ']']
  | .array (v :: vs) => '[' :: newLine (level + 1) ++ linesAt (level + 1) v ++ moreItemLines level vs
  | .object [] => ['{', '}']
  | .object ((k, v) :: ms) =>
    '{' :: newLine (level + 1) ++ stringChars k ++ ':' :: ' ' :: linesAt (level + 1) v ++
      moreMemberLines level ms
  | .null => chars .null
  | .bool b => chars (.bool b)
  | .number n => chars (.number n)
  | .string s => chars (.string s)

def moreItemLines (level : Nat) : List Json → List Char
  | [] => newLine level ++ [']']
  | v :: vs => ',' :: newLine (level + 1) ++ linesAt (level + 1) v ++ moreItemLines level vs

def moreMemberLines (level : Nat) : List (String × Json) → List Char
  | [] => newLine level ++ ['}']
  | (k, v) :: ms =>
    ',' :: newLine (level + 1) ++ stringChars k ++ ':' :: ' ' :: linesAt (level + 1) v ++
      moreMemberLines level ms

end

/-- The text of a value over several lines. -/
def lines (v : Json) : String :=
  String.ofList (linesAt 0 v)

end IndexFs.Json

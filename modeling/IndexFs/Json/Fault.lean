import IndexFs.Json.Basic
import IndexFs.Text.Quoted

/-!
# What can be wrong with a JSON text

A fault is a cause and a place. Places are counted in lines from one and in bytes within the line. A
value of the wrong kind is a mismatch; it has a place only where the value was read from a text.
-/

namespace IndexFs.Json

/-- A place in a text: the number of the line, and the number of its bytes before the place. -/
structure Pos where
  line : Nat
  column : Nat
deriving DecidableEq, Repr

namespace Pos

def start : Pos := ⟨1, 0⟩

/-- The place after one more byte. -/
def next (p : Pos) (b : UInt8) : Pos :=
  if b = 0x0A then ⟨p.line + 1, 0⟩ else ⟨p.line, p.column + 1⟩

/-- The place after the bytes. -/
def across (p : Pos) (bs : List UInt8) : Pos :=
  bs.foldl next p

end Pos

/-- The value that was found where another kind was expected. -/
inductive Found where
  | null
  | bool (b : Bool)
  | integer (n : Int)
  | float (x : Float)
  | string (s : String)
  | sequence
  | map

def Found.text : Found → String
  | .null => "null"
  | .bool b => s!"boolean `{b}`"
  | .integer n => s!"integer `{n}`"
  | .float x => "floating point `" ++ String.ofList (Decimal.floatChars x) ++ "`"
  | .string s => "string " ++ Text.quote s
  | .sequence => "sequence"
  | .map => "map"

/-- How a value is named when it is not of the expected kind. -/
def found : Json → Found
  | .null => .null
  | .bool b => .bool b
  | .number (.integer n) => .integer n
  | .number (.float x) => .float x
  | .string s => .string s
  | .array _ => .sequence
  | .object _ => .map

/-- Why a value is not one of the expected kind. -/
inductive Mismatch where
  /-- The value is of another kind. -/
  | kind (found : Found) (expected : String)
  /-- The value is of the right kind and out of range. -/
  | value (found : Found) (expected : String)
  /-- A sequence has the wrong number of items. -/
  | length (n : Nat) (expected : String)
  | missingField (name : String)
  | duplicateField (name : String)
  | unknownVariant (name : String) (known : List String)
  /-- No alternative of the named choice takes the value. -/
  | noAlternative (choice : String)

/-- The names a choice is made from. -/
def oneOf (names : List String) : String :=
  "one of " ++ ", ".intercalate (names.map fun n => "`" ++ n ++ "`")

def Mismatch.message : Mismatch → String
  | .kind found expected => "invalid type: " ++ found.text ++ ", expected " ++ expected
  | .value found expected => "invalid value: " ++ found.text ++ ", expected " ++ expected
  | .length n expected => s!"invalid length {n}, expected {expected}"
  | .missingField name => "missing field `" ++ name ++ "`"
  | .duplicateField name => "duplicate field `" ++ name ++ "`"
  | .unknownVariant name known =>
    "unknown variant `" ++ name ++ "`, expected " ++ oneOf known
  | .noAlternative choice => "data did not match any variant of untagged enum " ++ choice

/-- The causes of faults in a text. -/
inductive Cause where
  | endInList
  | endInObject
  | endInString
  | endInValue
  | colonExpected
  | listSeparatorExpected
  | objectSeparatorExpected
  | literalExpected
  | valueExpected
  | keyExpected
  | invalidEscape
  | invalidNumber
  | numberOutOfRange
  | invalidCodePoint
  | controlCharacter
  | loneSurrogate
  | unexpectedEndOfEscape
  | trailingComma
  | trailingCharacters
  | nestedTooDeep
  | mismatch (m : Mismatch)

def Cause.message : Cause → String
  | .endInList => "EOF while parsing a list"
  | .endInObject => "EOF while parsing an object"
  | .endInString => "EOF while parsing a string"
  | .endInValue => "EOF while parsing a value"
  | .colonExpected => "expected `:`"
  | .listSeparatorExpected => "expected `,` or `]`"
  | .objectSeparatorExpected => "expected `,` or `\x7d`"
  | .literalExpected => "expected ident"
  | .valueExpected => "expected value"
  | .keyExpected => "key must be a string"
  | .invalidEscape => "invalid escape"
  | .invalidNumber => "invalid number"
  | .numberOutOfRange => "number out of range"
  | .invalidCodePoint => "invalid unicode code point"
  | .controlCharacter =>
    "control character (\\u0000-\\u001F) found while parsing a string"
  | .loneSurrogate => "lone leading surrogate in hex escape"
  | .unexpectedEndOfEscape => "unexpected end of hex escape"
  | .trailingComma => "trailing comma"
  | .trailingCharacters => "trailing characters"
  | .nestedTooDeep => "recursion limit exceeded"
  | .mismatch m => m.message

/-- A cause and its place. -/
structure Fault where
  cause : Cause
  place : Pos

def Fault.message (f : Fault) : String :=
  f.cause.message ++ s!" at line {f.place.line} column {f.place.column}"

end IndexFs.Json

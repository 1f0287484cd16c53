import IndexFs.Json.Fault
import IndexFs.Utf8

/-!
# Tokens of a JSON text

`tokens` cuts a byte string into tokens with their places; it never fails, a flaw becomes the last
token. Strings and numbers carry their value, or the fault that shows when the value is asked for: a
value that nobody asks for may be out of range, or hold half of a surrogate pair.
-/

namespace IndexFs.Json

/-- What a token is. -/
inductive TokenKind where
  | openBrace
  | closeBrace
  | openBracket
  | closeBracket
  | colon
  | comma
  | null
  | bool (b : Bool)
  | number (value : Except Fault Number)
  | string (value : Except Fault String)
  /-- No token: the fault when a value is wanted, and the fault when the value is passed over. -/
  | broken (wanted skipped : Fault) (isString : Bool)
  /-- The end of the text. -/
  | finish

/-- A token, the place of its first byte and the place after its last one. -/
structure Token where
  kind : TokenKind
  start : Pos
  stop : Pos

/-- The place that a fault has when the token is looked at and not taken. -/
def Token.peek (t : Token) : Pos :=
  match t.kind with
  | .finish => t.start
  | _ => ⟨t.start.line, t.start.column + 1⟩

/-! ## Strings -/

/-- The value of a hexadecimal digit. -/
def hexDigit? (b : UInt8) : Option Nat :=
  let n := b.toNat
  if 0x30 ≤ n && n ≤ 0x39 then some (n - 0x30)
  else if 0x41 ≤ n && n ≤ 0x46 then some (n - 0x37)
  else if 0x61 ≤ n && n ≤ 0x66 then some (n - 0x57)
  else none

def hexValue? (a b c d : UInt8) : Option Nat := do
  let a ← hexDigit? a
  let b ← hexDigit? b
  let c ← hexDigit? c
  let d ← hexDigit? d
  return ((a * 16 + b) * 16 + c) * 16 + d

/-- Reads the four digits of an escape by number, `k` bytes into the string. -/
def escapeDigits (k : Nat) : List UInt8 → Except (Cause × Nat) (Nat × Nat × List UInt8)
  | a :: b :: c :: d :: rest =>
    match hexValue? a b c d with
    | some n => .ok (n, k + 4, rest)
    | none => .error (.invalidEscape, k + 4)
  | rest => .error (.endInString, k + rest.length)

def isLeadSurrogate (n : Nat) : Bool :=
  0xD800 ≤ n && n ≤ 0xDBFF

def isTrailSurrogate (n : Nat) : Bool :=
  0xDC00 ≤ n && n ≤ 0xDFFF

/-- Takes one expected byte of the second half of a surrogate pair. -/
def pairByte (expected : UInt8) (k : Nat) : List UInt8 → Except (Cause × Nat) (List UInt8)
  | [] => .error (.endInString, k)
  | b :: rest => if b = expected then .ok rest else .error (.unexpectedEndOfEscape, k + 1)

/-- The character of an escape by number whose digits start `k` bytes into the string, and the number
of bytes up to its end. Characters above U+FFFF take two escapes, a lead and a trail surrogate. -/
def escapedChar (k : Nat) (bs : List UInt8) : Except (Cause × Nat) (Char × Nat) := do
  let (n, k, bs) ← escapeDigits k bs
  if isTrailSurrogate n then throw (.loneSurrogate, k)
  if !isLeadSurrogate n then return (Char.ofNat n, k)
  let bs ← pairByte 0x5C k bs
  let bs ← pairByte 0x75 (k + 1) bs
  let (m, k, _) ← escapeDigits (k + 2) bs
  if !isTrailSurrogate m then throw (.loneSurrogate, k)
  return (Char.ofNat (0x10000 + (n - 0xD800) * 0x400 + (m - 0xDC00)), k)

/-- The character that the letter after a backslash stands for. -/
def escapeLetter? (b : UInt8) : Option UInt8 :=
  if b = 0x22 || b = 0x5C || b = 0x2F then some b
  else if b = 0x62 then some 0x08
  else if b = 0x66 then some 0x0C
  else if b = 0x6E then some 0x0A
  else if b = 0x72 then some 0x0D
  else if b = 0x74 then some 0x09
  else none

/-- The bytes of a string's value, the latest first; each comes with the number of bytes of the token
up to it. -/
abbrev Content := List (UInt8 × Nat)

/-- Reads a string from after its opening quote, `k` bytes into the token: its content, and the number
of bytes of the token. The first `skip` bytes were taken already. -/
def stringContent (k skip : Nat) (content : Content) :
    List UInt8 → Except (Cause × Nat) (Content × Nat)
  | [] => .error (.endInString, k)
  | b :: bs =>
    match skip with
    | n + 1 => stringContent (k + 1) n content bs
    | 0 =>
      if b = 0x22 then .ok (content, k + 1)
      else if b = 0x5C then
        match bs with
        | [] => .error (.endInString, k + 1)
        | e :: rest =>
          match escapeLetter? e with
          | some c => stringContent (k + 1) 1 ((c, k + 1) :: content) bs
          | none =>
            if e = 0x75 then
              match escapedChar (k + 2) rest with
              | .error f => .error f
              | .ok (c, stop) =>
                let added := (Utf8.encodeChar c).map fun b => (b, k + 1)
                stringContent (k + 1) (stop - (k + 1)) (added.reverse ++ content) bs
            else .error (.invalidEscape, k + 2)
      else if b.toNat < 0x20 then .error (.controlCharacter, k + 1)
      else stringContent (k + 1) 0 ((b, k + 1) :: content) bs

/-- The number of bytes of a string whose value is not asked for, from after its opening quote. -/
def stringLength (k skip : Nat) : List UInt8 → Except (Cause × Nat) Nat
  | [] => .error (.endInString, k)
  | b :: bs =>
    match skip with
    | n + 1 => stringLength (k + 1) n bs
    | 0 =>
      if b = 0x22 then .ok (k + 1)
      else if b = 0x5C then
        match bs with
        | [] => .error (.endInString, k + 1)
        | e :: rest =>
          if (escapeLetter? e).isSome then stringLength (k + 1) 1 bs
          else if e = 0x75 then
            match escapeDigits (k + 2) rest with
            | .error f => .error f
            | .ok _ => stringLength (k + 1) 5 bs
          else .error (.invalidEscape, k + 2)
      else if b.toNat < 0x20 then .error (.controlCharacter, k)
      else stringLength (k + 1) 0 bs

/-- The text of a string's content, which must be UTF-8. -/
def contentText (content : Content) : Except (Cause × Nat) String :=
  let content := content.reverse
  match Utf8.decode (content.map (·.1)) with
  | .ok cs => .ok (String.ofList cs)
  | .error f =>
    match content[f.index]? with
    | some (_, k) => .error (.invalidCodePoint, k)
    | none => .error (.invalidCodePoint, 0)

/-- The value of a string, from after its opening quote. -/
def stringValue (bs : List UInt8) : Except (Cause × Nat) String := do
  let (content, _) ← stringContent 1 0 [] bs
  contentText content

/-! ## The cutting -/

/-- A token and the number of its bytes, before places are known: faults have the number of bytes from
the start of the token to their place. -/
inductive Lexeme where
  | mark (kind : TokenKind)
  | literal (kind : TokenKind) (length : Nat)
  | number (value : Except Nat Number) (length : Nat)
  | string (value : Except (Cause × Nat) String) (length : Nat)
  | broken (wanted skipped : Cause × Nat) (isString : Bool)

/-- Matches the rest of a literal, `k` bytes into the token. -/
def literalRest (kind : TokenKind) (k : Nat) : List UInt8 → List UInt8 → Lexeme
  | [], _ => .literal kind k
  | _ :: _, [] => .broken (.endInValue, k) (.endInValue, k) false
  | e :: es, b :: bs =>
    if b = e then literalRest kind (k + 1) es bs
    else .broken (.literalExpected, k + 1) (.literalExpected, k + 1) false

def numberLexeme (bs : List UInt8) : Lexeme :=
  match Numeral.scan bs with
  | .ok t => .number t.value t.length
  | .error (.ended, k) => .broken (.endInValue, k) (.invalidNumber, k) false
  | .error (.invalid, k) => .broken (.invalidNumber, k) (.invalidNumber, k) false

def stringLexeme (bs : List UInt8) : Lexeme :=
  match stringLength 1 0 bs with
  | .ok length => .string (stringValue bs) length
  | .error skipped =>
    match stringContent 1 0 [] bs with
    | .ok _ => .broken skipped skipped true
    | .error wanted => .broken wanted skipped true

/-- The token that starts with the byte `b`, which is not blank. -/
def lexeme (b : UInt8) (bs : List UInt8) : Lexeme :=
  if b = 0x22 then stringLexeme bs
  else if b = 0x2D || Numeral.isDigit b then numberLexeme (b :: bs)
  else if b = 0x7B then .mark .openBrace
  else if b = 0x7D then .mark .closeBrace
  else if b = 0x5B then .mark .openBracket
  else if b = 0x5D then .mark .closeBracket
  else if b = 0x3A then .mark .colon
  else if b = 0x2C then .mark .comma
  else if b = 0x6E then literalRest .null 1 [0x75, 0x6C, 0x6C] bs
  else if b = 0x74 then literalRest (.bool true) 1 [0x72, 0x75, 0x65] bs
  else if b = 0x66 then literalRest (.bool false) 1 [0x61, 0x6C, 0x73, 0x65] bs
  else .broken (.valueExpected, 1) (.valueExpected, 1) false

/-- The bytes between tokens. -/
def isSpace (b : UInt8) : Bool :=
  b = 0x20 || b = 0x09 || b = 0x0A || b = 0x0D

/-- The tokens of the bytes, which start at `p`; the first `skip` bytes were taken already. -/
def tokensFrom (p : Pos) (skip : Nat) : List UInt8 → List Token
  | [] => [⟨.finish, p, p⟩]
  | b :: bs =>
    match skip with
    | n + 1 => tokensFrom (p.next b) n bs
    | 0 =>
      if isSpace b then tokensFrom (p.next b) 0 bs
      else
        let place (k : Nat) : Pos := p.across ((b :: bs).take k)
        let fault (f : Cause × Nat) : Fault := ⟨f.1, place f.2⟩
        match lexeme b bs with
        | .mark kind => ⟨kind, p, place 1⟩ :: tokensFrom (p.next b) 0 bs
        | .literal kind n => ⟨kind, p, place n⟩ :: tokensFrom (p.next b) (n - 1) bs
        | .number value n =>
          ⟨.number (value.mapError fun k => fault (.numberOutOfRange, k)), p, place n⟩ ::
            tokensFrom (p.next b) (n - 1) bs
        | .string value n =>
          ⟨.string (value.mapError fault), p, place n⟩ :: tokensFrom (p.next b) (n - 1) bs
        | .broken wanted skipped isString =>
          [⟨.broken (fault wanted) (fault skipped) isString, p, p⟩]

/-- The tokens of a text. -/
def tokens (bytes : List UInt8) : List Token :=
  tokensFrom .start 0 bytes

end IndexFs.Json

/-!
# UTF-8

Characters as bytes and back. `encode` writes the shortest form of every character; `decode` reads a
whole byte string and, where it is not UTF-8, says which bytes are at fault: the longest start of a
well-formed character, but at least one byte.
-/

namespace IndexFs.Utf8

/-- The bytes of one character. -/
def encodeChar (c : Char) : List UInt8 :=
  let n := c.toNat
  if n < 0x80 then [UInt8.ofNat n]
  else if n < 0x800 then
    [UInt8.ofNat (0xC0 + n / 64), UInt8.ofNat (0x80 + n % 64)]
  else if n < 0x10000 then
    [UInt8.ofNat (0xE0 + n / 4096), UInt8.ofNat (0x80 + n / 64 % 64), UInt8.ofNat (0x80 + n % 64)]
  else
    [UInt8.ofNat (0xF0 + n / 262144), UInt8.ofNat (0x80 + n / 4096 % 64),
      UInt8.ofNat (0x80 + n / 64 % 64), UInt8.ofNat (0x80 + n % 64)]

/-- The bytes of a text. -/
def encode (cs : List Char) : List UInt8 :=
  cs.flatMap encodeChar

/-- The bytes of a string. -/
def ofString (s : String) : List UInt8 :=
  encode s.toList

/-- What a byte string starts with: a character and how many bytes it has after its first one, bytes
that start no character, or the start of a character that is cut off by the end. -/
inductive Lead where
  | char (c : Char) (more : Nat)
  | invalid (length : Nat)
  | incomplete
deriving DecidableEq

/-- A byte that may stand after a character's first byte. -/
def isTail (b : UInt8) : Bool :=
  0x80 ≤ b.toNat && b.toNat ≤ 0xBF

/-- The six bits that a tail byte carries. -/
def tailBits (b : UInt8) : Nat :=
  b.toNat - 0x80

/-- The least and the greatest second byte after the first byte `b` of a longer character: they rule
out overlong forms, surrogates, and numbers above the last character. -/
def secondRange (b : Nat) : Nat × Nat :=
  if b = 0xE0 then (0xA0, 0xBF)
  else if b = 0xED then (0x80, 0x9F)
  else if b = 0xF0 then (0x90, 0xBF)
  else if b = 0xF4 then (0x80, 0x8F)
  else (0x80, 0xBF)

/-- Classifies the bytes `b :: bs` by their first character. -/
def lead (b : UInt8) (bs : List UInt8) : Lead :=
  let n := b.toNat
  let range := secondRange n
  if n < 0x80 then .char (Char.ofNat n) 0
  else if n < 0xC2 || 0xF4 < n then .invalid 1
  else match bs with
    | [] => .incomplete
    | b₁ :: bs =>
      if b₁.toNat < range.1 || range.2 < b₁.toNat then .invalid 1
      else if n < 0xE0 then .char (Char.ofNat ((n - 0xC0) * 64 + tailBits b₁)) 1
      else match bs with
        | [] => .incomplete
        | b₂ :: bs =>
          if !isTail b₂ then .invalid 2
          else if n < 0xF0 then
            .char (Char.ofNat ((n - 0xE0) * 4096 + tailBits b₁ * 64 + tailBits b₂)) 2
          else match bs with
            | [] => .incomplete
            | b₃ :: _ =>
              if !isTail b₃ then .invalid 3
              else .char (Char.ofNat
                ((n - 0xF0) * 262144 + tailBits b₁ * 4096 + tailBits b₂ * 64 + tailBits b₃)) 3

/-- Why bytes are no UTF-8: `length` bytes at `index` start no character, or the text ends inside
the character that starts at `index`. -/
inductive Fault where
  | invalid (length index : Nat)
  | incomplete (index : Nat)
deriving DecidableEq, Repr

/-- The place of the first byte at fault. -/
def Fault.index : Fault → Nat
  | .invalid _ i => i
  | .incomplete i => i

def Fault.message : Fault → String
  | .invalid n i => s!"invalid utf-8 sequence of {n} bytes from index {i}"
  | .incomplete i => s!"incomplete utf-8 byte sequence from index {i}"

/-- Reads the bytes from index `i` on, `skip` of which belong to the character read last; `seen` holds
the characters so far, the latest first. -/
def decodeFrom (i : Nat) (skip : Nat) (seen : List Char) : List UInt8 → Except Fault (List Char)
  | [] => .ok seen.reverse
  | b :: bs =>
    match skip with
    | n + 1 => decodeFrom (i + 1) n seen bs
    | 0 =>
      match lead b bs with
      | .char c more => decodeFrom (i + 1) more (c :: seen) bs
      | .invalid n => .error (.invalid n i)
      | .incomplete => .error (.incomplete i)

/-- The characters that the bytes encode. -/
def decode (bytes : List UInt8) : Except Fault (List Char) :=
  decodeFrom 0 0 [] bytes

/-- The string that the bytes encode, if they are UTF-8. -/
def toString? (bytes : List UInt8) : Option String :=
  match decode bytes with
  | .ok cs => some (String.ofList cs)
  | .error _ => none

/-! ## Reading back what was written -/

theorem encodeChar_ne_nil (c : Char) : encodeChar c ≠ [] := by
  dsimp only [encodeChar]
  repeat' split
  all_goals simp

@[simp] theorem encode_nil : encode [] = [] := rfl

@[simp] theorem encode_cons (c : Char) (cs : List Char) :
    encode (c :: cs) = encodeChar c ++ encode cs := rfl

@[simp] theorem encode_append (cs ds : List Char) : encode (cs ++ ds) = encode cs ++ encode ds := by
  simp [encode]

/-- An ASCII character is its own byte. -/
theorem encodeChar_ascii {c : Char} (h : c.toNat < 0x80) : encodeChar c = [UInt8.ofNat c.toNat] := by
  simp [encodeChar, h]

end IndexFs.Utf8

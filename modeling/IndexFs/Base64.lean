import IndexFs.Utf8

/-!
# Base64

The standard alphabet with padding, and nothing else: no blanks, no missing padding, and no bits that are
left over in the last symbol. `encode` is the one text that `decode` accepts for its bytes.
-/

namespace IndexFs.Base64

/-- The symbol for six bits. -/
def symbol (n : Nat) : UInt8 :=
  if n < 26 then UInt8.ofNat (0x41 + n)
  else if n < 52 then UInt8.ofNat (0x61 + (n - 26))
  else if n < 62 then UInt8.ofNat (0x30 + (n - 52))
  else if n = 62 then 0x2B
  else 0x2F

/-- The six bits of a symbol. -/
def value? (b : UInt8) : Option Nat :=
  let n := b.toNat
  if 0x41 ≤ n && n ≤ 0x5A then some (n - 0x41)
  else if 0x61 ≤ n && n ≤ 0x7A then some (n - 0x61 + 26)
  else if 0x30 ≤ n && n ≤ 0x39 then some (n - 0x30 + 52)
  else if n = 0x2B then some 62
  else if n = 0x2F then some 63
  else none

/-- The mark that fills up the last four symbols. -/
def pad : UInt8 := 0x3D

/-- Three bytes become four symbols. -/
def encode : List UInt8 → List UInt8
  | [] => []
  | [a] => [symbol (a.toNat / 4), symbol (a.toNat % 4 * 16), pad, pad]
  | [a, b] =>
    [symbol (a.toNat / 4), symbol (a.toNat % 4 * 16 + b.toNat / 16), symbol (b.toNat % 16 * 4), pad]
  | a :: b :: c :: rest =>
    symbol (a.toNat / 4) :: symbol (a.toNat % 4 * 16 + b.toNat / 16) ::
      symbol (b.toNat % 16 * 4 + c.toNat / 64) :: symbol (c.toNat % 64) :: encode rest

/-- Why a text is not the encoding of any bytes. -/
inductive Fault where
  /-- The byte at the offset is no symbol, or a padding mark where none may stand. -/
  | invalidByte (offset : Nat) (byte : UInt8)
  /-- The last symbol holds bits that belong to no byte. -/
  | invalidLastSymbol (offset : Nat) (byte : UInt8)
  | invalidLength (length : Nat)
  | invalidPadding
deriving DecidableEq, Repr

def Fault.message : Fault → String
  | .invalidByte offset byte => s!"Invalid symbol {byte.toNat}, offset {offset}."
  | .invalidLastSymbol offset byte => s!"Invalid last symbol {byte.toNat}, offset {offset}."
  | .invalidLength length => s!"Invalid input length: {length}"
  | .invalidPadding => "Invalid padding"

/-- The three bytes of four symbols. -/
def threeBytes (a b c d : Nat) : List UInt8 :=
  [UInt8.ofNat (a * 4 + b / 16), UInt8.ofNat (b % 16 * 16 + c / 4), UInt8.ofNat (c % 4 * 64 + d)]

/-- The value of a symbol at an offset. -/
def valueAt (offset : Nat) (b : UInt8) : Except Fault Nat :=
  match value? b with
  | some n => .ok n
  | none => .error (.invalidByte offset b)

/-- The symbols and the padding of the last group, as far as they are well placed. -/
structure LastGroup where
  symbols : List (Nat × Nat × UInt8)
  pads : Nat
  firstPad : Nat

/-- Sorts the bytes of the last group, which starts at `start`: padding comes after at least two symbols,
and no symbol comes after padding. -/
def lastGroup (start : Nat) (index : Nat) (group : LastGroup) :
    List UInt8 → Except Fault LastGroup
  | [] => .ok group
  | b :: bs =>
    if b = pad then
      if index < 2 then .error (.invalidByte (start + index) b)
      else
        lastGroup start (index + 1)
          { group with
            pads := group.pads + 1
            firstPad := if group.pads = 0 then index else group.firstPad } bs
    else if 0 < group.pads then .error (.invalidByte (start + group.firstPad) pad)
    else
      match value? b with
      | none => .error (.invalidByte (start + index) b)
      | some n =>
        lastGroup start (index + 1)
          { group with symbols := group.symbols ++ [(n, start + index, b)] } bs

/-- Reads the last one to four bytes of a text, which start at `start`. -/
def decodeLast (start : Nat) (bs : List UInt8) : Except Fault (List UInt8) := do
  let group ← lastGroup start 0 ⟨[], 0, 0⟩ bs
  if !bs.isEmpty && group.symbols.length < 2 then
    throw (.invalidLength (start + group.symbols.length))
  if (group.pads + group.symbols.length) % 4 ≠ 0 then throw .invalidPadding
  match group.symbols with
  | [(a, _, _), (b, k, byte)] =>
    if b % 16 = 0 then return (threeBytes a b 0 0).take 1
    throw (.invalidLastSymbol k byte)
  | [(a, _, _), (b, _, _), (c, k, byte)] =>
    if c % 4 = 0 then return (threeBytes a b c 0).take 2
    throw (.invalidLastSymbol k byte)
  | [(a, _, _), (b, _, _), (c, _, _), (d, _, _)] => return threeBytes a b c d
  | _ => return []

/-- Reads a text in groups of four symbols; `offset` bytes came before. -/
def decodeFrom (offset : Nat) : List UInt8 → Except Fault (List UInt8)
  | a :: b :: c :: d :: e :: rest => do
    let w ← valueAt offset a
    let x ← valueAt (offset + 1) b
    let y ← valueAt (offset + 2) c
    let z ← valueAt (offset + 3) d
    let more ← decodeFrom (offset + 4) (e :: rest)
    return threeBytes w x y z ++ more
  | bs => decodeLast offset bs

/-- A text with one byte too many is refused for that byte, if it is no symbol. -/
def oddByte (bs : List UInt8) : Option Fault :=
  match bs.getLast? with
  | some b =>
    if bs.length % 4 = 1 && b ≠ pad && (value? b).isNone then
      some (.invalidByte (bs.length - 1) b)
    else none
  | none => none

/-- The bytes whose encoding the text is. -/
def decode (bs : List UInt8) : Except Fault (List UInt8) :=
  match oddByte bs with
  | some f => .error f
  | none => decodeFrom 0 bs

end IndexFs.Base64

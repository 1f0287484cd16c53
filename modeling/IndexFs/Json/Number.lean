import IndexFs.Decimal.Layout

/-!
# Numbers of JSON

A number is kept as an integer where it was written as one and fits in 64 bits, signed or unsigned;
every other number is a floating-point number. `Numeral.value` reads a numeral: it collects the digits
that fit in 64 bits, counts the others as powers of ten, and scales once at the end.
-/

namespace IndexFs

inductive Number where
  | integer (n : Int)
  | float (x : Float)

namespace Number

/-- The least integer of 64 bits with a sign. -/
def minSigned : Int := -0x8000000000000000

/-- The greatest integer of 64 bits with a sign. -/
def maxSigned : Int := 0x7FFFFFFFFFFFFFFF

/-- The greatest integer of 64 bits without a sign. -/
def maxUnsigned : Int := 0xFFFFFFFFFFFFFFFF

/-- Whether the number is an integer that is read back as an integer. -/
def IsInteger : Number → Prop
  | .integer n => minSigned ≤ n ∧ n ≤ maxUnsigned
  | .float _ => False

def integerChars (n : Int) : List Char :=
  if n < 0 then '-' :: Decimal.digitChars n.natAbs else Decimal.digitChars n.natAbs

/-- The text of a number. -/
def chars : Number → List Char
  | .integer n => integerChars n
  | .float x => Decimal.floatChars x

/-- The value as an integer of 64 bits with a sign. -/
def signed? : Number → Option Int
  | .integer n => if minSigned ≤ n ∧ n ≤ maxSigned then some n else none
  | .float _ => none

end Number

/-- The exponent part of a numeral; `start` counts the bytes of the numeral before its digits. -/
structure ExponentPart where
  negative : Bool
  digits : List Nat
  start : Nat

/-- A number as it is written: sign, digits before and after the point, exponent, and its length in
bytes. -/
structure Numeral where
  negative : Bool
  whole : List Nat
  fraction : Option (List Nat)
  exponent : Option ExponentPart
  length : Nat

namespace Numeral

/-- What is wrong with a numeral: the text ends inside it, or a byte does not fit. -/
inductive Flaw where
  | ended
  | invalid
deriving DecidableEq

/-! ## Scanning -/

def isDigit (b : UInt8) : Bool :=
  0x30 ≤ b.toNat && b.toNat ≤ 0x39

def digitValue (b : UInt8) : Nat :=
  b.toNat - 0x30

/-- The digits at the start, and what follows them. -/
def takeDigits (bs : List UInt8) : List Nat × List UInt8 :=
  ((bs.takeWhile isDigit).map digitValue, bs.dropWhile isDigit)

/-- The exponent part after its letter, `k` bytes into the numeral. -/
def scanExponent (k : Nat) (bs : List UInt8) : Except (Flaw × Nat) (ExponentPart × Nat) :=
  let (negative, k, bs) := match bs with
    | 0x2B :: bs => (false, k + 1, bs)
    | 0x2D :: bs => (true, k + 1, bs)
    | bs => (false, k, bs)
  match bs with
  | [] => .error (.ended, k)
  | b :: _ =>
    if isDigit b then
      let digits := (takeDigits bs).1
      .ok (⟨negative, digits, k⟩, k + digits.length)
    else .error (.invalid, k + 1)

/-- The optional exponent part, `k` bytes into the numeral. -/
def scanExponent? (k : Nat) (bs : List UInt8) :
    Except (Flaw × Nat) (Option ExponentPart × Nat) :=
  match bs with
  | [] => .ok (none, k)
  | b :: bs =>
    if b = 0x65 || b = 0x45 then do
      let (e, k) ← scanExponent (k + 1) bs
      return (some e, k)
    else .ok (none, k)

/-- The optional fraction, `k` bytes into the numeral, and what follows it. -/
def scanFraction? (k : Nat) (bs : List UInt8) :
    Except (Flaw × Nat) (Option (List Nat) × Nat × List UInt8) :=
  match bs with
  | [] => .ok (none, k, [])
  | b :: rest =>
    if b = 0x2E then
      match takeDigits rest with
      | ([], []) => .error (.ended, k + 1)
      | ([], _ :: _) => .error (.invalid, k + 2)
      | (ds, rest) => .ok (some ds, k + 1 + ds.length, rest)
    else .ok (none, k, bs)

/-- The digits before the point, `k` bytes into the numeral: a zero stands alone. -/
def scanWhole (k : Nat) (bs : List UInt8) : Except (Flaw × Nat) (List Nat × Nat × List UInt8) :=
  match bs with
  | [] => .error (.ended, k)
  | b :: rest =>
    if b = 0x30 then
      match rest with
      | [] => .ok ([0], k + 1, [])
      | c :: _ => if isDigit c then .error (.invalid, k + 2) else .ok ([0], k + 1, rest)
    else if isDigit b then
      let (ds, rest) := takeDigits bs
      .ok (ds, k + ds.length, rest)
    else .error (.invalid, k + 1)

/-- Reads the longest numeral at the start of the bytes. A flaw comes with the number of bytes up to
and including the one at fault. -/
def scan (bs : List UInt8) : Except (Flaw × Nat) Numeral := do
  let (negative, k, bs) := match bs with
    | 0x2D :: bs => (true, 1, bs)
    | bs => (false, 0, bs)
  let (whole, k, bs) ← scanWhole k bs
  let (fraction, k, bs) ← scanFraction? k bs
  let (exponent, k) ← scanExponent? k bs
  return ⟨negative, whole, fraction, exponent, k⟩

/-! ## The value -/

/-- Appends digits to `n` as long as the result has at most 64 bits, and counts the digits left. -/
def gather (n : Nat) : List Nat → Nat × Nat
  | [] => (n, 0)
  | d :: ds => if n * 10 + d < UInt64.size then gather (n * 10 + d) ds else (n, ds.length + 1)

/-- The value of the exponent's digits, or the index of the first one that takes it out of the 32 bits
that an exponent has. -/
def exponentValue (n : Nat) (index : Nat) : List Nat → Except Nat Nat
  | [] => .ok n
  | d :: ds =>
    if n * 10 + d ≤ 0x7FFFFFFF then exponentValue (n * 10 + d) (index + 1) ds else .error index

def powerOfTen (k : Nat) : Float :=
  Float.ofScientific 1 false k

/-- The number `x * 10 ^ e`, or nothing if that is out of range. Below the least power of ten the number is
divided in steps, until the exponent is small enough or nothing is left. -/
def scale (x : Float) (e : Int) : Nat → Option Float
  | 0 => some x
  | fuel + 1 =>
    if e.natAbs ≤ 308 then
      if 0 ≤ e then
        let y := x * powerOfTen e.natAbs
        if y.isInf then none else some y
      else some (x / powerOfTen e.natAbs)
    else if x == 0 then some x
    else if 0 ≤ e then none
    else scale (x / powerOfTen 308) (e + 308) fuel

/-- The nearest exponent of 32 bits. -/
def clampExponent (e : Int) : Int :=
  max (-0x80000000) (min 0x7FFFFFFF e)

/-- The number `± n * 10 ^ e`; out of range is reported at the end of the numeral. -/
def floatValue (t : Numeral) (n : Nat) (e : Int) : Except Nat Number :=
  match scale (UInt64.ofNat n).toFloat e 5 with
  | some x => .ok (.float (if t.negative then -x else x))
  | none => .error t.length

/-- A numeral without fraction and exponent whose digits all fit. Minus zero and integers below the
signed range are floating-point numbers. -/
def integerValue (t : Numeral) (n : Nat) : Number :=
  if !t.negative then .integer n
  else if n ≠ 0 && n ≤ 0x8000000000000000 then .integer (-n)
  else .float (-(UInt64.ofNat n).toFloat)

/-- The number that a numeral stands for, or the number of bytes after which it proves to be out of
range. -/
def value (t : Numeral) : Except Nat Number :=
  let (n, dropped) := gather 0 t.whole
  let (n, e) : Nat × Int := match t.fraction with
    | none => (n, dropped)
    | some ds =>
      let (n, left) := gather n ds
      (n, dropped - (ds.length - left : Nat))
  match t.fraction, t.exponent with
  | none, none => if dropped = 0 then .ok (t.integerValue n) else t.floatValue n e
  | some _, none => t.floatValue n e
  | _, some part =>
    match exponentValue 0 0 part.digits with
    | .ok k => t.floatValue n (clampExponent (if part.negative then e - k else e + k))
    | .error index =>
      if n ≠ 0 && !part.negative then .error (part.start + index + 1)
      else .ok (.float (if t.negative then -0.0 else 0.0))

end Numeral

end IndexFs

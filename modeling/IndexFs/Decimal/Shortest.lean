/-!
# Shortest decimals

The decimal with the fewest digits among those that a binary floating-point number is the nearest one
to, and of several such decimals the one nearest to the number. A number is given as `m * 2 ^ q`. Only
whole numbers are calculated with, so nothing is rounded on the way.
-/

namespace IndexFs.Decimal

/-- The decimal `digits * 10 ^ exponent`. -/
structure Scientific where
  digits : Nat
  exponent : Int
deriving DecidableEq, Repr

/-- A number with a place after the point: `num / den`. -/
structure Ratio where
  num : Nat
  den : Nat

/-- The number `x * 2 ^ q`. -/
def Ratio.ofBinary (x : Nat) (q : Int) : Ratio :=
  if 0 ≤ q then ⟨x <<< q.toNat, 1⟩ else ⟨x, 1 <<< (-q).toNat⟩

/-- The number `r / 10 ^ e`. -/
def Ratio.shift (r : Ratio) (e : Int) : Ratio :=
  if 0 ≤ e then ⟨r.num, r.den * Nat.pow 10 e.toNat⟩ else ⟨r.num * Nat.pow 10 (-e).toNat, r.den⟩

def Ratio.floor (r : Ratio) : Nat :=
  r.num / r.den

/-- How many times `r` below one is to be multiplied by ten to reach one, at most `fuel` times. -/
def Ratio.zerosAfterPoint (r : Ratio) : Nat → Nat
  | 0 => 0
  | fuel + 1 =>
    if r.den ≤ r.num then 0 else Ratio.zerosAfterPoint ⟨r.num * 10, r.den⟩ fuel + 1

/-- The exponent of the leading decimal digit. A positive number of 64 bits has fewer than 400 zeros
after the point. -/
def Ratio.magnitude (r : Ratio) : Int :=
  if r.den ≤ r.num then ((Nat.toDigits 10 r.floor).length : Int) - 1
  else -(r.zerosAfterPoint 400 : Int)

/-- The highest of the 53 bits of a number that is not too small for them. -/
def leadingBit : Nat :=
  0x10000000000000

/-- The numbers that are read as `m * 2 ^ q`, as multiples of `2 ^ (q - 2)`. The gap below a power of
two is half as wide as the one above it; the ends belong to the range iff `m` is even. -/
structure Range where
  low : Nat
  high : Nat
  closed : Bool

def Range.around (m : Nat) (q : Int) : Range where
  low := if m = leadingBit && -1074 < q then 4 * m - 1 else 4 * m - 2
  high := 4 * m + 2
  closed := m % 2 = 0

/-- Whether `d * 10 ^ e` lies in the range, whose unit is `2 ^ q`. -/
def Range.holds (range : Range) (q : Int) (d : Nat) (e : Int) : Bool :=
  let low := (Ratio.ofBinary range.low q).shift e
  let high := (Ratio.ofBinary range.high q).shift e
  if range.closed then low.num ≤ d * low.den && d * high.den ≤ high.num
  else low.num < d * low.den && d * high.den < high.num

/-- The decimal in the range on the grid of step `10 ^ e`, if there is one: a neighbour of the value
on that grid, and the nearer one if both are in the range. -/
def onGrid (m : Nat) (q : Int) (e : Int) : Option Nat :=
  let range := Range.around m q
  let value := (Ratio.ofBinary (4 * m) (q - 2)).shift e
  let below := value.floor
  let rest := value.num % value.den
  match range.holds (q - 2) below e, range.holds (q - 2) (below + 1) e with
  | true, true =>
    if 2 * rest < value.den then some below
    else if value.den < 2 * rest then some (below + 1)
    else some (if below % 2 = 0 then below else below + 1)
  | true, false => some below
  | false, true => some (below + 1)
  | false, false => none

/-- Tries the grids for `digits`, `digits + 1`, … leading digits. -/
def firstGrid (m : Nat) (q : Int) (magnitude : Int) (digits : Nat) : Nat → Scientific
  | 0 => ⟨0, 0⟩
  | fuel + 1 =>
    let e := magnitude - digits + 1
    match onGrid m q e with
    | some d => ⟨d, e⟩
    | none => firstGrid m q magnitude (digits + 1) fuel

/-- Moves the zeros at the end of the digits into the exponent. -/
def Scientific.strip (s : Scientific) : Nat → Scientific
  | 0 => s
  | fuel + 1 =>
    if s.digits ≠ 0 && s.digits % 10 = 0 then
      Scientific.strip ⟨s.digits / 10, s.exponent + 1⟩ fuel
    else s

/-- The shortest decimal of `m * 2 ^ q` for `m` of at most 53 bits: seventeen digits always suffice. -/
def shortest (m : Nat) (q : Int) : Scientific :=
  if m = 0 then ⟨0, 0⟩
  else (firstGrid m q (Ratio.ofBinary m q).magnitude 1 17).strip 20

end IndexFs.Decimal

import IndexFs.Decimal.Shortest

/-!
# The text of a floating-point number

Numbers of a moderate size are written with a point and at least one digit after it; all others with
an exponent that always has its sign.
-/

namespace IndexFs.Decimal

/-- The exponents of the leading digit for which a number is written without an exponent part. -/
structure Layout where
  least : Int
  greatest : Int

/-- From `0.00001` to below `10 ^ 16`. -/
def Layout.plain : Layout :=
  ⟨-5, 15⟩

def digitChars (n : Nat) : List Char :=
  Nat.toDigits 10 n

def zeros (n : Nat) : List Char :=
  List.replicate n '0'

/-- The exponent part. -/
def exponentChars (e : Int) : List Char :=
  'e' :: (if e < 0 then '-' else '+') :: digitChars e.natAbs

/-- A decimal without zeros at its end, as text. -/
def Layout.write (layout : Layout) (s : Scientific) : List Char :=
  let ds := digitChars s.digits
  let lead := s.exponent + ds.length - 1
  if lead < layout.least || layout.greatest < lead then
    match ds with
    | [] => []
    | [d] => d :: exponentChars lead
    | d :: ds => d :: '.' :: ds ++ exponentChars lead
  else if 0 ≤ s.exponent then ds ++ zeros s.exponent.toNat ++ ['.', '0']
  else if 0 ≤ lead then
    ds.take (lead.toNat + 1) ++ '.' :: ds.drop (lead.toNat + 1)
  else '0' :: '.' :: zeros (-lead - 1).toNat ++ ds

/-- A number taken apart: its sign, and `m` and `q` with the number equal to `± m * 2 ^ q`. -/
structure Parts where
  negative : Bool
  m : Nat
  q : Int

/-- Reads the sign, the exponent and the fraction off the 64 bits of a finite number. -/
def Parts.ofBits (bits : UInt64) : Parts :=
  let n := bits.toNat
  let exponent : Nat := n / leadingBit % 0x800
  let fraction := n % leadingBit
  { negative := 0x8000000000000000 ≤ n
    m := if exponent = 0 then fraction else leadingBit + fraction
    q := if exponent = 0 then -1074 else (exponent : Int) - 1075 }

/-- The text of a finite number. -/
def floatChars (x : Float) : List Char :=
  let parts := Parts.ofBits x.toBits
  let body := if parts.m = 0 then ['0', '.', '0']
    else Layout.plain.write (shortest parts.m parts.q)
  if parts.negative then '-' :: body else body

end IndexFs.Decimal

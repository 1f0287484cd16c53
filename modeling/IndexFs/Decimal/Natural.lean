/-!
# Natural numbers in decimal

Numbers of 64 bits as texts give them: digits, with an optional plus sign in front of them.
-/

namespace IndexFs.Decimal

/-- Why a text is no number. -/
inductive NaturalFlaw where
  | empty
  | notDigit
  | tooLarge
deriving DecidableEq, Repr

def NaturalFlaw.message : NaturalFlaw → String
  | .empty => "cannot parse integer from empty string"
  | .notDigit => "invalid digit found in string"
  | .tooLarge => "number too large to fit in target type"

/-- Reads digits from left to right; the first one that is none, or that makes the number too large for
64 bits, is at fault. -/
def digits (n : Nat) : List Char → Except NaturalFlaw Nat
  | [] => .ok n
  | c :: cs =>
    if '0' ≤ c && c ≤ '9' then
      let n := n * 10 + (c.toNat - 0x30)
      if n < UInt64.size then digits n cs else .error .tooLarge
    else .error .notDigit

/-- A number of 64 bits. -/
def natural (cs : List Char) : Except NaturalFlaw Nat :=
  match cs with
  | [] => .error .empty
  | ['+'] => .error .notDigit
  | '+' :: cs => digits 0 cs
  | cs => digits 0 cs

end IndexFs.Decimal

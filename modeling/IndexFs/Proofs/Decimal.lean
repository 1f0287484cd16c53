import IndexFs.Decimal.Layout
import IndexFs.Decimal.Natural
import IndexFs.Utf8
import Mathlib.Data.Nat.Digits.Defs
import Mathlib.Tactic.Common

/-!
# Digits of natural numbers

The digits of a number, the leading one first, are read back as this number, and only zero starts with a
zero. `Gives` says which texts are read as numbers, and as which ones (`natural_eq_ok_iff`).
-/

namespace IndexFs.Decimal

theorem toNat_digitChar {d : Nat} (h : d < 10) : (Nat.digitChar d).toNat = 0x30 + d := by
  have : ∀ d : Fin 10, (Nat.digitChar d).toNat = 0x30 + d := by decide
  exact this ⟨d, h⟩

theorem digitChars_small {n : Nat} (h : n < 10) : digitChars n = [Nat.digitChar n] :=
  Nat.toDigits_of_lt_base h

/-- The last digit of a number stands after the digits of its tenth. -/
theorem digitChars_step {n : Nat} (h : 10 ≤ n) :
    digitChars n = digitChars (n / 10) ++ [Nat.digitChar (n % 10)] :=
  Nat.toDigits_of_base_le (by omega) h

theorem digitChars_ne_nil (n : Nat) : digitChars n ≠ [] :=
  Nat.toDigits_ne_nil

/-- Every digit is a character between `0` and `9`. -/
theorem exists_digit_of_mem {n : Nat} {c : Char} (h : c ∈ digitChars n) :
    ∃ d < 10, c = Nat.digitChar d := by
  induction n using Nat.strongRecOn with
  | ind n ih =>
    by_cases hn : n < 10
    · rw [digitChars_small hn, List.mem_singleton] at h
      exact ⟨n, hn, h⟩
    · rw [digitChars_step (by omega), List.mem_append, List.mem_singleton] at h
      rcases h with h | h
      · exact ih (n / 10) (by omega) h
      · exact ⟨n % 10, by omega, h⟩

theorem toNat_digit_of_mem {n : Nat} {c : Char} (h : c ∈ digitChars n) :
    0x30 ≤ c.toNat ∧ c.toNat ≤ 0x39 := by
  obtain ⟨d, hd, rfl⟩ := exists_digit_of_mem h
  rw [toNat_digitChar hd]
  omega

/-- The digits of a positive number do not start with a zero. -/
theorem head_digitChars {n : Nat} (h : 0 < n) :
    ∃ d cs, 0 < d ∧ d < 10 ∧ digitChars n = Nat.digitChar d :: cs := by
  induction n using Nat.strongRecOn with
  | ind n ih =>
    by_cases hn : n < 10
    · exact ⟨n, [], h, hn, digitChars_small hn⟩
    · obtain ⟨d, cs, hd, hd', hcs⟩ := ih (n / 10) (by omega) (by omega)
      refine ⟨d, cs ++ [Nat.digitChar (n % 10)], hd, hd', ?_⟩
      rw [digitChars_step (by omega), hcs, List.cons_append]

/-! ## Reading digits -/

/-- Digits are read from left to right, the number so far being carried on. -/
theorem digits_append (n : Nat) (cs ds : List Char) :
    digits n (cs ++ ds) = (digits n cs).bind fun m => digits m ds := by
  induction cs generalizing n with
  | nil => rfl
  | cons c cs ih =>
    simp only [List.cons_append, digits]
    split_ifs
    · exact ih _
    · rfl
    · rfl

theorem isDigit_digitChar {d : Nat} (hd : d < 10) :
    ('0' ≤ Nat.digitChar d && Nat.digitChar d ≤ '9') = true := by
  have : ∀ d : Fin 10, ('0' ≤ Nat.digitChar d && Nat.digitChar d ≤ '9') = true := by decide
  exact this ⟨d, hd⟩

theorem digits_digitChar {n d : Nat} (hd : d < 10) (h : n * 10 + d < UInt64.size) :
    digits n [Nat.digitChar d] = .ok (n * 10 + d) := by
  have hc := isDigit_digitChar hd
  have hvalue : (Nat.digitChar d).toNat - 0x30 = d := by
    rw [toNat_digitChar hd]
    omega
  simp only [digits, hc, hvalue, if_true, if_pos h]

/-- The digits of a number of 64 bits are read as this number. -/
theorem digits_digitChars {n : Nat} (h : n < UInt64.size) : digits 0 (digitChars n) = .ok n := by
  induction n using Nat.strongRecOn with
  | ind n ih =>
    by_cases hn : n < 10
    · rw [digitChars_small hn, digits_digitChar hn (by omega)]
      congr 1
      omega
    · rw [digitChars_step (by omega), digits_append, ih (n / 10) (by omega) (by omega)]
      have hn' : n / 10 * 10 + n % 10 = n := by omega
      show digits (n / 10) [Nat.digitChar (n % 10)] = .ok n
      rw [digits_digitChar (by omega) (by omega), hn']

/-- The digits of a number that takes more than 64 bits are not read. -/
theorem digits_tooLarge {n : Nat} (h : UInt64.size ≤ n) : digits 0 (digitChars n) = .error .tooLarge := by
  induction n using Nat.strongRecOn with
  | ind n ih =>
    have hn : 10 ≤ n := Nat.le_trans (by decide) h
    rw [digitChars_step hn, digits_append]
    by_cases hsmall : n / 10 < UInt64.size
    · -- the last digit is the one that is too much
      have hn' : ¬n / 10 * 10 + n % 10 < UInt64.size := by omega
      have hd : n % 10 < 10 := Nat.mod_lt n (by decide)
      rw [digits_digitChars hsmall]
      show digits (n / 10) [Nat.digitChar (n % 10)] = .error .tooLarge
      simp only [digits, isDigit_digitChar hd, toNat_digitChar hd, Nat.add_sub_cancel_left, if_true,
        if_neg hn']
    · rw [ih (n / 10) (by omega) (by omega)]
      rfl

/-- Without a plus sign all characters are digits. -/
theorem natural_cons {c : Char} (hc : c ≠ '+') (cs : List Char) : natural (c :: cs) = digits 0 (c :: cs) := by
  rw [natural]
  · intro h
    cases h
  · intro h
    cases h
    exact hc rfl
  · intro cs h
    cases h
    exact hc rfl

/-- There is no sign in front of the digits of a number. -/
theorem natural_eq_digits (n : Nat) : natural (digitChars n) = digits 0 (digitChars n) := by
  cases hcs : digitChars n with
  | nil => exact absurd hcs (digitChars_ne_nil n)
  | cons c cs =>
    have hc : c ≠ '+' := by
      rintro rfl
      have := toNat_digit_of_mem (n := n) (c := '+') (by rw [hcs]; exact List.mem_cons_self)
      revert this
      decide
    exact natural_cons hc cs

/-- Numbers of 64 bits are read from their digits. -/
theorem natural_digitChars {n : Nat} (h : n < UInt64.size) : natural (digitChars n) = .ok n := by
  rw [natural_eq_digits, digits_digitChars h]

/-- Greater ones are refused. -/
theorem natural_tooLarge {n : Nat} (h : UInt64.size ≤ n) :
    natural (digitChars n) = .error .tooLarge := by
  rw [natural_eq_digits, digits_tooLarge h]

/-! ## What is read as a number -/

/-- The number that digits stand for when they go on after `n`. -/
def extend (n : Nat) (ds : List Nat) : Nat :=
  ds.foldl (fun n d => n * 10 + d) n

theorem le_extend (n : Nat) (ds : List Nat) : n ≤ extend n ds := by
  induction ds generalizing n with
  | nil => exact Nat.le_refl n
  | cons d ds ih =>
    have hle : n * 10 + d ≤ extend n (d :: ds) := ih _
    omega

/-- Digits carried on from zero are those of the number, the highest one first. -/
theorem extend_zero (ds : List Nat) : extend 0 ds = Nat.ofDigits 10 ds.reverse := by
  rw [Nat.ofDigits_eq_foldr, List.foldr_reverse]
  have hstep : (fun n d : Nat => n * 10 + d) = fun n d => (d : Nat) + 10 * n := by
    funext n d
    omega
  rw [extend, hstep]
  rfl

/-- A character between `0` and `9` is the digit that the reader takes it for. -/
theorem digitChar_of_isDigit {c : Char} (h : ('0' ≤ c && c ≤ '9') = true) :
    c.toNat - 0x30 < 10 ∧ Nat.digitChar (c.toNat - 0x30) = c := by
  rw [Bool.and_eq_true, decide_eq_true_eq, decide_eq_true_eq] at h
  have hlow : 0x30 ≤ c.toNat := h.1
  have hhigh : c.toNat ≤ 0x39 := h.2
  have hd : c.toNat - 0x30 < 10 := by omega
  refine ⟨hd, Char.toNat_inj.mp ?_⟩
  rw [toNat_digitChar hd]
  omega

theorem digits_eq_ok_iff {n m : Nat} (hn : n < UInt64.size) {cs : List Char} :
    digits n cs = .ok m ↔
      ∃ ds : List Nat, (∀ d ∈ ds, d < 10) ∧ cs = ds.map Nat.digitChar ∧ m = extend n ds ∧ m < UInt64.size := by
  constructor
  · intro h
    induction cs generalizing n with
    | nil =>
      cases h
      exact ⟨[], by simp, rfl, rfl, hn⟩
    | cons c cs ih =>
      simp only [digits] at h
      split_ifs at h with hdigit hsize
      obtain ⟨hd, hc⟩ := digitChar_of_isDigit hdigit
      obtain ⟨ds, hds, rfl, hm, hlt⟩ := ih hsize h
      refine ⟨(c.toNat - 0x30) :: ds, ?_, ?_, hm, hlt⟩
      · simpa using ⟨hd, hds⟩
      · rw [List.map_cons, hc]
  · rintro ⟨ds, hds, rfl, rfl, hlt⟩
    induction ds generalizing n with
    | nil => rfl
    | cons d ds ih =>
      have hd : d < 10 := hds d List.mem_cons_self
      -- no digit takes the number out of range, since the last one does not
      have hsize : n * 10 + d < UInt64.size := Nat.lt_of_le_of_lt (le_extend _ ds) hlt
      rw [List.map_cons, ← List.singleton_append, digits_append, digits_digitChar hd hsize]
      exact ih hsize (fun e he => hds e (List.mem_cons_of_mem d he)) hlt

/-- A text that gives a number of 64 bits: at least one digit, with an optional plus sign in front. -/
def Gives (cs : List Char) (n : Nat) : Prop :=
  n < UInt64.size ∧ ∃ ds : List Nat, ds ≠ [] ∧ (∀ d ∈ ds, d < 10) ∧ n = Nat.ofDigits 10 ds.reverse ∧
    (cs = ds.map Nat.digitChar ∨ cs = '+' :: ds.map Nat.digitChar)

theorem digitChar_ne_plus {d : Nat} (h : d < 10) : Nat.digitChar d ≠ '+' := by
  intro heq
  have := congrArg Char.toNat heq
  rw [toNat_digitChar h] at this
  have hplus : '+'.toNat = 0x2B := rfl
  omega

/-- The texts that are read as numbers. -/
theorem natural_eq_ok_iff {cs : List Char} {n : Nat} : natural cs = .ok n ↔ Gives cs n := by
  have hzero : 0 < UInt64.size := by decide
  constructor
  · intro h
    unfold natural at h
    split at h
    · cases h
    · cases h
    · next cs hcs =>
      obtain ⟨ds, hds, rfl, hn, hlt⟩ := (digits_eq_ok_iff hzero).mp h
      refine ⟨hlt, ds, ?_, hds, hn.trans (extend_zero ds), .inr rfl⟩
      rintro rfl
      exact hcs rfl
    · next hnil _ _ =>
      obtain ⟨ds, hds, rfl, hn, hlt⟩ := (digits_eq_ok_iff hzero).mp h
      refine ⟨hlt, ds, ?_, hds, hn.trans (extend_zero ds), .inl rfl⟩
      rintro rfl
      exact hnil rfl
  · rintro ⟨hlt, ds, hne, hds, hn, hcs⟩
    have hdigits : digits 0 (ds.map Nat.digitChar) = .ok n :=
      (digits_eq_ok_iff hzero).mpr ⟨ds, hds, rfl, hn.trans (extend_zero ds).symm, hlt⟩
    obtain ⟨d, ds, rfl⟩ := List.exists_cons_of_ne_nil hne
    have hd := digitChar_ne_plus (hds d List.mem_cons_self)
    rcases hcs with rfl | rfl
    · rw [← hdigits]
      exact natural_cons hd _
    · rw [← hdigits, natural]
      -- the plus sign does not stand alone
      intro h
      cases h

end IndexFs.Decimal

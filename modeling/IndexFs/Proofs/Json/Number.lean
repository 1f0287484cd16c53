import IndexFs.Json.Number
import IndexFs.Proofs.Decimal
import IndexFs.Proofs.Utf8

/-!
# Integers of JSON read back

An integer of 64 bits is read as itself wherever what follows it does not go on with the numeral.
-/

namespace IndexFs

/-- The values of the digits of a number. -/
def Decimal.digitValues (n : Nat) : List Nat :=
  (Decimal.digitChars n).map fun c => c.toNat - 0x30

namespace Numeral

open Decimal

/-- Nothing in front of these bytes is a number that goes on with them. -/
def Ends (rest : List UInt8) : Prop :=
  ∀ b ∈ rest.head?, isDigit b = false ∧ b ≠ 0x2E ∧ b ≠ 0x65 ∧ b ≠ 0x45

/-- A numeral ends at the end of the text. -/
theorem ends_nil : Ends [] := by
  intro b h
  cases h

/-- Digits are in ASCII. -/
theorem encode_digitChars (n : Nat) :
    Utf8.encode (digitChars n) = (digitChars n).map fun c => UInt8.ofNat c.toNat := by
  apply Utf8.encode_ascii
  intro c hc
  have := toNat_digit_of_mem hc
  omega

/-- The byte of a digit stands for the value of the digit. -/
theorem isDigit_byte {n : Nat} {c : Char} (h : c ∈ digitChars n) :
    isDigit (UInt8.ofNat c.toNat) = true ∧ digitValue (UInt8.ofNat c.toNat) = c.toNat - 0x30 := by
  have hc := toNat_digit_of_mem h
  have hb := Utf8.toNat_byte (n := c.toNat) (by omega)
  constructor
  · simp only [isDigit, hb, Bool.and_eq_true, decide_eq_true_eq]
    exact hc
  · rw [digitValue, hb]

/-- Digits are taken up to where the numeral ends. -/
theorem takeDigits_digitChars {rest : List UInt8} (h : Ends rest) (n : Nat) :
    takeDigits (Utf8.encode (digitChars n) ++ rest) = (digitValues n, rest) := by
  have hall : ∀ b ∈ Utf8.encode (digitChars n), isDigit b = true := by
    intro b hb
    rw [encode_digitChars, List.mem_map] at hb
    obtain ⟨c, hc, rfl⟩ := hb
    exact (isDigit_byte hc).1
  have hrest : rest.takeWhile isDigit = [] ∧ rest.dropWhile isDigit = rest := by
    cases rest with
    | nil => exact ⟨rfl, rfl⟩
    | cons b bs =>
      have hb := (h b rfl).1
      exact ⟨by simp [hb], by simp [hb]⟩
  rw [takeDigits, List.takeWhile_append_of_pos hall, List.dropWhile_append_of_pos hall, hrest.1,
    hrest.2, List.append_nil, encode_digitChars, List.map_map, digitValues]
  congr 1
  apply List.map_congr_left
  intro c hc
  exact (isDigit_byte hc).2

/-- The digits of a number are a whole part, since they do not start with a zero. -/
theorem scanWhole_digitChars {rest : List UInt8} (h : Ends rest) (n k : Nat) :
    scanWhole k (Utf8.encode (digitChars n) ++ rest) =
      .ok (digitValues n, k + (digitValues n).length, rest) := by
  have htake := takeDigits_digitChars h n
  by_cases hn : n = 0
  · subst hn
    have hzero : Utf8.encode (digitChars 0) = [0x30] := rfl
    rw [hzero, List.singleton_append]
    -- a single zero, with no digit behind it
    cases rest with
    | nil => rfl
    | cons b bs =>
      have hb := (h b rfl).1
      simp only [scanWhole, hb, Bool.false_eq_true, if_false, if_true]
      rfl
  · -- the first digit is no zero, so that all digits are taken
    obtain ⟨d, cs, hd, hd', hcs⟩ := head_digitChars (Nat.pos_of_ne_zero hn)
    have hbyte : Utf8.encode (digitChars n) =
        UInt8.ofNat (Nat.digitChar d).toNat :: Utf8.encode cs := by
      rw [hcs, Utf8.encode_cons, Utf8.encodeChar_ascii (by rw [toNat_digitChar hd']; omega)]
      rfl
    have hne : UInt8.ofNat (Nat.digitChar d).toNat ≠ 0x30 := by
      intro heq
      have := congrArg UInt8.toNat heq
      rw [toNat_digitChar hd', Utf8.toNat_byte (by omega)] at this
      simp at this
      omega
    have hdigit := (isDigit_byte (n := n) (c := Nat.digitChar d)
      (by rw [hcs]; exact List.mem_cons_self)).1
    rw [hbyte, List.cons_append] at htake ⊢
    simp only [scanWhole, if_neg hne, if_pos hdigit, htake]

/-- A numeral that ends has no fraction. -/
theorem scanFraction?_ends {rest : List UInt8} (h : Ends rest) (k : Nat) :
    scanFraction? k rest = .ok (none, k, rest) := by
  cases rest with
  | nil => rfl
  | cons b bs => rw [scanFraction?, if_neg (h b rfl).2.1]

/-- A numeral that ends has no exponent. -/
theorem scanExponent?_ends {rest : List UInt8} (h : Ends rest) (k : Nat) :
    scanExponent? k rest = .ok (none, k) := by
  cases rest with
  | nil => rfl
  | cons b bs =>
    have hb := (h b rfl).2.2
    rw [scanExponent?, if_neg (by simp [hb])]

/-- The numeral of an integer. -/
def ofInteger (n : Int) : Numeral where
  negative := n < 0
  whole := digitValues n.natAbs
  fraction := none
  exponent := none
  length := (if n < 0 then 1 else 0) + (digitValues n.natAbs).length

/-- The numeral of an integer is as long as its text. -/
theorem length_ofInteger (n : Int) :
    (ofInteger n).length = (Utf8.encode (Number.integerChars n)).length := by
  have hdigits : (digitValues n.natAbs).length = (Utf8.encode (digitChars n.natAbs)).length := by
    rw [encode_digitChars, digitValues, List.length_map, List.length_map]
  unfold ofInteger Number.integerChars
  split_ifs with hn
  · rw [Utf8.encode_cons, Utf8.encodeChar_ascii (by decide), List.length_append, hdigits]
    rfl
  · rw [hdigits, Nat.zero_add]

/-- The text of an integer is scanned to its end. -/
theorem scan_integerChars {rest : List UInt8} (h : Ends rest) (n : Int) :
    scan (Utf8.encode (Number.integerChars n) ++ rest) = .ok (ofInteger n) := by
  unfold Number.integerChars
  by_cases hn : n < 0
  · rw [if_pos hn, Utf8.encode_cons, Utf8.encodeChar_ascii (by decide), List.append_assoc,
      List.singleton_append]
    have hminus : UInt8.ofNat ('-' : Char).toNat = 0x2D := rfl
    simp only [scan, hminus, scanWhole_digitChars h, bind, Except.bind, scanFraction?_ends h,
      scanExponent?_ends h, pure, Except.pure, ofInteger, if_pos hn, decide_eq_true hn]
  · rw [if_neg hn]
    -- without a sign, the numeral starts with a digit, which is no minus
    obtain ⟨b, bs, hb, hbs⟩ : ∃ b bs, b ≠ 0x2D ∧
        Utf8.encode (digitChars n.natAbs) ++ rest = b :: bs := by
      cases hcs : digitChars n.natAbs with
      | nil => exact absurd hcs (digitChars_ne_nil _)
      | cons c cs =>
        have hc := toNat_digit_of_mem (n := n.natAbs) (c := c) (by rw [hcs]; exact List.mem_cons_self)
        refine ⟨UInt8.ofNat c.toNat, Utf8.encode cs ++ rest, ?_, ?_⟩
        · intro heq
          have := congrArg UInt8.toNat heq
          rw [Utf8.toNat_byte (by omega)] at this
          simp at this
          omega
        · rw [Utf8.encode_cons, Utf8.encodeChar_ascii (by omega)]
          rfl
    have hwhole := scanWhole_digitChars h n.natAbs 0
    rw [hbs] at hwhole ⊢
    unfold scan
    split
    next negative k bs' hsplit =>
      split at hsplit
      next hcons =>
        cases hcons
        exact absurd rfl hb
      next =>
        cases hsplit
        simp only [hwhole, bind, Except.bind, scanFraction?_ends h, scanExponent?_ends h, pure,
          Except.pure, ofInteger, if_neg hn, decide_eq_false hn]

/-! ## The value -/

/-- Digits are gathered one after the other as long as they fit. -/
theorem gather_append {n m : Nat} {ds : List Nat} (h : gather n ds = (m, 0)) (es : List Nat) :
    gather n (ds ++ es) = gather m es := by
  induction ds generalizing n with
  | nil =>
    cases h
    rfl
  | cons d ds ih =>
    rw [gather] at h
    split_ifs at h with hd
    · rw [List.cons_append, gather, if_pos hd]
      exact ih h
    · cases h

/-- The digits of a number of 64 bits are gathered as the number. -/
theorem gather_digitValues {n : Nat} (h : n < UInt64.size) : gather 0 (digitValues n) = (n, 0) := by
  induction n using Nat.strongRecOn with
  | ind n ih =>
    by_cases hn : n < 10
    · have hd : (Nat.digitChar n).toNat - 0x30 = n := by
        rw [toNat_digitChar hn]
        omega
      rw [digitValues, digitChars_small hn, List.map_singleton, hd, gather, if_pos (by omega),
        gather]
      congr 1
      omega
    · have hd : (Nat.digitChar (n % 10)).toNat - 0x30 = n % 10 := by
        rw [toNat_digitChar (by omega)]
        omega
      have hprefix := ih (n / 10) (by omega) (by omega)
      rw [digitValues] at hprefix ⊢
      rw [digitChars_step (by omega), List.map_append, gather_append hprefix, List.map_singleton, hd,
        gather, if_pos (by omega), gather]
      congr 1
      omega

/-- An integer of 64 bits is the value of its numeral. -/
theorem value_ofInteger {n : Int} (h : (Number.integer n).IsInteger) :
    (ofInteger n).value = .ok (.integer n) := by
  have hbounds : -0x8000000000000000 ≤ n ∧ n ≤ 0xFFFFFFFFFFFFFFFF := h
  have hgather := gather_digitValues (n := n.natAbs) (by
    simp only [UInt64.size]
    omega)
  simp only [value, ofInteger, hgather, if_true, integerValue]
  by_cases hn : n < 0
  · have hle : n.natAbs ≤ 0x8000000000000000 := by omega
    have hne : n.natAbs ≠ 0 := by omega
    have hneg : -(n.natAbs : Int) = n := by omega
    have hfits : (n.natAbs ≠ 0 && n.natAbs ≤ 0x8000000000000000) = true := by
      rw [Bool.and_eq_true]
      exact ⟨decide_eq_true hne, decide_eq_true hle⟩
    rw [if_neg (by simp [hn]), if_pos hfits, hneg]
  · have hpos : (n.natAbs : Int) = n := by omega
    rw [if_pos (by simp [hn]), hpos]

end Numeral

end IndexFs

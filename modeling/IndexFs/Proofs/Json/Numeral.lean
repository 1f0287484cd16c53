import IndexFs.Proofs.Json.Number
import Mathlib.Data.List.Basic

/-!
# What numerals are made of

The text of every number, be it an integer or not, is made of digits, signs, points and letters of an
exponent, and a numeral is only ever scanned up to the first other byte (`scan_taken`).
-/

namespace IndexFs

namespace Numeral

/-- The bytes that occur in numerals. -/
def isPart (b : UInt8) : Bool :=
  isDigit b || b = 0x2B || b = 0x2D || b = 0x2E || b = 0x45 || b = 0x65

/-! ## Scanning -/

/-- Some bytes of a numeral were taken, which is then `k'` instead of `k` bytes long. -/
def Taken (k : Nat) (bs : List UInt8) (k' : Nat) (rest : List UInt8) : Prop :=
  ∃ used, bs = used ++ rest ∧ k' = k + used.length ∧ ∀ b ∈ used, isPart b = true

/-- Nothing was taken. -/
theorem Taken.refl (k : Nat) (bs : List UInt8) : Taken k bs k bs :=
  ⟨[], rfl, rfl, fun _ h => absurd h List.not_mem_nil⟩

/-- What is taken first and what is taken then is taken together. -/
theorem Taken.trans {k k' k'' : Nat} {bs bs' bs'' : List UInt8} (h : Taken k bs k' bs')
    (h' : Taken k' bs' k'' bs'') : Taken k bs k'' bs'' := by
  obtain ⟨used, rfl, rfl, hused⟩ := h
  obtain ⟨used', rfl, rfl, hused'⟩ := h'
  refine ⟨used ++ used', (List.append_assoc _ _ _).symm, ?_, ?_⟩
  · rw [List.length_append, Nat.add_assoc]
  · intro b hb
    rcases List.mem_append.mp hb with hb | hb
    · exact hused b hb
    · exact hused' b hb

/-- A single byte of a numeral was taken. -/
theorem Taken.one {b : UInt8} (hb : isPart b = true) (k : Nat) (bs : List UInt8) :
    Taken k (b :: bs) (k + 1) bs := by
  refine ⟨[b], rfl, rfl, ?_⟩
  intro b' hb'
  rwa [List.mem_singleton.mp hb']

/-- Digits occur in numerals. -/
theorem isPart_of_isDigit {b : UInt8} (h : isDigit b = true) : isPart b = true := by
  simp only [isPart, h, Bool.true_or]

/-- To take digits takes bytes of a numeral, as many as there are digits. -/
theorem taken_digits (k : Nat) (bs : List UInt8) :
    Taken k bs (k + (takeDigits bs).1.length) (takeDigits bs).2 := by
  refine ⟨bs.takeWhile isDigit, List.takeWhile_append_dropWhile.symm, ?_, ?_⟩
  · rw [takeDigits, List.length_map]
  · intro b hb
    exact isPart_of_isDigit (List.all_eq_true.mp List.all_takeWhile b hb)

/-- The whole part of a numeral has at least one digit. -/
theorem scanWhole_taken {k k' : Nat} {bs rest : List UInt8} {ds : List Nat}
    (h : scanWhole k bs = .ok (ds, k', rest)) : Taken k bs k' rest ∧ k < k' := by
  unfold scanWhole at h
  split at h
  · cases h
  · next b bs =>
    split_ifs at h with hzero hdigit
    · -- a zero stands alone
      have hpart : isPart b = true := by
        rw [hzero]
        decide
      split at h
      · cases h
        exact ⟨.one hpart k [], Nat.lt_succ_self k⟩
      · split_ifs at h
        cases h
        exact ⟨.one hpart k _, Nat.lt_succ_self k⟩
    · cases h
      refine ⟨taken_digits k (b :: bs), ?_⟩
      have hfirst : 0 < (takeDigits (b :: bs)).1.length := by
        rw [takeDigits, List.takeWhile_cons_of_pos hdigit]
        exact Nat.succ_pos _
      exact Nat.lt_add_of_pos_right hfirst

/-- The fraction of a numeral, if there is one, is a point with digits behind it. -/
theorem scanFraction?_taken {k k' : Nat} {bs rest : List UInt8} {ds : Option (List Nat)}
    (h : scanFraction? k bs = .ok (ds, k', rest)) : Taken k bs k' rest := by
  unfold scanFraction? at h
  split at h
  · cases h
    exact .refl k []
  · next b bs =>
    split_ifs at h with hpoint
    · have hpart : isPart b = true := by
        rw [hpoint]
        decide
      have hdigits := taken_digits (k + 1) bs
      split at h
      · cases h
      · cases h
      · next ds' rest' htake =>
        rw [htake] at hdigits
        cases h
        exact (Taken.one hpart k bs).trans hdigits
    · cases h
      exact .refl k _

/-- Behind the letter of an exponent stand a sign, if there is one, and digits. -/
theorem scanExponent_taken {k k' : Nat} {bs : List UInt8} {e : ExponentPart}
    (h : scanExponent k bs = .ok (e, k')) : ∃ rest, Taken k bs k' rest := by
  unfold scanExponent at h
  split at h
  next negative k₁ bs₁ hsign =>
    -- the sign, if there is one, and then the digits
    have hsigned : Taken k bs k₁ bs₁ := by
      split at hsign
      · cases hsign
        exact .one (by decide) k _
      · cases hsign
        exact .one (by decide) k _
      · cases hsign
        exact .refl k _
    split at h
    · cases h
    · split_ifs at h
      cases h
      exact ⟨_, hsigned.trans (taken_digits k₁ _)⟩

/-- The exponent of a numeral, if there is one, is a letter with such a number behind it. -/
theorem scanExponent?_taken {k k' : Nat} {bs : List UInt8} {e : Option ExponentPart}
    (h : scanExponent? k bs = .ok (e, k')) : ∃ rest, Taken k bs k' rest := by
  unfold scanExponent? at h
  split at h
  · cases h
    exact ⟨[], .refl k []⟩
  · next b bs =>
    -- the letter of an exponent, or no exponent at all
    split_ifs at h with hletter
    · have hpart : isPart b = true := by
        rw [Bool.or_eq_true, decide_eq_true_eq, decide_eq_true_eq] at hletter
        rcases hletter with rfl | rfl <;> decide
      cases hexponent : scanExponent (k + 1) bs with
      | error f =>
        rw [hexponent] at h
        cases h
      | ok r =>
        obtain ⟨part, k₁⟩ := r
        rw [hexponent] at h
        cases h
        obtain ⟨rest, hrest⟩ := scanExponent_taken hexponent
        exact ⟨rest, (Taken.one hpart k bs).trans hrest⟩
    · cases h
      exact ⟨_, .refl k _⟩

/-- A numeral takes at least one byte, and only such as occur in numerals. -/
theorem scan_taken {bs : List UInt8} {t : Numeral} (h : scan bs = .ok t) :
    (∃ rest, Taken 0 bs t.length rest) ∧ 0 < t.length := by
  unfold scan at h
  split at h
  next negative k₀ bs₀ hsign =>
    -- the minus sign, the whole part, the fraction and the exponent are taken one after the other
    have hstart : Taken 0 bs k₀ bs₀ := by
      split at hsign
      · cases hsign
        exact .one (by decide) 0 _
      · cases hsign
        exact .refl 0 _
    cases hwhole : scanWhole k₀ bs₀ with
    | error f =>
      rw [hwhole] at h
      cases h
    | ok r =>
      obtain ⟨ds, k₁, bs₁⟩ := r
      obtain ⟨htaken, hlt⟩ := scanWhole_taken hwhole
      rw [hwhole] at h
      cases hfraction : scanFraction? k₁ bs₁ with
      | error f =>
        simp only [bind, Except.bind, hfraction] at h
        cases h
      | ok r =>
        obtain ⟨fraction, k₂, bs₂⟩ := r
        have htaken₂ := scanFraction?_taken hfraction
        cases hexponent : scanExponent? k₂ bs₂ with
        | error f =>
          simp only [bind, Except.bind, hfraction, hexponent] at h
          cases h
        | ok r =>
          obtain ⟨exponent, k₃⟩ := r
          obtain ⟨rest, htaken₃⟩ := scanExponent?_taken hexponent
          simp only [bind, Except.bind, hfraction, hexponent, pure, Except.pure] at h
          cases h
          refine ⟨⟨rest, hstart.trans (htaken.trans (htaken₂.trans htaken₃))⟩, ?_⟩
          obtain ⟨used₂, -, rfl, -⟩ := htaken₂
          obtain ⟨used₃, -, rfl, -⟩ := htaken₃
          show 0 < k₁ + used₂.length + used₃.length
          omega

end Numeral

/-! ## The text of a number -/

/-- The characters that occur in numerals. -/
def Numeral.PartChar (c : Char) : Prop :=
  0x30 ≤ c.toNat ∧ c.toNat ≤ 0x39 ∨ c = '+' ∨ c = '-' ∨ c = '.' ∨ c = 'e'

/-- Text made of these characters. -/
def Numeral.PartText (cs : List Char) : Prop :=
  (∀ c ∈ cs, PartChar c) ∧ cs ≠ []

namespace Decimal

open Numeral (PartChar PartText)

theorem partChar_point : PartChar '.' := .inr (.inr (.inr (.inl rfl)))

theorem partChar_zero : PartChar '0' := .inl (by decide)

theorem partChar_minus : PartChar '-' := .inr (.inr (.inl rfl))

theorem partText_digitChars (n : Nat) : PartText (digitChars n) :=
  ⟨fun _ hc => .inl (toNat_digit_of_mem hc), digitChars_ne_nil n⟩

/-- Zeros that fill up a numeral occur in numerals. -/
theorem partChar_zeros (n : Nat) : ∀ c ∈ zeros n, PartChar c := by
  intro c hc
  rw [List.eq_of_mem_replicate hc]
  exact partChar_zero

/-- An exponent is written with the letter, a sign and digits. -/
theorem partChar_exponentChars (e : Int) : ∀ c ∈ exponentChars e, PartChar c := by
  intro c hc
  unfold exponentChars at hc
  rcases List.mem_cons.mp hc with rfl | hc
  · exact .inr (.inr (.inr (.inr rfl)))
  · rcases List.mem_cons.mp hc with rfl | hc
    · split_ifs
      · exact partChar_minus
      · exact .inr (.inl rfl)
    · exact (partText_digitChars _).1 c hc

/-- Scientific notation is written as a numeral in every layout: with an exponent, with zeros behind the
digits, with a point between them, or with zeros before them. -/
theorem partText_write (layout : Layout) (s : Scientific) : PartText (layout.write s) := by
  obtain ⟨hdigits, hne⟩ := partText_digitChars s.digits
  simp only [Layout.write]
  split_ifs
  · -- the digits with an exponent, and with a point after the first one of several
    split
    · next hds => exact absurd hds hne
    · next d hds =>
      rw [hds, List.forall_mem_cons] at hdigits
      exact ⟨List.forall_mem_cons.mpr ⟨hdigits.1, partChar_exponentChars _⟩, List.cons_ne_nil _ _⟩
    · next d ds _ hds =>
      rw [hds, List.forall_mem_cons] at hdigits
      refine ⟨List.forall_mem_cons.mpr ⟨hdigits.1, ?_⟩, List.cons_ne_nil _ _⟩
      refine List.forall_mem_cons.mpr ⟨partChar_point, List.forall_mem_append.mpr ⟨hdigits.2, ?_⟩⟩
      exact partChar_exponentChars _
  · -- the digits, then zeros up to the point
    refine ⟨List.forall_mem_append.mpr ⟨List.forall_mem_append.mpr ⟨hdigits, partChar_zeros _⟩, ?_⟩, ?_⟩
    · exact List.forall_mem_cons.mpr ⟨partChar_point, List.forall_mem_singleton.mpr partChar_zero⟩
    · exact List.append_ne_nil_of_right_ne_nil _ (List.cons_ne_nil _ _)
  · -- the point between the digits
    refine ⟨List.forall_mem_append.mpr ⟨?_, ?_⟩, ?_⟩
    · exact fun c hc => hdigits c (List.mem_of_mem_take hc)
    · refine List.forall_mem_cons.mpr ⟨partChar_point, ?_⟩
      exact fun c hc => hdigits c (List.mem_of_mem_drop hc)
    · exact List.append_ne_nil_of_right_ne_nil _ (List.cons_ne_nil _ _)
  · -- zeros between the point and the digits
    refine ⟨?_, List.cons_ne_nil _ _⟩
    refine List.forall_mem_cons.mpr ⟨partChar_zero, List.forall_mem_cons.mpr ⟨partChar_point, ?_⟩⟩
    exact List.forall_mem_append.mpr ⟨partChar_zeros _, hdigits⟩

/-- A number with a fraction is written as a numeral, be it zero or not. -/
theorem partText_floatChars (x : Float) : PartText (floatChars x) := by
  have hbody : PartText (if (Parts.ofBits x.toBits).m = 0 then ['0', '.', '0'] else
      Layout.plain.write (shortest (Parts.ofBits x.toBits).m (Parts.ofBits x.toBits).q)) := by
    split_ifs
    · refine ⟨?_, List.cons_ne_nil _ _⟩
      exact List.forall_mem_cons.mpr ⟨partChar_zero, List.forall_mem_cons.mpr ⟨partChar_point,
        List.forall_mem_singleton.mpr partChar_zero⟩⟩
    · exact partText_write _ _
  simp only [floatChars]
  cases (Parts.ofBits x.toBits).negative with
  | false => exact hbody
  | true => exact ⟨List.forall_mem_cons.mpr ⟨partChar_minus, hbody.1⟩, List.cons_ne_nil _ _⟩

end Decimal

namespace Numeral

/-- Every number is written as a numeral. -/
theorem partText_chars (n : Number) : PartText n.chars := by
  cases n with
  | integer n =>
    have hdigits := Decimal.partText_digitChars n.natAbs
    simp only [Number.chars, Number.integerChars]
    split_ifs
    · exact ⟨List.forall_mem_cons.mpr ⟨Decimal.partChar_minus, hdigits.1⟩, List.cons_ne_nil _ _⟩
    · exact hdigits
  | float x => exact Decimal.partText_floatChars x

/-- The characters that occur in numerals are in ASCII, and their bytes occur in numerals. -/
theorem isPart_byte {c : Char} (h : PartChar c) :
    c.toNat < 0x80 ∧ isPart (UInt8.ofNat c.toNat) = true := by
  rcases h with hdigit | rfl | rfl | rfl | rfl
  · have hbyte : (UInt8.ofNat c.toNat).toNat = c.toNat := Utf8.toNat_byte (by omega)
    refine ⟨by omega, isPart_of_isDigit ?_⟩
    simp only [isDigit, hbyte, Bool.and_eq_true, decide_eq_true_eq]
    exact hdigit
  all_goals decide

/-- The bytes of the text of a number, of which there is at least one. -/
theorem isPart_chars (n : Number) :
    (∀ b ∈ Utf8.encode n.chars, isPart b = true) ∧ Utf8.encode n.chars ≠ [] := by
  obtain ⟨hall, hne⟩ := partText_chars n
  rw [Utf8.encode_ascii fun c hc => (isPart_byte (hall c hc)).1]
  refine ⟨?_, fun h => hne (List.map_eq_nil_iff.mp h)⟩
  intro b hb
  obtain ⟨c, hc, rfl⟩ := List.mem_map.mp hb
  exact (isPart_byte (hall c hc)).2

end Numeral

end IndexFs

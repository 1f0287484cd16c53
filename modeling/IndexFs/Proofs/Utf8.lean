import IndexFs.Utf8
import Mathlib.Tactic.Common

/-!
# Reading UTF-8 back

The bytes that `encode` writes are decoded to the text they were written for, and no other bytes are
decoded at all (`decode_eq_ok_iff`).
-/

namespace IndexFs.Utf8

/-- A character is below the surrogates, or above them and at most U+10FFFF. -/
theorem toNat_range (c : Char) :
    c.toNat < 0xD800 ∨ (0xDFFF < c.toNat ∧ c.toNat < 0x110000) := by
  have h := c.valid
  simp only [UInt32.isValidChar, Nat.isValidChar] at h
  exact h

theorem toNat_byte {n : Nat} (h : n < 256) : (UInt8.ofNat n).toNat = n := by
  rw [UInt8.toNat_ofNat']
  exact Nat.mod_eq_of_lt h

/-- The range of bytes that go on with a character. -/
theorem isTail_iff {b : UInt8} : isTail b = true ↔ 0x80 ≤ b.toNat ∧ b.toNat ≤ 0xBF := by
  simp [isTail]

/-- A character of one byte is led by itself. -/
theorem lead_one {b : UInt8} (h : b.toNat < 0x80) (rest : List UInt8) :
    lead b rest = .char (Char.ofNat b.toNat) 0 := by
  simp [lead, h]

/-- A character of two bytes is led by the first. -/
theorem lead_two {b b₁ : UInt8} (h : 0xC2 ≤ b.toNat ∧ b.toNat < 0xE0) (h₁ : isTail b₁ = true)
    (rest : List UInt8) :
    lead b (b₁ :: rest) = .char (Char.ofNat ((b.toNat - 0xC0) * 64 + tailBits b₁)) 1 := by
  rw [isTail_iff] at h₁
  simp only [lead, secondRange]
  grind

/-- A character of three bytes is led by the first, which narrows the range of the second. -/
theorem lead_three {b b₁ b₂ : UInt8} (h : 0xE0 ≤ b.toNat ∧ b.toNat < 0xF0)
    (h₁ : (secondRange b.toNat).1 ≤ b₁.toNat ∧ b₁.toNat ≤ (secondRange b.toNat).2)
    (h₂ : isTail b₂ = true) (rest : List UInt8) :
    lead b (b₁ :: b₂ :: rest) =
      .char (Char.ofNat ((b.toNat - 0xE0) * 4096 + tailBits b₁ * 64 + tailBits b₂)) 2 := by
  simp only [lead, h₂]
  grind

/-- A character of four bytes is led by the first, which narrows the range of the second. -/
theorem lead_four {b b₁ b₂ b₃ : UInt8} (h : 0xF0 ≤ b.toNat ∧ b.toNat ≤ 0xF4)
    (h₁ : (secondRange b.toNat).1 ≤ b₁.toNat ∧ b₁.toNat ≤ (secondRange b.toNat).2)
    (h₂ : isTail b₂ = true) (h₃ : isTail b₃ = true) (rest : List UInt8) :
    lead b (b₁ :: b₂ :: b₃ :: rest) =
      .char (Char.ofNat ((b.toNat - 0xF0) * 262144 + tailBits b₁ * 4096 + tailBits b₂ * 64 +
        tailBits b₃)) 3 := by
  simp only [lead, h₂, h₃]
  grind

/-- The first byte of a character tells which character it is and how many bytes follow. -/
theorem lead_encodeChar (c : Char) :
    ∃ b bs, encodeChar c = b :: bs ∧ ∀ rest, lead b (bs ++ rest) = .char c bs.length := by
  have hrange := toNat_range c
  have hc : Char.ofNat c.toNat = c := Char.ofNat_toNat c
  simp only [encodeChar]
  generalize c.toNat = n at hrange hc
  -- one case for each number of bytes: their bits together are those of the character
  split_ifs with h1 h2 h3
  · refine ⟨_, _, rfl, fun rest => ?_⟩
    have hb := toNat_byte (n := n) (by omega)
    rw [List.nil_append, lead_one (by omega), hb, hc]
    rfl
  · refine ⟨_, _, rfl, fun rest => ?_⟩
    have hb := toNat_byte (n := 0xC0 + n / 64) (by omega)
    have hb₁ := toNat_byte (n := 0x80 + n % 64) (by omega)
    rw [List.cons_append, lead_two (by omega) (by rw [isTail_iff]; omega)]
    unfold tailBits
    have hn : (0xC0 + n / 64 - 0xC0) * 64 + (0x80 + n % 64 - 0x80) = n := by omega
    rw [hb, hb₁, hn, hc]
    rfl
  · refine ⟨_, _, rfl, fun rest => ?_⟩
    have hb := toNat_byte (n := 0xE0 + n / 4096) (by omega)
    have hb₁ := toNat_byte (n := 0x80 + n / 64 % 64) (by omega)
    have hb₂ := toNat_byte (n := 0x80 + n % 64) (by omega)
    rw [List.cons_append, List.cons_append,
      lead_three (by omega) (by rw [secondRange]; grind) (by rw [isTail_iff]; omega)]
    unfold tailBits
    have hn : (0xE0 + n / 4096 - 0xE0) * 4096 + (0x80 + n / 64 % 64 - 0x80) * 64 +
        (0x80 + n % 64 - 0x80) = n := by omega
    rw [hb, hb₁, hb₂, hn, hc]
    rfl
  · refine ⟨_, _, rfl, fun rest => ?_⟩
    have hb := toNat_byte (n := 0xF0 + n / 262144) (by omega)
    have hb₁ := toNat_byte (n := 0x80 + n / 4096 % 64) (by omega)
    have hb₂ := toNat_byte (n := 0x80 + n / 64 % 64) (by omega)
    have hb₃ := toNat_byte (n := 0x80 + n % 64) (by omega)
    rw [List.cons_append, List.cons_append, List.cons_append,
      lead_four (by omega) (by rw [secondRange]; grind) (by rw [isTail_iff]; omega)
        (by rw [isTail_iff]; omega)]
    unfold tailBits
    have hn : (0xF0 + n / 262144 - 0xF0) * 262144 + (0x80 + n / 4096 % 64 - 0x80) * 4096 +
        (0x80 + n / 64 % 64 - 0x80) * 64 + (0x80 + n % 64 - 0x80) = n := by omega
    rw [hb, hb₁, hb₂, hb₃, hn, hc]
    rfl

/-- The bytes that belong to the character read last are passed over. -/
theorem decodeFrom_skip (seen : List Char) (bs rest : List UInt8) (i : Nat) :
    decodeFrom i bs.length seen (bs ++ rest) = decodeFrom (i + bs.length) 0 seen rest := by
  induction bs generalizing i with
  | nil => rfl
  | cons b bs ih =>
    rw [List.cons_append, List.length_cons, decodeFrom, ih]
    congr 1
    omega

/-- What was encoded is decoded, behind what was seen before. -/
theorem decodeFrom_encode (seen cs : List Char) (i : Nat) :
    decodeFrom i 0 seen (encode cs) = .ok (seen.reverse ++ cs) := by
  induction cs generalizing i seen with
  | nil => simp [decodeFrom]
  | cons c cs ih =>
    obtain ⟨b, bs, hbytes, hlead⟩ := lead_encodeChar c
    rw [encode_cons, hbytes, List.cons_append, decodeFrom]
    simp only [hlead]
    rw [decodeFrom_skip, ih, List.reverse_cons, List.append_assoc, List.singleton_append]

/-- The bytes of a text are read as this text. -/
theorem decode_encode (cs : List Char) : decode (encode cs) = .ok cs :=
  decodeFrom_encode [] cs 0

/-! ## ASCII -/

/-- A text of ASCII characters has one byte for each of them. -/
theorem encode_ascii {cs : List Char} (h : ∀ c ∈ cs, c.toNat < 0x80) :
    encode cs = cs.map fun c => UInt8.ofNat c.toNat := by
  induction cs with
  | nil => rfl
  | cons c cs ih =>
    rw [encode_cons, encodeChar_ascii (h c List.mem_cons_self),
      ih fun d hd => h d (List.mem_cons_of_mem c hd)]
    rfl

/-- No byte of a character beyond ASCII is an ASCII byte. -/
theorem le_toNat_of_mem_encodeChar {c : Char} (h : 0x80 ≤ c.toNat) {b : UInt8}
    (hb : b ∈ encodeChar c) : 0x80 ≤ b.toNat := by
  have hrange := toNat_range c
  simp only [encodeChar] at hb
  generalize c.toNat = n at hrange h hb
  have hbyte : ∀ m, 0x80 ≤ m → m < 256 → 0x80 ≤ (UInt8.ofNat m).toNat := by
    intro m hm hm'
    rw [toNat_byte hm']
    exact hm
  split_ifs at hb
  · omega
  · simp only [List.mem_cons, List.not_mem_nil, or_false] at hb
    rcases hb with rfl | rfl <;> exact hbyte _ (by omega) (by omega)
  · simp only [List.mem_cons, List.not_mem_nil, or_false] at hb
    rcases hb with rfl | rfl | rfl <;> exact hbyte _ (by omega) (by omega)
  · simp only [List.mem_cons, List.not_mem_nil, or_false] at hb
    rcases hb with rfl | rfl | rfl | rfl <;> exact hbyte _ (by omega) (by omega)

/-! ## What is decoded -/

/-- Outside the surrogates, every number of a character is one. -/
theorem toNat_ofNat {n : Nat} (h : n < 0xD800 ∨ (0xDFFF < n ∧ n < 0x110000)) :
    (Char.ofNat n).toNat = n := by
  have hvalid : n.isValidChar := h
  rw [Char.ofNat, dif_pos hvalid]
  rfl

theorem byte_eq {n : Nat} {b : UInt8} (h : n = b.toNat) : UInt8.ofNat n = b := by
  rw [h, UInt8.ofNat_toNat]

/-- A byte of ASCII is what its character is encoded as. -/
theorem encodeChar_one {b : UInt8} (h : b.toNat < 0x80) : encodeChar (Char.ofNat b.toNat) = [b] := by
  have hc := toNat_ofNat (n := b.toNat) (by omega)
  simp only [encodeChar, hc, if_pos h, byte_eq rfl]

/-- Two bytes that are decoded together are what the character is encoded as. -/
theorem encodeChar_two {b b₁ : UInt8} (h : 0xC2 ≤ b.toNat ∧ b.toNat < 0xE0)
    (h₁ : 0x80 ≤ b₁.toNat ∧ b₁.toNat ≤ 0xBF) :
    encodeChar (Char.ofNat ((b.toNat - 0xC0) * 64 + tailBits b₁)) = [b, b₁] := by
  unfold tailBits
  have hc := toNat_ofNat (n := (b.toNat - 0xC0) * 64 + (b₁.toNat - 0x80)) (by omega)
  simp only [encodeChar, hc]
  rw [if_neg (by omega), if_pos (by omega), byte_eq (b := b) (by omega), byte_eq (b := b₁) (by omega)]

/-- Three bytes that are decoded together are what the character is encoded as. -/
theorem encodeChar_three {b b₁ b₂ : UInt8} (h : 0xE0 ≤ b.toNat ∧ b.toNat < 0xF0)
    (h₁ : (secondRange b.toNat).1 ≤ b₁.toNat ∧ b₁.toNat ≤ (secondRange b.toNat).2)
    (h₂ : 0x80 ≤ b₂.toNat ∧ b₂.toNat ≤ 0xBF) :
    encodeChar (Char.ofNat ((b.toNat - 0xE0) * 4096 + tailBits b₁ * 64 + tailBits b₂)) = [b, b₁, b₂] := by
  have hsecond : 0x80 ≤ b₁.toNat ∧ b₁.toNat ≤ 0xBF ∧ (b.toNat = 0xE0 → 0xA0 ≤ b₁.toNat) ∧
      (b.toNat = 0xED → b₁.toNat ≤ 0x9F) := by
    simp only [secondRange] at h₁
    split_ifs at h₁ <;> omega
  unfold tailBits
  have hc := toNat_ofNat
    (n := (b.toNat - 0xE0) * 4096 + (b₁.toNat - 0x80) * 64 + (b₂.toNat - 0x80)) (by omega)
  simp only [encodeChar, hc]
  rw [if_neg (by omega), if_neg (by omega), if_pos (by omega), byte_eq (b := b) (by omega),
    byte_eq (b := b₁) (by omega), byte_eq (b := b₂) (by omega)]

/-- Four bytes that are decoded together are what the character is encoded as. -/
theorem encodeChar_four {b b₁ b₂ b₃ : UInt8} (h : 0xF0 ≤ b.toNat ∧ b.toNat ≤ 0xF4)
    (h₁ : (secondRange b.toNat).1 ≤ b₁.toNat ∧ b₁.toNat ≤ (secondRange b.toNat).2)
    (h₂ : 0x80 ≤ b₂.toNat ∧ b₂.toNat ≤ 0xBF) (h₃ : 0x80 ≤ b₃.toNat ∧ b₃.toNat ≤ 0xBF) :
    encodeChar (Char.ofNat ((b.toNat - 0xF0) * 262144 + tailBits b₁ * 4096 + tailBits b₂ * 64 +
      tailBits b₃)) = [b, b₁, b₂, b₃] := by
  have hsecond : 0x80 ≤ b₁.toNat ∧ b₁.toNat ≤ 0xBF ∧ (b.toNat = 0xF0 → 0x90 ≤ b₁.toNat) ∧
      (b.toNat = 0xF4 → b₁.toNat ≤ 0x8F) := by
    simp only [secondRange] at h₁
    split_ifs at h₁ <;> omega
  unfold tailBits
  have hc := toNat_ofNat
    (n := (b.toNat - 0xF0) * 262144 + (b₁.toNat - 0x80) * 4096 + (b₂.toNat - 0x80) * 64 +
      (b₃.toNat - 0x80)) (by omega)
  simp only [encodeChar, hc]
  rw [if_neg (by omega), if_neg (by omega), if_neg (by omega), byte_eq (b := b) (by omega),
    byte_eq (b := b₁) (by omega), byte_eq (b := b₂) (by omega), byte_eq (b := b₃) (by omega)]

/-- The character at the start of a byte string has the bytes that it is written with. -/
theorem encodeChar_of_lead {b : UInt8} {bs : List UInt8} {c : Char} {more : Nat}
    (h : lead b bs = .char c more) : more ≤ bs.length ∧ encodeChar c = b :: bs.take more := by
  simp only [lead] at h
  by_cases hone : b.toNat < 0x80
  · rw [if_pos hone] at h
    cases h
    exact ⟨Nat.zero_le _, encodeChar_one hone⟩
  rw [if_neg hone] at h
  by_cases hfirst : (b.toNat < 0xC2 || 0xF4 < b.toNat) = true
  · rw [if_pos hfirst] at h
    cases h
  rw [if_neg hfirst] at h
  simp only [Bool.or_eq_true, decide_eq_true_eq, not_or, Nat.not_lt] at hfirst
  -- a second byte, whose range depends on the first one
  rcases bs with _ | ⟨b₁, bs⟩
  · cases h
  dsimp only at h
  by_cases hsecond :
      (b₁.toNat < (secondRange b.toNat).1 || (secondRange b.toNat).2 < b₁.toNat) = true
  · rw [if_pos hsecond] at h
    cases h
  rw [if_neg hsecond] at h
  simp only [Bool.or_eq_true, decide_eq_true_eq, not_or, Nat.not_lt] at hsecond
  by_cases htwo : b.toNat < 0xE0
  · rw [if_pos htwo] at h
    obtain ⟨rfl, rfl⟩ := Lead.char.inj h
    have hrange : secondRange b.toNat = (0x80, 0xBF) := by
      simp only [secondRange]
      grind
    rw [hrange] at hsecond
    refine ⟨by simp, ?_⟩
    rw [encodeChar_two ⟨hfirst.1, htwo⟩ hsecond]
    rfl
  rw [if_neg htwo] at h
  -- a third byte, and a fourth one
  rcases bs with _ | ⟨b₂, bs⟩
  · cases h
  dsimp only at h
  by_cases hthird : isTail b₂ = true
  swap
  · rw [if_pos (by simp [hthird])] at h
    cases h
  rw [if_neg (by simp [hthird])] at h
  by_cases hthree : b.toNat < 0xF0
  · rw [if_pos hthree] at h
    obtain ⟨rfl, rfl⟩ := Lead.char.inj h
    refine ⟨by simp, ?_⟩
    rw [encodeChar_three ⟨by omega, hthree⟩ hsecond (isTail_iff.mp hthird)]
    rfl
  rw [if_neg hthree] at h
  rcases bs with _ | ⟨b₃, bs⟩
  · cases h
  dsimp only at h
  by_cases hfourth : isTail b₃ = true
  swap
  · rw [if_pos (by simp [hfourth])] at h
    cases h
  rw [if_neg (by simp [hfourth])] at h
  obtain ⟨rfl, rfl⟩ := Lead.char.inj h
  refine ⟨by simp, ?_⟩
  rw [encodeChar_four ⟨by omega, hfirst.2⟩ hsecond (isTail_iff.mp hthird) (isTail_iff.mp hfourth)]
  rfl

/-- What was decoded is encoded as the bytes that it was read from. -/
theorem encode_of_decodeFrom {bs : List UInt8} {i skip : Nat} {seen cs : List Char}
    (hskip : skip ≤ bs.length) (h : decodeFrom i skip seen bs = .ok cs) :
    ∃ ds, cs = seen.reverse ++ ds ∧ bs.drop skip = encode ds := by
  induction bs generalizing i skip seen with
  | nil =>
    cases h
    exact ⟨[], by simp, by simp⟩
  | cons b bs ih =>
    cases skip with
    -- bytes of a character that was seen already are passed over
    | succ n => exact ih (Nat.le_of_succ_le_succ hskip) h
    | zero =>
      rw [decodeFrom] at h
      cases hlead : lead b bs with
      | invalid n =>
        rw [hlead] at h
        cases h
      | incomplete =>
        rw [hlead] at h
        cases h
      | char c more =>
        rw [hlead] at h
        -- the character takes the bytes that it encodes to, and what is behind them is read by induction
        obtain ⟨hmore, hc⟩ := encodeChar_of_lead hlead
        obtain ⟨ds, hcs, hds⟩ := ih hmore h
        refine ⟨c :: ds, by simp [hcs], ?_⟩
        rw [encode_cons, hc, ← hds, List.cons_append, List.take_append_drop, List.drop_zero]

/-- Bytes are decoded to a text exactly if they are the bytes of this text. -/
theorem decode_eq_ok_iff {bs : List UInt8} {cs : List Char} : decode bs = .ok cs ↔ bs = encode cs := by
  constructor
  · intro h
    obtain ⟨ds, rfl, hds⟩ := encode_of_decodeFrom (Nat.zero_le _) h
    exact hds
  · rintro rfl
    exact decode_encode cs

/-- Two texts with the same bytes are the same. -/
theorem ofString_injective : Function.Injective ofString := by
  intro a b h
  have hread := congrArg decode h
  rw [ofString, ofString, decode_encode, decode_encode] at hread
  exact String.toList_inj.mp (Except.ok.inj hread)

/-- An ASCII byte is a character of its own. -/
theorem toNat_of_mem_encodeChar {c : Char} {b : UInt8} (hb : b.toNat < 0x80) (h : b ∈ encodeChar c) :
    c.toNat = b.toNat := by
  have hascii : c.toNat < 0x80 := by
    by_contra hle
    have := le_toNat_of_mem_encodeChar (Nat.not_lt.mp hle) h
    omega
  rw [encodeChar_ascii hascii, List.mem_singleton] at h
  rw [h, toNat_byte (by omega)]

/-- ASCII bytes are the bytes of a text. -/
theorem encode_ofAscii {bs : List UInt8} (h : ∀ b ∈ bs, b.toNat < 0x80) :
    encode (bs.map fun b => Char.ofNat b.toNat) = bs := by
  induction bs with
  | nil => rfl
  | cons b bs ih =>
    rw [List.map_cons, encode_cons, encodeChar_one (h b List.mem_cons_self),
      ih fun d hd => h d (List.mem_cons_of_mem b hd), List.singleton_append]

end IndexFs.Utf8

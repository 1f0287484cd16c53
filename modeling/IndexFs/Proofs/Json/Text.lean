import IndexFs.Json.Printer
import IndexFs.Json.Token
import IndexFs.Proofs.Utf8

/-!
# Strings of JSON read back

A string is escaped one character at a time, and the escape of a character is read as this character
wherever it stands. So the content of a printed string is the text it was printed for.
-/

namespace IndexFs.Json

/-! ## One character -/

/-- A byte that needs no escape stands for itself. -/
theorem stringContent_plain {b : UInt8} (h : b ≠ 0x22) (h' : b ≠ 0x5C) (h'' : 0x20 ≤ b.toNat)
    (k : Nat) (content : Content) (bs : List UInt8) :
    stringContent k 0 content (b :: bs) = stringContent (k + 1) 0 ((b, k + 1) :: content) bs := by
  have hcontrol : ¬b.toNat < 0x20 := by omega
  simp only [stringContent, if_neg h, if_neg h', if_neg hcontrol]

/-- A byte that needs no escape is one byte of a string. -/
theorem stringLength_plain {b : UInt8} (h : b ≠ 0x22) (h' : b ≠ 0x5C) (h'' : 0x20 ≤ b.toNat)
    (k : Nat) (bs : List UInt8) :
    stringLength k 0 (b :: bs) = stringLength (k + 1) 0 bs := by
  have hcontrol : ¬b.toNat < 0x20 := by omega
  simp only [stringLength, if_neg h, if_neg h', if_neg hcontrol]

/-- An escape of one letter stands for one byte. -/
theorem stringContent_letter {e c : UInt8} (h : escapeLetter? e = some c) (k : Nat)
    (content : Content) (bs : List UInt8) :
    stringContent k 0 content (0x5C :: e :: bs) =
      stringContent (k + 2) 0 ((c, k + 1) :: content) bs := by
  rw [stringContent, if_neg (by decide), if_pos rfl]
  simp only [h]
  rw [stringContent]

/-- An escape of one letter is two bytes of a string. -/
theorem stringLength_letter {e c : UInt8} (h : escapeLetter? e = some c) (k : Nat)
    (bs : List UInt8) :
    stringLength k 0 (0x5C :: e :: bs) = stringLength (k + 2) 0 bs := by
  rw [stringLength, if_neg (by decide), if_pos rfl]
  simp only [h, Option.isSome_some, if_true]
  rw [stringLength]

/-- The bytes of an escape by number. -/
def controlBytes (n : Nat) : List UInt8 :=
  [0x5C, 0x75, 0x30, 0x30, UInt8.ofNat (Nat.digitChar (n / 16)).toNat,
    UInt8.ofNat (Nat.digitChar (n % 16)).toNat]

/-- How a control without a letter of its own is written. -/
theorem encode_controlEscape {n : Nat} (h : n < 0x20) :
    Utf8.encode (controlEscape n) = controlBytes n := by
  have : ∀ n : Fin 0x20, Utf8.encode (controlEscape n) = controlBytes n := by decide
  exact this ⟨n, h⟩

/-- The two digits that a control is written with are its number. -/
theorem hexValue?_control {n : Nat} (h : n < 0x20) :
    hexValue? 0x30 0x30 (UInt8.ofNat (Nat.digitChar (n / 16)).toNat)
      (UInt8.ofNat (Nat.digitChar (n % 16)).toNat) = some n := by
  have : ∀ n : Fin 0x20,
      hexValue? 0x30 0x30 (UInt8.ofNat (Nat.digitChar (n / 16)).toNat)
        (UInt8.ofNat (Nat.digitChar (n % 16)).toNat) = some n.val := by decide
  exact this ⟨n, h⟩

/-- The four digits of an escape stand for the control that they were written for. -/
theorem escapedChar_control {c : Char} (h : c.toNat < 0x20) (k : Nat) (bs : List UInt8) :
    escapedChar k ((controlBytes c.toNat).drop 2 ++ bs) = .ok (c, k + 4) := by
  have hdigits : escapeDigits k ((controlBytes c.toNat).drop 2 ++ bs) =
      .ok (c.toNat, k + 4, bs) := by
    simp only [controlBytes, List.drop_succ_cons, List.drop_zero, List.cons_append,
      List.nil_append, escapeDigits, hexValue?_control h]
  have htrail : isTrailSurrogate c.toNat = false := by
    simp only [isTrailSurrogate, Bool.and_eq_false_iff, decide_eq_false_iff_not]
    omega
  have hlead : isLeadSurrogate c.toNat = false := by
    simp only [isLeadSurrogate, Bool.and_eq_false_iff, decide_eq_false_iff_not]
    omega
  simp [escapedChar, hdigits, bind, Except.bind, htrail, hlead, pure, Except.pure,
    Char.ofNat_toNat]

/-- An escape of four digits stands for its control. -/
theorem stringContent_control {c : Char} (h : c.toNat < 0x20) (k : Nat) (content : Content)
    (bs : List UInt8) :
    stringContent k 0 content (controlBytes c.toNat ++ bs) =
      stringContent (k + 6) 0 ((UInt8.ofNat c.toNat, k + 1) :: content) bs := by
  have hchar := escapedChar_control h (k + 2) bs
  simp only [controlBytes, List.drop_succ_cons, List.drop_zero, List.cons_append,
    List.nil_append] at hchar
  have hletter : escapeLetter? 0x75 = none := by decide
  simp only [controlBytes, List.cons_append, List.nil_append]
  rw [stringContent, if_neg (by decide), if_pos rfl]
  simp only [hletter, if_true, hchar, Utf8.encodeChar_ascii (c := c) (by omega)]
  have hskip : k + 2 + 4 - (k + 1) = 5 := by omega
  simp only [hskip, stringContent, List.map_cons, List.map_nil, List.reverse_singleton,
    List.singleton_append]

/-- An escape of four digits is six bytes of a string. -/
theorem stringLength_control {n : Nat} (h : n < 0x20) (k : Nat) (bs : List UInt8) :
    stringLength k 0 (controlBytes n ++ bs) = stringLength (k + 6) 0 bs := by
  have hletter : escapeLetter? 0x75 = none := by decide
  simp only [controlBytes, List.cons_append, List.nil_append]
  rw [stringLength, if_neg (by decide), if_pos rfl]
  simp only [hletter, Option.isSome_none, Bool.false_eq_true, if_false, if_true, escapeDigits,
    hexValue?_control h, stringLength]

/-- The three ways in which a character is written. -/
theorem escapeChar_cases (c : Char) :
    (∃ e : UInt8, c.toNat < 0x80 ∧ Utf8.encode (escapeChar c) = [0x5C, e] ∧
      escapeLetter? e = some (UInt8.ofNat c.toNat)) ∨
    (c.toNat < 0x20 ∧ Utf8.encode (escapeChar c) = controlBytes c.toNat) ∨
    (c ≠ '"' ∧ c ≠ '\\' ∧ 0x20 ≤ c.toNat ∧ Utf8.encode (escapeChar c) = Utf8.encodeChar c) := by
  unfold escapeChar
  split_ifs with h1 h2 h3 h4 h5 h6 h7 h8
  -- the characters with a letter of their own, the other control characters, and all others
  · exact .inl ⟨0x22, by subst h1; decide⟩
  · exact .inl ⟨0x5C, by subst h2; decide⟩
  · exact .inl ⟨0x6E, by subst h3; decide⟩
  · exact .inl ⟨0x72, by subst h4; decide⟩
  · exact .inl ⟨0x74, by subst h5; decide⟩
  · exact .inl ⟨0x62, by subst h6; decide⟩
  · exact .inl ⟨0x66, by subst h7; decide⟩
  · exact .inr (.inl ⟨h8, encode_controlEscape h8⟩)
  · exact .inr (.inr ⟨h1, h2, by omega, by simp⟩)

/-- The bytes of a character that stands for itself stand for themselves. -/
theorem plain_of_mem_encodeChar {c : Char} (h : c ≠ '"') (h' : c ≠ '\\') (h'' : 0x20 ≤ c.toNat)
    {b : UInt8} (hb : b ∈ Utf8.encodeChar c) : b ≠ 0x22 ∧ b ≠ 0x5C ∧ 0x20 ≤ b.toNat := by
  by_cases hc : c.toNat < 0x80
  · rw [Utf8.encodeChar_ascii hc, List.mem_singleton] at hb
    have hn : b.toNat = c.toNat := by
      rw [hb, Utf8.toNat_byte (by omega)]
    have hchar : ∀ d : Char, c ≠ d → c.toNat ≠ d.toNat := by
      intro d hd heq
      exact hd (Char.toNat_inj.mp heq)
    have h1 : c.toNat ≠ 0x22 := hchar '"' h
    have h2 : c.toNat ≠ 0x5C := hchar '\\' h'
    refine ⟨?_, ?_, by omega⟩
    · rintro rfl
      exact h1 (by rw [← hn]; rfl)
    · rintro rfl
      exact h2 (by rw [← hn]; rfl)
  · -- a quote and a backslash are ASCII, and no byte of this character is
    have hn := Utf8.le_toNat_of_mem_encodeChar (by omega) hb
    refine ⟨?_, ?_, by omega⟩
    · rintro rfl
      revert hn
      decide
    · rintro rfl
      revert hn
      decide

/-- Bytes that need no escape stand for themselves, one after the other. -/
theorem stringContent_plains {bs : List UInt8}
    (h : ∀ b ∈ bs, b ≠ 0x22 ∧ b ≠ 0x5C ∧ 0x20 ≤ b.toNat) (k : Nat) (content : Content)
    (rest : List UInt8) :
    ∃ added : Content, added.map (·.1) = bs.reverse ∧
      stringContent k 0 content (bs ++ rest) =
        stringContent (k + bs.length) 0 (added ++ content) rest := by
  induction bs generalizing k content with
  | nil => exact ⟨[], rfl, rfl⟩
  | cons b bs ih =>
    have hb := h b List.mem_cons_self
    obtain ⟨added, hadded, hread⟩ :=
      ih (fun b' hb' => h b' (List.mem_cons_of_mem b hb')) (k + 1) ((b, k + 1) :: content)
    refine ⟨added ++ [(b, k + 1)], ?_, ?_⟩
    · rw [List.map_append, hadded, List.reverse_cons]
      rfl
    · rw [List.cons_append, stringContent_plain hb.1 hb.2.1 hb.2.2, hread, List.length_cons,
        List.append_assoc, List.singleton_append]
      congr 1
      omega

/-- Bytes that need no escape are as many bytes of a string. -/
theorem stringLength_plains {bs : List UInt8}
    (h : ∀ b ∈ bs, b ≠ 0x22 ∧ b ≠ 0x5C ∧ 0x20 ≤ b.toNat) (k : Nat) (rest : List UInt8) :
    stringLength k 0 (bs ++ rest) = stringLength (k + bs.length) 0 rest := by
  induction bs generalizing k with
  | nil => rfl
  | cons b bs ih =>
    have hb := h b List.mem_cons_self
    rw [List.cons_append, stringLength_plain hb.1 hb.2.1 hb.2.2,
      ih (fun b' hb' => h b' (List.mem_cons_of_mem b hb')), List.length_cons]
    congr 1
    omega

/-- The escape of a character is read as the bytes of this character. -/
theorem stringContent_escapeChar (c : Char) (k : Nat) (content : Content) (rest : List UInt8) :
    ∃ added : Content, added.map (·.1) = (Utf8.encodeChar c).reverse ∧
      stringContent k 0 content (Utf8.encode (escapeChar c) ++ rest) =
        stringContent (k + (Utf8.encode (escapeChar c)).length) 0 (added ++ content) rest := by
  rcases escapeChar_cases c with ⟨e, hc, hbytes, hletter⟩ | ⟨hc, hbytes⟩ | ⟨h, h', h'', hbytes⟩
  · refine ⟨[(UInt8.ofNat c.toNat, k + 1)], ?_, ?_⟩
    · rw [Utf8.encodeChar_ascii hc]
      rfl
    · rw [hbytes]
      exact stringContent_letter hletter k content rest
  · refine ⟨[(UInt8.ofNat c.toNat, k + 1)], ?_, ?_⟩
    · rw [Utf8.encodeChar_ascii (by omega)]
      rfl
    · rw [hbytes, stringContent_control hc]
      rfl
  · rw [hbytes]
    exact stringContent_plains (fun b hb => plain_of_mem_encodeChar h h' h'' hb) k content rest

/-- A character is as long in a string as it was written. -/
theorem stringLength_escapeChar (c : Char) (k : Nat) (rest : List UInt8) :
    stringLength k 0 (Utf8.encode (escapeChar c) ++ rest) =
      stringLength (k + (Utf8.encode (escapeChar c)).length) 0 rest := by
  rcases escapeChar_cases c with ⟨e, hc, hbytes, hletter⟩ | ⟨hc, hbytes⟩ | ⟨h, h', h'', hbytes⟩
  · rw [hbytes]
    exact stringLength_letter hletter k rest
  · rw [hbytes, stringLength_control hc]
    rfl
  · rw [hbytes]
    exact stringLength_plains (fun b hb => plain_of_mem_encodeChar h h' h'' hb) k rest

/-! ## Whole strings -/

/-- The bytes of a string up to its closing quote, without the opening one. -/
def closingBytes (cs : List Char) : List UInt8 :=
  Utf8.encode (cs.flatMap escapeChar) ++ [0x22]

/-- What was written between quotation marks is read back up to the closing one. -/
theorem stringContent_closingBytes (cs : List Char) (k : Nat) (content : Content)
    (rest : List UInt8) :
    ∃ added : Content, added.map (·.1) = (Utf8.encode cs).reverse ∧
      stringContent k 0 content (closingBytes cs ++ rest) =
        .ok (added ++ content, k + (closingBytes cs).length) := by
  induction cs generalizing k content with
  | nil => exact ⟨[], rfl, rfl⟩
  | cons c cs ih =>
    obtain ⟨added, hadded, hread⟩ := stringContent_escapeChar c k content (closingBytes cs ++ rest)
    obtain ⟨later, hlater, hread'⟩ :=
      ih (k + (Utf8.encode (escapeChar c)).length) (added ++ content)
    have hsplit : closingBytes (c :: cs) = Utf8.encode (escapeChar c) ++ closingBytes cs := by
      simp [closingBytes]
    refine ⟨later ++ added, ?_, ?_⟩
    · rw [List.map_append, hadded, hlater, Utf8.encode_cons, List.reverse_append]
    · rw [hsplit, List.append_assoc, hread, hread', List.length_append, List.append_assoc,
        Nat.add_assoc]

/-- A string ends at its own closing quotation mark. -/
theorem stringLength_closingBytes (cs : List Char) (k : Nat) (rest : List UInt8) :
    stringLength k 0 (closingBytes cs ++ rest) = .ok (k + (closingBytes cs).length) := by
  induction cs generalizing k with
  | nil => rfl
  | cons c cs ih =>
    have hsplit : closingBytes (c :: cs) = Utf8.encode (escapeChar c) ++ closingBytes cs := by
      simp [closingBytes]
    rw [hsplit, List.append_assoc, stringLength_escapeChar, ih, List.length_append, Nat.add_assoc]

/-- The content of a printed string is its text. -/
theorem stringValue_closingBytes (s : String) (rest : List UInt8) :
    stringValue (closingBytes s.toList ++ rest) = .ok s := by
  obtain ⟨added, hadded, hread⟩ := stringContent_closingBytes s.toList 1 [] rest
  have hbytes : ((added ++ []).reverse : Content).map (·.1) = Utf8.encode s.toList := by
    rw [List.append_nil, List.map_reverse, hadded, List.reverse_reverse]
  simp only [stringValue, hread, bind, Except.bind, contentText, hbytes, Utf8.decode_encode,
    String.ofList_toList]

/-- A string starts with a quotation mark. -/
theorem encode_stringChars (s : String) :
    Utf8.encode (stringChars s) = 0x22 :: closingBytes s.toList := by
  have hquote : Utf8.encodeChar '"' = [0x22] := rfl
  rw [stringChars, List.cons_append, Utf8.encode_cons, Utf8.encode_append, Utf8.encode_cons, hquote]
  rfl

end IndexFs.Json

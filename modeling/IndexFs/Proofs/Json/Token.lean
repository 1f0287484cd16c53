import IndexFs.Proofs.Json.Number
import IndexFs.Proofs.Json.Text

/-!
# The tokens of printed values

Each part of a printed value is cut off as one token, and cutting goes on right after it.
-/

namespace IndexFs.Json

/-- The bytes that belong to the token cut off last are passed over. -/
theorem tokensFrom_skip (p : Pos) (bs rest : List UInt8) :
    tokensFrom p bs.length (bs ++ rest) = tokensFrom (p.across bs) 0 rest := by
  induction bs generalizing p with
  | nil => rfl
  | cons b bs ih =>
    rw [List.cons_append, List.length_cons, tokensFrom]
    exact ih (p.next b)

theorem take_length_cons_append {b : UInt8} (bs rest : List UInt8) :
    (b :: (bs ++ rest)).take (bs.length + 1) = b :: bs := by
  simp

/-- A mark is one byte, and cutting goes on behind it. -/
theorem tokensFrom_mark {b : UInt8} {kind : TokenKind} (hspace : isSpace b = false)
    (rest : List UInt8) (h : lexeme b rest = .mark kind) (p : Pos) :
    tokensFrom p 0 (b :: rest) = ⟨kind, p, p.across [b]⟩ :: tokensFrom (p.across [b]) 0 rest := by
  simp only [tokensFrom, hspace, Bool.false_eq_true, if_false, h]
  rfl

/-- What token is cut off, and with how many bytes, if it is a literal, a number or a string whose value is in
order. -/
inductive Lexeme.Gives : Lexeme → TokenKind → Nat → Prop where
  | literal {kind : TokenKind} {length : Nat} : Gives (.literal kind length) kind length
  | number {n : Number} {length : Nat} : Gives (.number (.ok n) length) (.number (.ok n)) length
  | text {s : String} {length : Nat} : Gives (.string (.ok s) length) (.string (.ok s)) length

/-- A token of more than one byte is cut off as a whole, and cutting goes on behind it. -/
theorem tokensFrom_lexeme {b : UInt8} {bs : List UInt8} (kind : TokenKind) (hspace : isSpace b = false)
    (rest : List UInt8) (h : (lexeme b (bs ++ rest)).Gives kind (bs.length + 1)) (p : Pos) :
    tokensFrom p 0 (b :: bs ++ rest) =
      ⟨kind, p, p.across (b :: bs)⟩ :: tokensFrom (p.across (b :: bs)) 0 rest := by
  generalize hlexeme : lexeme b (bs ++ rest) = l at h
  rw [List.cons_append, tokensFrom]
  simp only [hspace, Bool.false_eq_true, if_false, hlexeme]
  -- the three kinds differ in nothing but the value of the token
  cases h <;>
  · simp only [Nat.add_sub_cancel, tokensFrom_skip, take_length_cons_append]
    rfl

/-! ## Values of one token -/

/-- The text of a null is one token. -/
theorem tokensFrom_null (rest : List UInt8) (p : Pos) :
    tokensFrom p 0 (Utf8.encode (chars .null) ++ rest) =
      ⟨.null, p, p.across (Utf8.encode (chars .null))⟩ ::
        tokensFrom (p.across (Utf8.encode (chars .null))) 0 rest := by
  have hbytes : Utf8.encode (chars .null) = 0x6E :: [0x75, 0x6C, 0x6C] := rfl
  have hlexeme : (lexeme 0x6E ([0x75, 0x6C, 0x6C] ++ rest)).Gives .null 4 := .literal
  rw [hbytes]
  exact tokensFrom_lexeme .null (by decide) rest hlexeme p

/-- The text of a Boolean is one token. -/
theorem tokensFrom_bool (b : Bool) (rest : List UInt8) (p : Pos) :
    tokensFrom p 0 (Utf8.encode (chars (.bool b)) ++ rest) =
      ⟨.bool b, p, p.across (Utf8.encode (chars (.bool b)))⟩ ::
        tokensFrom (p.across (Utf8.encode (chars (.bool b)))) 0 rest := by
  cases b with
  | true =>
    have hbytes : Utf8.encode (chars (.bool true)) = 0x74 :: [0x72, 0x75, 0x65] := rfl
    have hlexeme : (lexeme 0x74 ([0x72, 0x75, 0x65] ++ rest)).Gives (.bool true) 4 := .literal
    rw [hbytes]
    exact tokensFrom_lexeme (.bool true) (by decide) rest hlexeme p
  | false =>
    have hbytes : Utf8.encode (chars (.bool false)) = 0x66 :: [0x61, 0x6C, 0x73, 0x65] := rfl
    have hlexeme : (lexeme 0x66 ([0x61, 0x6C, 0x73, 0x65] ++ rest)).Gives (.bool false) 5 := .literal
    rw [hbytes]
    exact tokensFrom_lexeme (.bool false) (by decide) rest hlexeme p

/-- The text of a string is one token, with the string as its value. -/
theorem tokensFrom_stringChars (s : String) (rest : List UInt8) (p : Pos) :
    tokensFrom p 0 (Utf8.encode (stringChars s) ++ rest) =
      ⟨.string (.ok s), p, p.across (Utf8.encode (stringChars s))⟩ ::
        tokensFrom (p.across (Utf8.encode (stringChars s))) 0 rest := by
  rw [encode_stringChars]
  refine tokensFrom_lexeme (.string (.ok s)) (by decide) rest ?_ p
  rw [lexeme, if_pos rfl, stringLexeme, stringLength_closingBytes, stringValue_closingBytes,
    Nat.add_comm]
  exact .text

/-- The first byte of an integer is a digit or a minus sign. -/
theorem encode_integerChars (n : Int) :
    ∃ b bs, Utf8.encode (Number.integerChars n) = b :: bs ∧
      (b = 0x2D ∨ Numeral.isDigit b = true) := by
  unfold Number.integerChars
  split_ifs
  · exact ⟨0x2D, Utf8.encode (Decimal.digitChars n.natAbs), rfl, .inl rfl⟩
  · rw [Numeral.encode_digitChars]
    cases hcs : Decimal.digitChars n.natAbs with
    | nil => exact absurd hcs (Decimal.digitChars_ne_nil _)
    | cons c cs =>
      refine ⟨_, _, List.map_cons, .inr ?_⟩
      exact (Numeral.isDigit_byte (n := n.natAbs) (by rw [hcs]; exact List.mem_cons_self)).1

/-- The text of an integer is one token, with the integer as its value, unless the numeral goes on behind
it. -/
theorem tokensFrom_integerChars {n : Int} (hn : (Number.integer n).IsInteger) {rest : List UInt8}
    (h : Numeral.Ends rest) (p : Pos) :
    tokensFrom p 0 (Utf8.encode (Number.integerChars n) ++ rest) =
      ⟨.number (.ok (.integer n)), p, p.across (Utf8.encode (Number.integerChars n))⟩ ::
        tokensFrom (p.across (Utf8.encode (Number.integerChars n))) 0 rest := by
  have hscan := Numeral.scan_integerChars h n
  have hlength := Numeral.length_ofInteger n
  obtain ⟨b, bs, hbytes, hb⟩ := encode_integerChars n
  rw [hbytes] at hscan hlength ⊢
  -- neither a digit nor a minus is a space or a quotation mark
  have hspace : isSpace b = false ∧ b ≠ 0x22 := by
    rcases hb with rfl | hb
    · decide
    · constructor
      · by_contra hsp
        simp only [Bool.not_eq_false, isSpace, Bool.or_eq_true, decide_eq_true_eq] at hsp
        rcases hsp with ((rfl | rfl) | rfl) | rfl <;> revert hb <;> decide
      · rintro rfl
        revert hb
        decide
  refine tokensFrom_lexeme (.number (.ok (.integer n))) hspace.1 rest ?_ p
  have hfirst : (b = 0x2D || Numeral.isDigit b) = true := by
    rcases hb with rfl | hb
    · rfl
    · rw [hb, Bool.or_true]
  rw [List.cons_append] at hscan
  rw [lexeme, if_neg hspace.2, if_pos hfirst, numberLexeme, hscan]
  simp only [Numeral.value_ofInteger hn, hlength, List.length_cons]
  exact .number

end IndexFs.Json

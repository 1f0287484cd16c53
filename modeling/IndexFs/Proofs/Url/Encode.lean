import IndexFs.Proofs.Utf8
import IndexFs.Url.Encode
import Mathlib.Data.List.Basic

/-!
# What is encoded stays as it is

An encoded text consists of characters that may stand for themselves and of escapes (`mem_encode`). Where
escapes may stand as they are, encoding it once more changes nothing (`stands_of_mem_encode`,
`encode_eq_self`); where their mark is encoded as well, the text can be read back (`decode_encode`).
-/

namespace IndexFs.Url

/-- The characters of escapes are not among those of the set. -/
def EncodeSet.SparesEscapes (set : EncodeSet) : Prop :=
  set '%' = false ∧ ∀ n : Fin 16, set (upperHex n) = false

/-- Escapes stay as they are where only controls are encoded. -/
theorem sparesEscapes_controls : EncodeSet.SparesEscapes controls :=
  ⟨by decide, by decide⟩

/-- Escapes stay as they are in fragments. -/
theorem sparesEscapes_fragmentSet : EncodeSet.SparesEscapes fragmentSet :=
  ⟨by decide, by decide⟩

/-- Escapes stay as they are in paths. -/
theorem sparesEscapes_pathSet : EncodeSet.SparesEscapes pathSet :=
  ⟨by decide, by decide⟩

/-- Escapes stay as they are in user names and passwords. -/
theorem sparesEscapes_userinfoSet : EncodeSet.SparesEscapes userinfoSet :=
  ⟨by decide, by decide⟩

/-- Escapes stay as they are in queries. -/
theorem sparesEscapes_querySet : EncodeSet.SparesEscapes querySet :=
  ⟨by decide, by decide⟩

/-- Escapes stay as they are in the queries of special schemes. -/
theorem sparesEscapes_specialQuerySet : EncodeSet.SparesEscapes specialQuerySet :=
  ⟨by decide, by decide⟩

variable {set : EncodeSet} {c : Char} {cs : List Char}

/-- An escape consists of its mark and of two upper-case digits. -/
theorem mem_encodeByte {b : UInt8} (h : c ∈ encodeByte b) : c = '%' ∨ ∃ n : Fin 16, c = upperHex n := by
  have hb := b.toNat_lt
  rcases List.mem_cons.mp h with rfl | h
  · exact .inl rfl
  · rcases List.mem_pair.mp h with rfl | rfl
    · exact .inr ⟨⟨b.toNat / 16, by omega⟩, rfl⟩
    · exact .inr ⟨⟨b.toNat % 16, by omega⟩, rfl⟩

/-- A character stands for itself only if it is in ASCII and spared by the set; else there are escapes. -/
theorem mem_encodeChar {d : Char} (h : d ∈ encodeChar set c) :
    (d = c ∧ c.toNat < 0x80 ∧ set c = false) ∨ d = '%' ∨ ∃ n : Fin 16, d = upperHex n := by
  unfold encodeChar at h
  split at h
  · next hstands =>
    rw [Bool.and_eq_true, decide_eq_true_eq, Bool.not_eq_true'] at hstands
    exact .inl ⟨List.mem_singleton.mp h, hstands⟩
  · obtain ⟨b, -, hb⟩ := List.mem_flatMap.mp h
    exact .inr (mem_encodeByte hb)

/-- A character of an encoded text is one that may stand for itself, or belongs to an escape. -/
theorem mem_encode (h : c ∈ encode set cs) :
    (c ∈ cs ∧ c.toNat < 0x80 ∧ set c = false) ∨ c = '%' ∨ ∃ n : Fin 16, c = upperHex n := by
  obtain ⟨d, hd, hc⟩ := List.mem_flatMap.mp h
  rcases mem_encodeChar hc with ⟨rfl, hstands⟩ | hescape
  · exact .inl ⟨hd, hstands⟩
  · exact .inr hescape

theorem upperHex_ascii (n : Fin 16) : (upperHex n).toNat < 0x80 := by
  revert n
  decide

/-- An encoded text is in ASCII, whatever the text was. -/
theorem ascii_of_mem_encode (h : c ∈ encode set cs) : c.toNat < 0x80 := by
  rcases mem_encode h with ⟨-, hascii, -⟩ | rfl | ⟨n, rfl⟩
  · exact hascii
  · decide
  · exact upperHex_ascii n

/-- An encoded text has no character of a set that none of those that stand for themselves is in, nor any of
an escape. -/
theorem spared_of_mem_encode {other : EncodeSet} (hother : other.SparesEscapes)
    (hcs : ∀ c ∈ cs, set c = false → other c = false) (h : c ∈ encode set cs) : other c = false := by
  rcases mem_encode h with ⟨hmem, -, hset⟩ | rfl | ⟨n, rfl⟩
  · exact hcs c hmem hset
  · exact hother.1
  · exact hother.2 n

/-- All characters of an encoded text may stand for themselves, where those of escapes may. -/
theorem stands_of_mem_encode (hset : set.SparesEscapes) (h : c ∈ encode set cs) :
    c.toNat < 0x80 ∧ set c = false :=
  ⟨ascii_of_mem_encode h, spared_of_mem_encode hset (fun _ _ hset => hset) h⟩

/-- A text of characters that may stand for themselves stays as it is. -/
theorem encode_eq_self (h : ∀ c ∈ cs, c.toNat < 0x80 ∧ set c = false) : encode set cs = cs := by
  induction cs with
  | nil => rfl
  | cons c cs ih =>
    obtain ⟨hascii, hset⟩ := h c List.mem_cons_self
    have hchar : encodeChar set c = [c] := by
      unfold encodeChar
      rw [hset, decide_eq_true hascii]
      rfl
    rw [encode, List.flatMap_cons, hchar]
    exact congrArg (c :: ·) (ih fun d hd => h d (List.mem_cons_of_mem c hd))

/-- No character is encoded as nothing. -/
theorem encodeChar_ne_nil (set : EncodeSet) (c : Char) : encodeChar set c ≠ [] := by
  unfold encodeChar
  split
  · exact List.cons_ne_nil _ _
  · obtain ⟨b, bs, hbytes⟩ := List.exists_cons_of_ne_nil (Utf8.encodeChar_ne_nil c)
    rw [hbytes]
    exact List.cons_ne_nil _ _

/-- Only the empty text is encoded as the empty text. -/
theorem encode_eq_nil : encode set cs = [] ↔ cs = [] := by
  cases cs with
  | nil => exact iff_of_true rfl rfl
  | cons c cs =>
    refine iff_of_false (fun h => ?_) (List.cons_ne_nil c cs)
    rw [encode, List.flatMap_cons, List.append_eq_nil_iff] at h
    exact encodeChar_ne_nil set c h.1

/-! ## Reading back -/

/-- An escape is read back as its byte, whatever stands behind it. -/
theorem decode_encodeByte (b : UInt8) (rest : List Char) : decode (encodeByte b ++ rest) = b :: decode rest := by
  -- the two digits of a byte are read back one by one
  have hdigit : ∀ n : Fin 16, hexDigit? (upperHex n) = some n := by decide
  have hb := b.toNat_lt
  have hhigh : hexDigit? (upperHex (b.toNat / 16)) = some (b.toNat / 16) := hdigit ⟨b.toNat / 16, by omega⟩
  have hlow : hexDigit? (upperHex (b.toNat % 16)) = some (b.toNat % 16) := hdigit ⟨b.toNat % 16, by omega⟩
  show decode ('%' :: upperHex (b.toNat / 16) :: upperHex (b.toNat % 16) :: rest) = _
  rw [decode, hhigh, hlow]
  dsimp only
  rw [Nat.mul_comm, Nat.div_add_mod, UInt8.ofNat_toNat]

/-- A character is read back as its bytes, where the mark of escapes never stands for itself. -/
theorem decode_encodeChar (hset : set '%' = true) (c : Char) (rest : List Char) :
    decode (encodeChar set c ++ rest) = Utf8.encodeChar c ++ decode rest := by
  unfold encodeChar
  split
  · next hstands =>
    have hc : c ≠ '%' := by
      rintro rfl
      rw [hset] at hstands
      cases hstands
    rw [List.singleton_append, decode]
    exact fun _ _ _ h => absurd h hc
  · -- byte by byte: the character takes one escape for each of its bytes
    induction Utf8.encodeChar c with
    | nil => rfl
    | cons b bytes ih => rw [List.flatMap_cons, List.append_assoc, decode_encodeByte, ih, List.cons_append]

/-- Where the percent sign is encoded too, an encoded text stands for its own bytes. -/
theorem decode_encode (hset : set '%' = true) (cs : List Char) :
    decode (encode set cs) = Utf8.encode cs := by
  induction cs with
  | nil => rfl
  | cons c cs ih =>
    rw [encode, List.flatMap_cons, decode_encodeChar hset]
    exact congrArg (Utf8.encodeChar c ++ ·) ih

/-! ## What a set leaves out -/

/-- A character that a set encodes is not one that it leaves as it is. -/
theorem ne_of_spared {d : Char} (hc : set c = false) (hd : set d = true) : c ≠ d := by
  rintro rfl
  rw [hc] at hd
  cases hd

/-- The set of controls leaves nothing below the space. -/
theorem le_toNat_of_controls (h : controls c = false) : 0x20 ≤ c.toNat := by
  unfold controls at h
  rw [Bool.or_eq_false_iff, decide_eq_false_iff_not] at h
  omega

/-- A character that is neither a control nor the space is a visible one. -/
theorem lt_toNat_of_blank (h : controls c = false) (hblank : c ≠ ' ') : 0x20 < c.toNat := by
  have hle := le_toNat_of_controls h
  have hne : c.toNat ≠ 0x20 := fun heq => hblank (Char.toNat_inj.mp heq)
  omega

/-- Only visible characters stand for themselves in fragments. -/
theorem lt_toNat_of_fragmentSet (h : fragmentSet c = false) : 0x20 < c.toNat := by
  refine lt_toNat_of_blank ?_ (ne_of_spared h (by decide))
  simp only [fragmentSet, Bool.or_eq_false_iff] at h
  exact h.1.1.1.1.1

/-- Only visible characters stand for themselves in paths. -/
theorem lt_toNat_of_pathSet (h : pathSet c = false) : 0x20 < c.toNat := by
  refine lt_toNat_of_fragmentSet ?_
  simp only [pathSet, Bool.or_eq_false_iff] at h
  exact h.1.1.1.1

theorem lt_toNat_of_userinfoSet (h : userinfoSet c = false) : 0x20 < c.toNat := by
  refine lt_toNat_of_pathSet ?_
  simp only [userinfoSet, Bool.or_eq_false_iff] at h
  exact h.1.1.1.1.1.1.1.1.1.1

theorem lt_toNat_of_querySet (h : querySet c = false) : 0x20 < c.toNat := by
  refine lt_toNat_of_blank ?_ (ne_of_spared h (by decide))
  simp only [querySet, Bool.or_eq_false_iff] at h
  exact h.1.1.1.1.1

/-- What stands for itself in the queries of special schemes does so in every query. -/
theorem querySet_of_specialQuerySet (h : specialQuerySet c = false) : querySet c = false := by
  simp only [specialQuerySet, Bool.or_eq_false_iff] at h
  exact h.1

end IndexFs.Url

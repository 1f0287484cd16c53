import IndexFs.Proofs.Base64
import IndexFs.Proofs.FileSystem.Meaning

/-!
# Contents

The content of a file travels as the standard text of its bytes. This text is read as these bytes, and every other
string is refused as a whole (`Read.result_content`): a text that is cut off, padded in another way or written with
other symbols gives no content, not even a part of it.
-/

namespace IndexFs

theorem decodeContent_eq_ok_iff {encoded : String} {bytes : List UInt8} :
    decodeContent (Utf8.ofString encoded) = .ok bytes ↔ encoded = Base64.text bytes := by
  rw [← Base64.ofString_eq_encode_iff, ← Base64.decode_eq_ok_iff]
  unfold decodeContent
  cases Base64.decode (Utf8.ofString encoded) <;> simp [Except.mapError]

/-- Texts that are accepted for the same bytes are the same. -/
theorem decodeContent_injective {encoded encoded' : String} {bytes : List UInt8}
    (h : decodeContent (Utf8.ofString encoded) = .ok bytes)
    (h' : decodeContent (Utf8.ofString encoded') = .ok bytes) : encoded = encoded' := by
  rw [decodeContent_eq_ok_iff.mp h, decodeContent_eq_ok_iff.mp h']

namespace Read

/-- How the question for a content ends: with the bytes of which the string is the text, or with a refusal. -/
theorem result_content_cases (u : Url) (encoded : String) :
    (∃ bytes, encoded = Base64.text bytes ∧
        result ⟨.readFile, u⟩ (.ok (.string encoded)) = .ok (.content bytes)) ∨
      (∀ bytes, encoded ≠ Base64.text bytes) ∧ ∃ f : Base64.Fault,
        result ⟨.readFile, u⟩ (.ok (.string encoded)) = .error (.decode ("invalid base64 content: " ++ f.message)) := by
  have hresult : result ⟨.readFile, u⟩ (.ok (.string encoded)) =
      Value.content <$> decodeContent (Utf8.ofString encoded) := rfl
  rw [hresult]
  -- either the engine reads the text, or it says why not
  cases hread : Base64.decode (Utf8.ofString encoded) with
  | ok bytes =>
    have hcontent : decodeContent (Utf8.ofString encoded) = .ok bytes := by
      rw [decodeContent, hread]
      rfl
    refine .inl ⟨bytes, decodeContent_eq_ok_iff.mp hcontent, ?_⟩
    rw [hcontent]
    rfl
  | error f =>
    have hcontent : decodeContent (Utf8.ofString encoded) =
        .error (.decode ("invalid base64 content: " ++ f.message)) := by
      rw [decodeContent, hread]
      rfl
    refine .inr ⟨?_, f, ?_⟩
    · intro bytes htext
      cases hcontent.symm.trans (decodeContent_eq_ok_iff.mpr htext)
    · rw [hcontent]
      rfl

/-- Contents travel exactly. Bytes have one text in the standard form, it is read as these bytes, and no other string
is; so different strings are never read as the same bytes. As the answer to a question for a content, each string is
read as the bytes of which it is the text, or refused. -/
theorem result_content (u : Url) :
    (∀ bytes text, Base64.IsTextOf text bytes ↔ text = Utf8.ofString (Base64.text bytes)) ∧
      (∀ bytes, decodeContent (Utf8.ofString (Base64.text bytes)) = .ok bytes) ∧
      (∀ (encoded : String) (bytes : List UInt8),
        decodeContent (Utf8.ofString encoded) = .ok bytes ↔ Base64.IsTextOf (Utf8.ofString encoded) bytes) ∧
      (∀ (encoded encoded' : String) (bytes bytes' : List UInt8), encoded ≠ encoded' →
        decodeContent (Utf8.ofString encoded) = .ok bytes → decodeContent (Utf8.ofString encoded') = .ok bytes' →
        bytes ≠ bytes') ∧
      ∀ encoded : String,
        (∃ bytes, Base64.IsTextOf (Utf8.ofString encoded) bytes ∧
          result ⟨.readFile, u⟩ (.ok (.string encoded)) = .ok (.content bytes)) ∨
        (∀ bytes, ¬Base64.IsTextOf (Utf8.ofString encoded) bytes) ∧ ∃ f : Base64.Fault,
          result ⟨.readFile, u⟩ (.ok (.string encoded)) =
            .error (.decode ("invalid base64 content: " ++ f.message)) := by
  -- the strings that spell content are those that it is written as
  have htext (encoded : String) (bytes : List UInt8) :
      Base64.IsTextOf (Utf8.ofString encoded) bytes ↔ encoded = Base64.text bytes := by
    rw [Base64.isTextOf_iff, Base64.ofString_eq_encode_iff]
  refine ⟨?_, ?_, ?_, ?_, ?_⟩
  · intro bytes text
    rw [Base64.isTextOf_iff, Base64.ofString_text]
  · intro bytes
    exact decodeContent_eq_ok_iff.mpr rfl
  · intro encoded bytes
    rw [decodeContent_eq_ok_iff, htext]
  · rintro encoded encoded' bytes _ hne h h' rfl
    exact hne (decodeContent_injective h h')
  · intro encoded
    simp only [htext]
    exact result_content_cases u encoded

/-- Bits that are left over in the last symbol are refused, and so is missing padding. -/
example (u : Url) :
    result ⟨.readFile, u⟩ (.ok (.string "Zh==")) =
        .error (.decode "invalid base64 content: Invalid last symbol 104, offset 1.") ∧
      result ⟨.readFile, u⟩ (.ok (.string "Zg")) = .error (.decode "invalid base64 content: Invalid padding") ∧
      result ⟨.readFile, u⟩ (.ok (.string "Zg==")) = .ok (.content [0x66]) :=
  ⟨rfl, rfl, rfl⟩

end Read

end IndexFs

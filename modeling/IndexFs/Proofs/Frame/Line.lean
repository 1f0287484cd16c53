import IndexFs.Proofs.Frame.Reading
import Mathlib.Data.List.Basic
import Mathlib.Data.List.TakeWhile

/-!
# Lines of a header

A line is blank if it holds nothing but carriage returns. Every other line is a text, and what it gives as the
length, if it gives any, is found behind its first colon (`lengthText?`, `readLine_encode`). A header is read
line by line (`readHeader_ended`, `readHeader_unended`).
-/

namespace IndexFs.Frame

/-! ## The bytes of a line -/

/-- The bytes of a line that holds nothing but carriage returns. -/
def blankLine (returns : Nat) : List UInt8 :=
  List.replicate returns 0x0D ++ [0x0A]

/-- A text that can stand as a line in a header: it is not cut by a line feed, and it is not blank. -/
structure IsHeaderLine (line : List Char) : Prop where
  unbroken : '\n' ∉ line
  visible : ∃ c ∈ line, c ≠ '\r'

/-- The bytes of a line of a header, with its line end. -/
def lineBytes (line : List Char) : List UInt8 :=
  Utf8.encode line ++ [0x0A]

/-- What a line gives as the length, as it is written: the text behind its first colon, if the text in
front of it is `content-length` in capitals or not, both without the blanks around them. -/
def lengthText? (line : List Char) : Option (List Char) :=
  match line.dropWhile (· ≠ ':') with
  | [] => none
  | _ :: value =>
    if isName "content-length" (line.takeWhile (· ≠ ':')) then some (Text.trim value) else none

/-- All that lines give as the length, one after the other. -/
def lengthTexts (lines : List (List Char)) : List (List Char) :=
  lines.filterMap lengthText?

/-- Blanks at the end of a text are trimmed. -/
theorem trim_append_blanks (cs : List Char) {blanks : List Char}
    (h : ∀ c ∈ blanks, Text.isBlank c = true) : Text.trim (cs ++ blanks) = Text.trim cs := by
  have hblanks : blanks.dropWhile Text.isBlank = [] := List.dropWhile_eq_nil_iff.mpr h
  have hreversed : ∀ c ∈ blanks.reverse, Text.isBlank c = true :=
    fun c hc => h c (List.mem_reverse.mp hc)
  simp only [Text.trim, Text.trimBy, List.dropWhile_append]
  by_cases hcs : (cs.dropWhile Text.isBlank).isEmpty = true
  · rw [if_pos hcs, hblanks, List.isEmpty_iff.mp hcs]
  · rw [if_neg hcs, List.reverse_append, List.dropWhile_append_of_pos hreversed]

/-- Carriage returns at the end of a line do not change what it gives as the length. -/
theorem lengthText?_append_returns (text : List Char) {returns : List Char}
    (h : ∀ c ∈ returns, c = '\r') : lengthText? (text ++ returns) = lengthText? text := by
  -- returns are no colons, so that the name of the field ends where it did
  have hcolon : ∀ c ∈ returns, (decide (c ≠ ':')) = true := by
    intro c hc
    rw [h c hc]
    decide
  unfold lengthText?
  rw [List.dropWhile_append]
  cases hdrop : text.dropWhile (· ≠ ':') with
  | nil =>
    rw [List.isEmpty_nil, if_pos rfl, List.dropWhile_eq_nil_iff.mpr hcolon]
  | cons c value =>
    -- the value is trimmed, returns at its end included
    have htake : (text ++ returns).takeWhile (· ≠ ':') = text.takeWhile (· ≠ ':') := by
      rw [List.takeWhile_append, if_neg]
      intro hlength
      have hsplit := congrArg List.length (List.takeWhile_append_dropWhile (p := (· ≠ ':')) (l := text))
      rw [hdrop, List.length_append, List.length_cons] at hsplit
      omega
    have hblank : ∀ c ∈ returns, Text.isBlank c = true := by
      intro c hc
      rw [h c hc]
      decide
    simp only [List.isEmpty_cons, Bool.false_eq_true, if_false, List.cons_append, htake,
      trim_append_blanks value hblank]

/-- A line of a header is a text that ends with something else than a line end, and carriage returns behind
it. Taking off line ends from the whole leaves the text. -/
theorem IsHeaderLine.split {line ends : List Char} (h : IsHeaderLine line) (hends : ∀ c ∈ ends, c = '\n') :
    ∃ text returns : List Char, line = text ++ returns ∧ (∀ c ∈ returns, c = '\r') ∧ text ≠ [] ∧
      ((line ++ ends).reverse.dropWhile fun c => c = '\r' || c = '\n').reverse = text := by
  have hsplit := List.takeWhile_append_dropWhile (p := fun c => decide (c = '\r') || decide (c = '\n'))
    (l := line.reverse)
  refine ⟨(line.reverse.dropWhile fun c => c = '\r' || c = '\n').reverse,
    (line.reverse.takeWhile fun c => c = '\r' || c = '\n').reverse, ?_, ?_, ?_, ?_⟩
  · rw [← List.reverse_append, hsplit, List.reverse_reverse]
  · -- what is taken off are returns, since the line holds no line feed
    intro c hc
    have hmem := List.mem_reverse.mp hc
    have hend := List.all_eq_true.mp List.all_takeWhile c hmem
    simp only [Bool.or_eq_true, decide_eq_true_eq] at hend
    refine hend.resolve_right ?_
    rintro rfl
    exact h.unbroken (List.mem_reverse.mp ((List.takeWhile_sublist _).subset hmem))
  · intro hnil
    obtain ⟨c, hc, hvisible⟩ := h.visible
    have hall := List.dropWhile_eq_nil_iff.mp (List.reverse_eq_nil_iff.mp hnil) c (List.mem_reverse.mpr hc)
    simp only [Bool.or_eq_true, decide_eq_true_eq] at hall
    rcases hall with rfl | rfl
    · exact hvisible rfl
    · exact h.unbroken hc
  · rw [List.reverse_append, List.dropWhile_append_of_pos]
    intro c hc
    rw [hends c (List.mem_reverse.mp hc)]
    decide

/-- What a line of a header is read as, with its line end or without it. -/
theorem readLine_encode {line ends : List Char} (h : IsHeaderLine line) (hends : ∀ c ∈ ends, c = '\n') :
    readLine (Utf8.encode (line ++ ends)) =
      match lengthText? line with
      | none => .ok .other
      | some text =>
        match Decimal.natural text with
        | .ok n => .ok (.length n)
        | .error flaw => .error
          (.protocol ("invalid Content-Length '" ++ String.ofList text ++ "': " ++ flaw.message)) := by
  obtain ⟨text, returns, hline, hreturns, htext, hstrip⟩ := h.split hends
  have hempty : text.isEmpty = false := by simpa using htext
  have hlength : lengthText? line = lengthText? text := by
    rw [hline, lengthText?_append_returns text hreturns]
  rw [hlength]
  simp only [readLine, Utf8.decode_encode, hstrip, hempty, Bool.false_eq_true, if_false, lengthText?]
  -- a line without a colon has no field, and a field by another name is no length
  cases text.dropWhile (· ≠ ':') with
  | nil => rfl
  | cons c value =>
    by_cases hname : isName "content-length" (text.takeWhile (· ≠ ':')) = true
    · cases hnatural : Decimal.natural (Text.trim value) with
      | ok n => simp only [hname, if_true, hnatural]
      | error flaw => simp only [hname, if_true, hnatural]
    · simp only [hname, Bool.false_eq_true, if_false]

theorem lineBytes_eq (line : List Char) : lineBytes line = Utf8.encode (line ++ ['\n']) := by
  rw [Utf8.encode_append]
  rfl

theorem blankLine_eq (returns : Nat) :
    blankLine returns = Utf8.encode (List.replicate returns '\r' ++ ['\n']) := by
  induction returns with
  | zero => rfl
  | succ n ih =>
    show 0x0D :: blankLine n = _
    rw [ih]
    rfl

/-- The bytes that line ends are made of. -/
def IsLineEnd (b : UInt8) : Prop :=
  b = 0x0D ∨ b = 0x0A

theorem isLineEnd_encode_iff {cs : List Char} :
    (∀ b ∈ Utf8.encode cs, IsLineEnd b) ↔ ∀ c ∈ cs, c = '\r' ∨ c = '\n' := by
  constructor
  · intro h c hc
    obtain ⟨b, bs, hbytes⟩ := List.exists_cons_of_ne_nil (Utf8.encodeChar_ne_nil c)
    have hb : b ∈ Utf8.encodeChar c := hbytes ▸ List.mem_cons_self
    rcases h b (List.mem_flatMap.mpr ⟨c, hc, hb⟩) with rfl | rfl
    · exact .inl (Char.toNat_inj.mp (Utf8.toNat_of_mem_encodeChar (by decide) hb))
    · exact .inr (Char.toNat_inj.mp (Utf8.toNat_of_mem_encodeChar (by decide) hb))
  · intro h b hb
    obtain ⟨c, hc, hmem⟩ := List.mem_flatMap.mp hb
    rcases h c hc with rfl | rfl
    · exact .inl (List.mem_singleton.mp hmem)
    · exact .inr (List.mem_singleton.mp hmem)

/-- A line is blank exactly if it holds nothing but carriage returns and line feeds. -/
theorem readLine_eq_blank_iff {l : List UInt8} :
    readLine l = .ok .blank ↔ ∀ b ∈ l, IsLineEnd b := by
  cases hdecode : Utf8.decode l with
  | error f =>
    -- line ends are ASCII, and that is always decoded
    simp only [readLine, hdecode, reduceCtorEq, false_iff]
    intro h
    have hascii : ∀ b ∈ l, b.toNat < 0x80 := by
      intro b hb
      rcases h b hb with rfl | rfl <;> decide
    rw [← Utf8.encode_ofAscii hascii, Utf8.decode_encode] at hdecode
    cases hdecode
  | ok cs =>
    rw [Utf8.decode_eq_ok_iff.mp hdecode, isLineEnd_encode_iff]
    have hempty : (cs.reverse.dropWhile fun c => c = '\r' || c = '\n').reverse.isEmpty = true ↔
        ∀ c ∈ cs, c = '\r' ∨ c = '\n' := by
      simp [List.dropWhile_eq_nil_iff]
    simp only [readLine, Utf8.decode_encode]
    rw [← hempty]
    constructor
    · -- if some text is left, the line is taken for something else
      intro h
      by_contra hvisible
      rw [if_neg hvisible] at h
      split at h
      · cases h
      · split_ifs at h
        · split at h <;> cases h
        · cases h
    · intro h
      rw [if_pos h]

theorem readLine_blankLine (returns : Nat) : readLine (blankLine returns) = .ok .blank := by
  rw [readLine_eq_blank_iff]
  intro b hb
  rcases List.mem_append.mp hb with hb | hb
  · exact .inl (List.eq_of_mem_replicate hb)
  · exact .inr (List.mem_singleton.mp hb)

/-- A line feed is not part of any other character. -/
theorem eq_lineFeed_of_mem_encodeChar {c : Char} (h : 0x0A ∈ Utf8.encodeChar c) : c = '\n' :=
  Char.toNat_inj.mp (Utf8.toNat_of_mem_encodeChar (by decide) h)

theorem lineFeed_mem_encode_iff {line : List Char} : 0x0A ∈ Utf8.encode line ↔ '\n' ∈ line := by
  constructor
  · intro h
    obtain ⟨c, hc, hb⟩ := List.mem_flatMap.mp h
    exact eq_lineFeed_of_mem_encodeChar hb ▸ hc
  · intro h
    exact List.mem_flatMap.mpr ⟨'\n', h, by decide⟩

/-- The line end is the last character of the text that the bytes of a line encode. -/
theorem exists_line_of_encode {l : List UInt8} {cs : List Char} (h : l ++ [0x0A] = Utf8.encode cs) :
    ∃ line, cs = line ++ ['\n'] ∧ l = Utf8.encode line := by
  have hcs : cs ≠ [] := by
    rintro rfl
    simp at h
  obtain ⟨line, c, rfl⟩ : ∃ line c, cs = line ++ [c] :=
    ⟨cs.dropLast, cs.getLast hcs, (List.dropLast_concat_getLast hcs).symm⟩
  rw [Utf8.encode_append, Utf8.encode_cons, Utf8.encode_nil, List.append_nil] at h
  -- the last byte belongs to the last character
  have hlast : (0x0A : UInt8) ∈ Utf8.encodeChar c := by
    have hlasts := congrArg List.getLast? h
    rw [List.getLast?_concat, List.getLast?_append_of_ne_nil _ (Utf8.encodeChar_ne_nil c)] at hlasts
    exact List.mem_of_getLast? hlasts.symm
  have hc := eq_lineFeed_of_mem_encodeChar hlast
  subst hc
  exact ⟨line, rfl, List.append_cancel_right h⟩

/-- The bytes of a line are those of a blank line or of a line of a header, or the line cannot be read. -/
theorem line_cases {l : List UInt8} (hl : 0x0A ∉ l) :
    (∃ returns, l ++ [0x0A] = blankLine returns) ∨
      (∃ line, IsHeaderLine line ∧ l ++ [0x0A] = lineBytes line) ∨
        ∃ e, readLine (l ++ [0x0A]) = .error e := by
  cases hdecode : Utf8.decode (l ++ [0x0A]) with
  | error f =>
    refine .inr (.inr ⟨.io f.message, ?_⟩)
    simp only [readLine, hdecode]
  | ok cs =>
    obtain ⟨line, rfl, rfl⟩ := exists_line_of_encode (Utf8.decode_eq_ok_iff.mp hdecode)
    have hunbroken : '\n' ∉ line := fun hmem => hl (lineFeed_mem_encode_iff.mpr hmem)
    by_cases hvisible : ∃ c ∈ line, c ≠ '\r'
    · exact .inr (.inl ⟨line, ⟨hunbroken, hvisible⟩, rfl⟩)
    · refine .inl ⟨line.length, ?_⟩
      have hreturns : line = List.replicate line.length '\r' := by
        refine List.eq_replicate_iff.mpr ⟨rfl, ?_⟩
        intro c hc
        by_contra hne
        exact hvisible ⟨c, hc, hne⟩
      rw [blankLine_eq, ← hreturns, Utf8.encode_append]
      rfl

/-! ## Reading line by line -/

/-- What holds of bytes without a line feed, and of a line before bytes for which it holds, holds of all
bytes. -/
@[elab_as_elim]
theorem lines_induction {motive : List UInt8 → Prop} (unended : ∀ l, 0x0A ∉ l → motive l)
    (ended : ∀ l rest, 0x0A ∉ l → motive rest → motive (l ++ 0x0A :: rest)) (bs : List UInt8) :
    motive bs := by
  induction hlength : bs.length using Nat.strongRecOn generalizing bs with
  | ind n ih =>
    by_cases hmem : 0x0A ∈ bs
    · obtain ⟨l, rest, rfl, hl⟩ := List.eq_append_cons_of_mem hmem
      refine ended l rest hl (ih rest.length ?_ rest rfl)
      rw [← hlength, List.length_append, List.length_cons]
      omega
    · exact unended bs hmem

/-- A line that has ended is read as a whole. -/
theorem readHeader_ended {l : List UInt8} (hl : 0x0A ∉ l) (ending : Ending) (hd : Header)
    (rest : List UInt8) :
    readHeader ending hd [] (l ++ 0x0A :: rest) =
      match readLine (l ++ [0x0A]) with
      | .error e => .fault e rest
      | .ok .blank => if hd.seen then endHeader ending hd rest else readHeader ending hd [] rest
      | .ok .other => readHeader ending { hd with seen := true } [] rest
      | .ok (.length n) => readHeader ending ⟨some n, true⟩ [] rest := by
  have hwhole : (0x0A :: (l.reverse ++ [])).reverse = l ++ [0x0A] := by simp
  rcases hline : readLine (l ++ [0x0A]) with e | (_ | _ | n) <;>
    simp only [readHeader_line hl, readHeader, if_true, hwhole, hline]

/-- A line without an end is the last one. -/
theorem readHeader_unended {l : List UInt8} (hl : 0x0A ∉ l) (ending : Ending) (hd : Header)
    (line : List UInt8) : readHeader ending hd line l = stopInHeader ending hd (l.reverse ++ line) := by
  induction l generalizing line with
  | nil => rfl
  | cons b l ih =>
    have hb : b ≠ 0x0A := by
      rintro rfl
      exact hl List.mem_cons_self
    rw [readHeader, if_neg hb, ih fun hmem => hl (List.mem_cons_of_mem b hmem), List.reverse_cons,
      List.append_assoc, List.singleton_append]

theorem lineFeed_notMem_returns (returns : Nat) : 0x0A ∉ List.replicate returns (0x0D : UInt8) := by
  intro hmem
  have := List.eq_of_mem_replicate hmem
  revert this
  decide

/-- A blank line ends the header, or is passed over in front of it. -/
theorem readHeader_blankLine (ending : Ending) (hd : Header) (returns : Nat) (rest : List UInt8) :
    readHeader ending hd [] (blankLine returns ++ rest) =
      if hd.seen then endHeader ending hd rest else readHeader ending hd [] rest := by
  have hread := readLine_blankLine returns
  rw [blankLine] at hread
  rw [blankLine, List.append_assoc, List.singleton_append,
    readHeader_ended (lineFeed_notMem_returns returns), hread]

/-- A line of a header is taken for what it gives as the length, or passed over. -/
theorem readHeader_lineBytes {line : List Char} (h : IsHeaderLine line) (ending : Ending) (hd : Header)
    (rest : List UInt8) :
    readHeader ending hd [] (lineBytes line ++ rest) =
      match lengthText? line with
      | none => readHeader ending { hd with seen := true } [] rest
      | some text =>
        match Decimal.natural text with
        | .ok n => readHeader ending ⟨some n, true⟩ [] rest
        | .error flaw => .fault
          (.protocol ("invalid Content-Length '" ++ String.ofList text ++ "': " ++ flaw.message)) rest := by
  have hends : ∀ c ∈ ['\n'], c = '\n' := by simp
  have hread := readLine_encode h hends
  rw [← lineBytes_eq, lineBytes] at hread
  rw [lineBytes, List.append_assoc, List.singleton_append,
    readHeader_ended (mt lineFeed_mem_encode_iff.mp h.unbroken), hread]
  cases lengthText? line with
  | none => rfl
  | some text =>
    dsimp only
    cases Decimal.natural text <;> rfl

end IndexFs.Frame

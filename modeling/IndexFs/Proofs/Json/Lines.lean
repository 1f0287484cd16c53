import IndexFs.Proofs.Json.Typed

/-!
# Printed over several lines

The text of a value over several lines is one of this value: between the tokens there are only blanks
(`spells_lines`). The keys of an object keep their order, whatever it is.
-/

namespace IndexFs.Json

/-! ## Pieces of text -/

/-- A piece of text is cut into tokens of these kinds, wherever it stands. -/
def Cuts (cs : List Char) (kinds : List TokenKind) : Prop :=
  ∀ (p : Pos) (rest : List UInt8), ∃ ts p', ts.map Token.kind = kinds ∧
    tokensFrom p 0 (Utf8.encode cs ++ rest) = ts ++ tokensFrom p' 0 rest

/-- A piece of text is cut into tokens of these kinds wherever it stands, if no number goes on behind it. -/
def CutsBefore (cs : List Char) (kinds : List TokenKind) : Prop :=
  ∀ (p : Pos) (rest : List UInt8), Numeral.Ends rest → ∃ ts p', ts.map Token.kind = kinds ∧
    tokensFrom p 0 (Utf8.encode cs ++ rest) = ts ++ tokensFrom p' 0 rest

variable {cs cs' : List Char} {kinds kinds' : List TokenKind}

/-- A text that is cut in any place is cut before the end of a numeral. -/
theorem Cuts.before (h : Cuts cs kinds) : CutsBefore cs kinds :=
  fun p rest _ => h p rest

/-- A text that must not be followed by a numeral is cut with another behind it that does not go on as one.
-/
theorem CutsBefore.append (h : CutsBefore cs kinds) (h' : Cuts cs' kinds')
    (hends : ∀ rest, Numeral.Ends (Utf8.encode cs' ++ rest)) : Cuts (cs ++ cs') (kinds ++ kinds') := by
  intro p rest
  obtain ⟨ts, p₁, hts, hcut⟩ := h p (Utf8.encode cs' ++ rest) (hends rest)
  obtain ⟨ts', p', hts', hcut'⟩ := h' p₁ rest
  refine ⟨ts ++ ts', p', by rw [List.map_append, hts, hts'], ?_⟩
  rw [Utf8.encode_append, List.append_assoc, hcut, hcut', List.append_assoc]

/-- Two texts are cut one behind the other. -/
theorem Cuts.append (h : Cuts cs kinds) (h' : Cuts cs' kinds') : Cuts (cs ++ cs') (kinds ++ kinds') := by
  intro p rest
  obtain ⟨ts, p₁, hts, hcut⟩ := h p (Utf8.encode cs' ++ rest)
  obtain ⟨ts', p', hts', hcut'⟩ := h' p₁ rest
  refine ⟨ts ++ ts', p', by rw [List.map_append, hts, hts'], ?_⟩
  rw [Utf8.encode_append, List.append_assoc, hcut, hcut', List.append_assoc]

/-- A mark is a token. -/
theorem cuts_mark {c : Char} {b : UInt8} {kind : TokenKind} (hbyte : Utf8.encode [c] = [b])
    (hspace : isSpace b = false) (hmark : ∀ rest, lexeme b rest = .mark kind) : Cuts [c] [kind] := by
  intro p rest
  rw [hbyte, List.singleton_append, tokensFrom_mark hspace rest (hmark rest)]
  exact ⟨[_], _, rfl, rfl⟩

theorem cuts_openBrace : Cuts ['{'] [.openBrace] :=
  cuts_mark rfl rfl fun _ => rfl

theorem cuts_closeBrace : Cuts ['}'] [.closeBrace] :=
  cuts_mark rfl rfl fun _ => rfl

theorem cuts_openBracket : Cuts ['['] [.openBracket] :=
  cuts_mark rfl rfl fun _ => rfl

theorem cuts_closeBracket : Cuts [']'] [.closeBracket] :=
  cuts_mark rfl rfl fun _ => rfl

theorem cuts_colon : Cuts [':'] [.colon] :=
  cuts_mark rfl rfl fun _ => rfl

theorem cuts_comma : Cuts [','] [.comma] :=
  cuts_mark rfl rfl fun _ => rfl

/-- A blank is no token. -/
theorem cuts_blank {c : Char} {b : UInt8} (hbyte : Utf8.encode [c] = [b]) (hspace : isSpace b = true) :
    Cuts [c] [] := by
  intro p rest
  refine ⟨[], p.next b, rfl, ?_⟩
  rw [hbyte, List.singleton_append, tokensFrom]
  simp only [hspace, if_true, List.nil_append]

theorem cuts_space : Cuts [' '] [] :=
  cuts_blank rfl rfl

/-- A new line with its indentation is no token. -/
theorem cuts_newLine (level : Nat) : Cuts (newLine level) [] := by
  have hspaces : ∀ n, Cuts (List.replicate n ' ') [] := by
    intro n
    induction n with
    | zero => exact fun p rest => ⟨[], p, rfl, rfl⟩
    | succ n ih => exact cuts_space.append ih
  have hline : Cuts ['\n'] [] := cuts_blank rfl rfl
  exact hline.append (hspaces (2 * level))

/-- A string is one token. -/
theorem cuts_string (s : String) : Cuts (stringChars s) [.string (.ok s)] := by
  intro p rest
  rw [tokensFrom_stringChars]
  exact ⟨[_], _, rfl, rfl⟩

/-- A literal is one token, whatever stands behind it. -/
theorem cuts_literal {b : UInt8} {bs : List UInt8} {kind : TokenKind} (hbytes : Utf8.encode cs = b :: bs)
    (hspace : isSpace b = false) (h : ∀ rest, lexeme b (bs ++ rest) = .literal kind (bs.length + 1)) :
    Cuts cs [kind] := by
  intro p rest
  rw [hbytes, tokensFrom_lexeme kind hspace rest (h rest ▸ .literal)]
  exact ⟨[_], _, rfl, rfl⟩

/-- An integer is one token, unless a numeral goes on behind it. -/
theorem cuts_integer {n : Int} (h : (Number.integer n).IsInteger) :
    CutsBefore (Number.integerChars n) [.number (.ok (.integer n))] := by
  intro p rest hrest
  rw [tokensFrom_integerChars h hrest]
  exact ⟨[_], _, rfl, rfl⟩

/-! ## Values -/

mutual

/-- Every number in the value is an integer of 64 bits. -/
def Integral : Json → Prop
  | .number n => n.IsInteger
  | .array items => ItemsIntegral items
  | .object members => MembersIntegral members
  | _ => True

/-- The numbers in the items are integers. -/
def ItemsIntegral : List Json → Prop
  | [] => True
  | v :: vs => v.Integral ∧ ItemsIntegral vs

/-- The numbers in the members are integers. -/
def MembersIntegral : List (String × Json) → Prop
  | [] => True
  | (_, v) :: ms => v.Integral ∧ MembersIntegral ms

end

/-- Behind an item, no numeral goes on. -/
theorem ends_moreItemLines (level : Nat) (vs : List Json) (rest : List UInt8) :
    Numeral.Ends (Utf8.encode (moreItemLines level vs) ++ rest) := by
  intro b hb
  cases vs with
  | nil =>
    rw [moreItemLines, newLine] at hb
    cases hb
    decide
  | cons v vs =>
    rw [moreItemLines] at hb
    cases hb
    decide

/-- Behind a member, no numeral goes on. -/
theorem ends_moreMemberLines (level : Nat) (ms : List (String × Json)) (rest : List UInt8) :
    Numeral.Ends (Utf8.encode (moreMemberLines level ms) ++ rest) := by
  intro b hb
  cases ms with
  | nil =>
    rw [moreMemberLines, newLine] at hb
    cases hb
    decide
  | cons m ms =>
    rw [moreMemberLines] at hb
    cases hb
    decide

mutual

/-- The text of a value at a level is cut into the tokens of a tree of this value. -/
theorem cuts_linesAt : ∀ v : Json, v.Integral → ∀ level : Nat,
    ∃ t : Tree, t.json = v ∧ CutsBefore (linesAt level v) t.kinds
  | .null, _, level => by
    refine ⟨.null, by rw [Tree.json], ?_⟩
    rw [linesAt, Tree.kinds]
    have hbytes : Utf8.encode (chars .null) = 0x6E :: [0x75, 0x6C, 0x6C] := rfl
    exact (cuts_literal hbytes rfl fun _ => rfl).before
  | .bool true, _, level => by
    refine ⟨.bool true, by rw [Tree.json], ?_⟩
    rw [linesAt, Tree.kinds]
    have hbytes : Utf8.encode (chars (.bool true)) = 0x74 :: [0x72, 0x75, 0x65] := rfl
    exact (cuts_literal hbytes rfl fun _ => rfl).before
  | .bool false, _, level => by
    refine ⟨.bool false, by rw [Tree.json], ?_⟩
    rw [linesAt, Tree.kinds]
    have hbytes : Utf8.encode (chars (.bool false)) = 0x66 :: [0x61, 0x6C, 0x73, 0x65] := rfl
    exact (cuts_literal hbytes rfl fun _ => rfl).before
  | .number (.integer n), hv, level => by
    refine ⟨.number (.ok (.integer n)), by rw [Tree.json], ?_⟩
    rw [linesAt, chars, Number.chars, Tree.kinds]
    rw [Integral] at hv
    exact cuts_integer hv
  | .number (.float x), hv, level => by
    rw [Integral] at hv
    exact hv.elim
  | .string s, _, level => by
    refine ⟨.string (.ok s), by rw [Tree.json], ?_⟩
    rw [linesAt, chars, Tree.kinds]
    exact (cuts_string s).before
  | .array [], _, level => by
    refine ⟨.array [], by rw [Tree.json, Tree.itemsJson], ?_⟩
    rw [linesAt, Tree.kinds]
    exact (cuts_openBracket.append cuts_closeBracket).before
  | .array (v :: vs), hv, level => by
    rw [Integral, ItemsIntegral] at hv
    -- the first item a level deeper, and then the others, each on a line of its own
    obtain ⟨t, rfl, hfirst⟩ := cuts_linesAt v hv.1 (level + 1)
    obtain ⟨ts, rfl, hmore⟩ := cuts_moreItemLines vs hv.2 level
    refine ⟨.array (t :: ts), by rw [Tree.json, Tree.itemsJson], ?_⟩
    have hitems := hfirst.append hmore (ends_moreItemLines level _)
    have harray := cuts_openBracket.append ((cuts_newLine (level + 1)).append hitems)
    rw [linesAt, Tree.kinds]
    simpa using harray.before
  | .object [], _, level => by
    refine ⟨.object [], by rw [Tree.json, Tree.membersJson?]; rfl, ?_⟩
    rw [linesAt, Tree.kinds]
    exact (cuts_openBrace.append cuts_closeBrace).before
  | .object ((k, v) :: ms), hv, level => by
    rw [Integral, MembersIntegral] at hv
    -- the first value a level deeper, and then the other members, each on a line of its own
    obtain ⟨t, rfl, hfirst⟩ := cuts_linesAt v hv.1 (level + 1)
    obtain ⟨ts, hms, hmore⟩ := cuts_moreMemberLines ms hv.2 level
    refine ⟨.object ((.ok k, t) :: ts), by rw [Tree.json, Tree.membersJson?, hms]; rfl, ?_⟩
    have hmembers := hfirst.append hmore (ends_moreMemberLines level _)
    have hobject := cuts_openBrace.append ((cuts_newLine (level + 1)).append
      ((cuts_string k).append (cuts_colon.append (cuts_space.append hmembers))))
    rw [linesAt, Tree.kinds]
    simpa using hobject.before

/-- The items after the first one. -/
theorem cuts_moreItemLines : ∀ vs : List Json, ItemsIntegral vs → ∀ level : Nat,
    ∃ ts : List Tree, Tree.itemsJson ts = vs ∧ Cuts (moreItemLines level vs) (Tree.moreItemKinds ts)
  | [], _, level => by
    refine ⟨[], by rw [Tree.itemsJson], ?_⟩
    rw [moreItemLines, Tree.moreItemKinds]
    exact (cuts_newLine level).append cuts_closeBracket
  | v :: vs, hvs, level => by
    rw [ItemsIntegral] at hvs
    obtain ⟨t, rfl, hfirst⟩ := cuts_linesAt v hvs.1 (level + 1)
    obtain ⟨ts, rfl, hmore⟩ := cuts_moreItemLines vs hvs.2 level
    refine ⟨t :: ts, by rw [Tree.itemsJson], ?_⟩
    have hitems := hfirst.append hmore (ends_moreItemLines level _)
    have hnext := cuts_comma.append ((cuts_newLine (level + 1)).append hitems)
    rw [moreItemLines, Tree.moreItemKinds]
    simpa using hnext

/-- The members after the first one. -/
theorem cuts_moreMemberLines : ∀ ms : List (String × Json), MembersIntegral ms → ∀ level : Nat,
    ∃ ts, Tree.membersJson? ts = some ms ∧ Cuts (moreMemberLines level ms) (Tree.moreMemberKinds ts)
  | [], _, level => by
    refine ⟨[], by rw [Tree.membersJson?], ?_⟩
    rw [moreMemberLines, Tree.moreMemberKinds]
    exact (cuts_newLine level).append cuts_closeBrace
  | (k, v) :: ms, hms, level => by
    rw [MembersIntegral] at hms
    obtain ⟨t, rfl, hfirst⟩ := cuts_linesAt v hms.1 (level + 1)
    obtain ⟨ts, hts, hmore⟩ := cuts_moreMemberLines ms hms.2 level
    refine ⟨(.ok k, t) :: ts, by rw [Tree.membersJson?, hts]; rfl, ?_⟩
    have hmembers := hfirst.append hmore (ends_moreMemberLines level _)
    have hnext := cuts_comma.append ((cuts_newLine (level + 1)).append
      ((cuts_string k).append (cuts_colon.append (cuts_space.append hmembers))))
    rw [moreMemberLines, Tree.moreMemberKinds]
    simpa using hnext

end

/-- The text of a value over several lines is a text of this value. -/
theorem spells_lines {v : Json} (h : v.Integral) : ∃ t : Tree, t.json = v ∧ Spells (Utf8.ofString v.lines) t := by
  obtain ⟨t, ht, hcuts⟩ := cuts_linesAt v h 0
  obtain ⟨ts, p', hts, hcut⟩ := hcuts .start [] Numeral.ends_nil
  refine ⟨t, ht, ts, tokensFrom p' 0 [], ?_, hts, rfl⟩
  rw [tokens, Utf8.ofString, lines, String.toList_ofList]
  rwa [List.append_nil] at hcut

end IndexFs.Json

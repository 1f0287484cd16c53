import IndexFs.Proofs.Url.Normal

/-!
# Reading the parts of a URL

The text of a URL in its normal form is taken apart at its colon, at the slashes around its authority and at the
marks of its query and its fragment, and each part is read as itself.
-/

namespace IndexFs.Url

/-! ## Query and fragment -/

/-- The text of what comes after the path. -/
def tailChars (query fragment : Option String) : List Char :=
  (match query with
    | none => []
    | some q => '?' :: q.toList) ++
  (match fragment with
    | none => []
    | some f => '#' :: f.toList)

/-- Query and fragment with their marks, as characters. -/
theorem toList_tail (u : Url) : u.tail.toList = tailChars u.query u.fragment := by
  obtain ⟨_, _, _, _, query, fragment⟩ := u
  unfold tail tailChars
  rw [String.toList_append]
  cases query <;> cases fragment <;> simp

variable {special : Bool} {query fragment : Option String}

theorem isPathEnd_head_tailChars : ∀ c ∈ (tailChars query fragment).head?, isPathEnd c = true := by
  intro c hc
  cases query with
  | some q =>
    cases hc
    rfl
  | none =>
    cases fragment with
    | some f =>
      cases hc
      rfl
    | none => cases hc

theorem lt_of_mem_tailChars (h : IsTail special query fragment) {c : Char}
    (hc : c ∈ tailChars query fragment) : 0x20 < c.toNat := by
  rcases List.mem_append.mp hc with hc | hc
  · cases query with
    | none => cases hc
    | some q =>
      rcases List.mem_cons.mp hc with rfl | hc
      · decide
      · exact lt_toNat_of_querySet (querySet_of_tailSet (h.query q rfl c hc).2)
  · cases fragment with
    | none => cases hc
    | some f =>
      rcases List.mem_cons.mp hc with rfl | hc
      · decide
      · exact lt_toNat_of_fragmentSet (h.fragment f rfl c hc).2

theorem splitTail_query (special : Bool) (cs : List Char) :
    splitTail special ('?' :: cs) =
      (some (String.ofList (encode (tailSet special) (cs.takeWhile (· ≠ '#')))),
        match cs.dropWhile (· ≠ '#') with
        | '#' :: f => some (String.ofList (encode fragmentSet f))
        | _ => none) :=
  rfl

theorem tailChars_query (q : String) (fragment : Option String) :
    tailChars (some q) fragment = '?' :: (q.toList ++ tailChars none fragment) :=
  rfl

/-- A query and a fragment are read as themselves: no mark of a fragment stands in a query. -/
theorem splitTail_tailChars (h : IsTail special query fragment) :
    splitTail special (tailChars query fragment) = (query, fragment) := by
  have hfragment : ∀ f, fragment = some f → String.ofList (encode fragmentSet f.toList) = f := by
    rintro f rfl
    rw [encode_eq_self (h.fragment f rfl), String.ofList_toList]
  cases query with
  | none =>
    cases fragment with
    | none => rfl
    | some f => exact congrArg (fun f => (none, some f)) (hfragment f rfl)
  | some q =>
    have hq : ∀ c ∈ q.toList, (decide (c ≠ '#')) = true := fun c hc =>
      decide_eq_true (ne_of_spared (querySet_of_tailSet (h.query q rfl c hc).2) (by decide))
    -- the query ends where the fragment starts, and nowhere else
    have hstop : ∀ c ∈ (tailChars none fragment).head?, (decide (c ≠ '#')) = false := by
      intro c hc
      cases fragment with
      | none => cases hc
      | some f =>
        rw [← Option.some.inj hc]
        rfl
    rw [tailChars_query, splitTail_query, takeWhile_append_stop hq hstop, dropWhile_append_stop hq hstop,
      encode_eq_self (h.query q rfl), String.ofList_toList]
    cases fragment with
    | none => rfl
    | some f => exact congrArg (fun f => (some q, some f)) (hfragment f rfl)

/-- Nothing is written only if there is neither query nor fragment. -/
theorem eq_none_of_tailChars (h : tailChars query fragment = []) : query = none ∧ fragment = none := by
  cases query with
  | some q => cases h
  | none =>
    cases fragment with
    | some f => cases h
    | none => exact ⟨rfl, rfl⟩

/-- A path ends where the query or the fragment starts. -/
theorem takeWhile_path {path : List Char} (hpath : ∀ c ∈ path, isPathEnd c = false) :
    (path ++ tailChars query fragment).takeWhile (!isPathEnd ·) = path :=
  takeWhile_append_stop (fun c hc => by rw [hpath c hc]; rfl)
    fun c hc => by rw [isPathEnd_head_tailChars c hc]; rfl

theorem dropWhile_path {path : List Char} (hpath : ∀ c ∈ path, isPathEnd c = false) :
    (path ++ tailChars query fragment).dropWhile (!isPathEnd ·) = tailChars query fragment :=
  dropWhile_append_stop (fun c hc => by rw [hpath c hc]; rfl)
    fun c hc => by rw [isPathEnd_head_tailChars c hc]; rfl

/-! ## Scheme -/

theorem lt_toNat_of_isSchemeChar {c : Char} (h : isSchemeChar c = true) : 0x20 < c.toNat := by
  simp only [isSchemeChar, Char.isAlphanum, Bool.or_eq_true, decide_eq_true_eq] at h
  rcases h with (((h | h) | rfl) | rfl) | rfl
  · rcases Bool.or_eq_true_iff.mp h with h | h
    · exact Nat.lt_of_lt_of_le (by decide) (isUpper_iff.mp h).1
    · exact Nat.lt_of_lt_of_le (by decide) (isLower_iff.mp h).1
  · simp only [Char.isDigit, Bool.and_eq_true, decide_eq_true_eq, UInt32.le_iff_toNat_le, ge_iff_le] at h
    exact Nat.lt_of_lt_of_le (by decide) h.1
  · decide
  · decide
  · decide

/-- The scheme is read as it is written. -/
theorem splitScheme?_text {scheme : String} (h : IsScheme scheme) (rest : List Char) :
    splitScheme? (scheme.toList ++ ':' :: rest) = some (scheme.toList, rest) :=
  splitScheme?_eq_some_iff.mpr ⟨_, ⟨h.letter, h.chars⟩, rfl, h.lower.symm⟩

/-- What comes after the colon is read by the rules of the scheme. -/
def readRest (scheme : String) (rest : List Char) : Except ParseError Url :=
  match SchemeKind.of scheme with
  | .file => parseFile rest
  | .special => parseWithAuthority scheme (rest.dropWhile SchemeKind.special.isSlash)
  | .plain => parsePlain scheme rest

/-- What comes before the colon of a text is its scheme. -/
theorem parse_text {scheme text : String} {rest : List Char} (h : IsScheme scheme)
    (htext : text.toList = scheme.toList ++ ':' :: rest) (hchars : ∀ c ∈ rest, 0x20 ≤ c.toNat)
    (hlast : ∀ c ∈ rest.getLast?, 0x20 < c.toNat) : parse text = readRest scheme rest := by
  have hclean : clean text.toList = scheme.toList ++ ':' :: rest := by
    rw [htext]
    refine clean_eq_self (fun c hc => ?_) (fun c hc => ?_) fun c hc => ?_
    · -- the text starts with a letter of the scheme
      obtain ⟨d, hd, -⟩ := h.letter
      rw [List.head?_append, Option.mem_def.mp hd] at hc
      rw [← Option.some.inj hc]
      exact lt_toNat_of_isSchemeChar (h.chars d (List.mem_of_head? hd))
    · -- it ends as the rest does, or with the colon when there is no rest
      rw [List.append_cons, List.getLast?_append] at hc
      cases hend : rest.getLast? with
      | some d =>
        rw [hend] at hc
        exact hlast c (hend.trans hc)
      | none =>
        rw [hend, List.getLast?_concat] at hc
        rw [← Option.some.inj hc]
        decide
    · have hle : 0x20 ≤ c.toNat := by
        rcases List.mem_append.mp hc with hc | hc
        · exact Nat.le_of_lt (lt_toNat_of_isSchemeChar (h.chars c hc))
        · rcases List.mem_cons.mp hc with rfl | hc
          · decide
          · exact hchars c hc
      exact ne_tab_or_line_end hle
  unfold parse
  rw [hclean, splitScheme?_text h]
  show readRest (String.ofList scheme.toList) rest = readRest scheme rest
  rw [String.ofList_toList]

/-- A text without blanks and controls is read from its first character to its last. -/
theorem parse_visible {scheme text : String} {rest : List Char} (h : IsScheme scheme)
    (htext : text.toList = scheme.toList ++ ':' :: rest) (hvisible : ∀ c ∈ rest, 0x20 < c.toNat) :
    parse text = readRest scheme rest :=
  parse_text h htext (fun c hc => Nat.le_of_lt (hvisible c hc)) fun c hc => hvisible c (List.mem_of_getLast? hc)

/-! ## Authority and path -/

/-- A path behind an authority is read as itself; a special scheme always has one. -/
theorem pathAfterHost_text {kind : SchemeKind} {names : List String} (hkind : kind ≠ .file)
    (hpath : IsPath kind names) (hfilled : kind.isSpecial = true → names ≠ []) :
    pathAfterHost kind (segmentsText names).toList = names := by
  by_cases hnames : names = []
  · subst hnames
    exact if_neg fun hspecial => hfilled hspecial rfl
  · rw [segmentsText_eq hnames]
    unfold pathAfterHost
    dsimp only
    rw [if_pos (isSlash_slash kind), rawSegments_text hpath hnames, trimFront_of_ne hkind,
      addSegments_eq hpath hnames fun h => hkind h.1, List.nil_append]

/-- What comes after an authority ends it. -/
theorem endsAuthority_head (kind : SchemeKind) (names : List String) :
    ∀ c ∈ ((segmentsText names).toList ++ tailChars query fragment).head?, (!endsAuthority kind c) = false := by
  intro c hc
  unfold endsAuthority
  by_cases hnames : names = []
  · subst hnames
    rw [isPathEnd_head_tailChars c hc, Bool.or_true]
    rfl
  · rw [segmentsText_eq hnames] at hc
    rw [← Option.some.inj hc, isSlash_slash]
    rfl

/-- Authority, path, query and fragment are read as they are written. -/
theorem parseWithAuthority_text {scheme : String} {a : Authority} {names : List String}
    (hkind : SchemeKind.of scheme ≠ .file) (ha : a.IsNormal scheme) (hpath : IsPath (.of scheme) names)
    (hfilled : (SchemeKind.of scheme).isSpecial = true → names ≠ [])
    (htail : IsTail (SchemeKind.of scheme).isSpecial query fragment) :
    parseWithAuthority scheme
        (a.text.toList ++ ((segmentsText names).toList ++ tailChars query fragment)) =
      .ok ⟨scheme, some a, false, .segments names, query, fragment⟩ := by
  have hbefore : ∀ c ∈ a.text.toList, (!endsAuthority (.of scheme) c) = true := fun c hc => by
    rw [(Authority.chars_text ha hc).2]
    rfl
  have hends : ∀ c ∈ (segmentsText names).toList, isPathEnd c = false := fun c hc =>
    (chars_segmentsText hpath hc).2
  unfold parseWithAuthority
  dsimp only
  rw [takeWhile_append_stop hbefore (endsAuthority_head (.of scheme) names),
    dropWhile_append_stop hbefore (endsAuthority_head (.of scheme) names), takeWhile_path hends,
    dropWhile_path hends, splitTail_tailChars htail, Authority.parseAuthority_text ha]
  show Except.ok _ = _
  rw [List.nil_append, pathAfterHost_text hkind hpath hfilled]

/-! ## A path alone -/

/-- Neither a query nor a fragment starts with a slash. -/
theorem head_append_tailChars {path : List Char} (h : ∀ c ∈ path.head?, c ≠ '/') :
    ∀ c ∈ (path ++ tailChars query fragment).head?, c ≠ '/' := by
  cases path with
  | nil =>
    rintro c hc rfl
    exact absurd (isPathEnd_head_tailChars _ hc) (by decide)
  | cons d path => exact h

/-- The first segment is empty, or starts with no slash. -/
theorem head_intercalate {names : List String} (hpath : IsPath .plain names)
    (hstart : startsEmpty names = false) :
    ∀ c ∈ (['/'].intercalate (names.map String.toList)).head?, c ≠ '/' := by
  have hname : ∀ name ∈ names, ∀ c ∈ name.toList.head?, c ≠ '/' := by
    rintro name hname c hc rfl
    exact absurd ((hpath name hname).unsplit _ (List.mem_of_head? hc)) (by decide)
  match names with
  | [] => exact fun _ hc => nomatch hc
  | [name] =>
    rw [List.map_singleton, List.intercalate_singleton]
    exact hname name List.mem_cons_self
  | name :: next :: more =>
    rw [List.map_cons, List.map_cons, List.intercalate_cons_cons]
    have hne : name.toList ≠ [] := fun hnil => by
      rw [String.toList_inj.mp (hnil.trans String.toList_empty.symm)] at hstart
      cases hstart
    intro c hc
    rw [List.append_assoc, List.head?_append_of_ne_nil _ hne] at hc
    exact hname name List.mem_cons_self c hc

theorem parsePlain_rooted (scheme : String) {cs : List Char} (h : ∀ c ∈ cs.head?, c ≠ '/') :
    parsePlain scheme ('/' :: cs) =
      .ok ⟨scheme, none,
        startsEmpty (addSegments .plain [] (rawSegments .plain (cs.takeWhile (!isPathEnd ·)))),
        .segments (addSegments .plain [] (rawSegments .plain (cs.takeWhile (!isPathEnd ·)))),
        (splitTail false (cs.dropWhile (!isPathEnd ·))).1,
        (splitTail false (cs.dropWhile (!isPathEnd ·))).2⟩ := by
  unfold parsePlain
  split
  · next heq =>
    rw [(List.cons.inj heq).2] at h
    exact absurd rfl (h '/' rfl)
  · next heq =>
    cases heq
    rfl
  · next hslash => exact absurd rfl (hslash cs)

theorem parsePlain_verbatim (scheme : String) {cs : List Char} (h : ∀ c ∈ cs.head?, c ≠ '/') :
    parsePlain scheme cs =
      .ok ⟨scheme, none, false, .verbatim (String.ofList (encode controls (cs.takeWhile (!isPathEnd ·)))),
        (splitTail false (cs.dropWhile (!isPathEnd ·))).1,
        (splitTail false (cs.dropWhile (!isPathEnd ·))).2⟩ := by
  unfold parsePlain
  split
  · exact absurd rfl (h '/' rfl)
  · exact absurd rfl (h '/' rfl)
  · rfl

/-- A path that does not start with two slashes is read as itself. -/
theorem parsePlain_unguarded {scheme : String} {names : List String} (hpath : IsPath .plain names)
    (hne : names ≠ []) (hstart : startsEmpty names = false) (htail : IsTail false query fragment) :
    parsePlain scheme ((segmentsText names).toList ++ tailChars query fragment) =
      .ok ⟨scheme, none, false, .segments names, query, fragment⟩ := by
  have hbody := segmentsText_eq hne
  have hends : ∀ c ∈ ['/'].intercalate (names.map String.toList), isPathEnd c = false := fun c hc =>
    (chars_segmentsText hpath (hbody ▸ List.mem_cons_of_mem _ hc)).2
  have hslash : ∀ c ∈ (['/'].intercalate (names.map String.toList) ++ tailChars query fragment).head?,
      c ≠ '/' :=
    head_append_tailChars (head_intercalate hpath hstart)
  rw [hbody, List.cons_append, parsePlain_rooted scheme hslash, takeWhile_path hends, dropWhile_path hends,
    rawSegments_text hpath hne, addSegments_eq hpath hne (by simp), splitTail_tailChars htail,
    List.nil_append, hstart]

/-- The mark in front of a path that starts with two slashes is a segment of one dot. -/
theorem parsePlain_guarded {scheme : String} {names : List String} (hpath : IsPath .plain names)
    (hne : names ≠ []) (htail : IsTail false query fragment) :
    parsePlain scheme ('/' :: '.' :: ((segmentsText names).toList ++ tailChars query fragment)) =
      .ok ⟨scheme, none, startsEmpty names, .segments names, query, fragment⟩ := by
  have hbody := segmentsText_eq hne
  have hends : ∀ c ∈ '.' :: (segmentsText names).toList, isPathEnd c = false := fun c hc => by
    rcases List.mem_cons.mp hc with rfl | hc
    · decide
    · exact (chars_segmentsText hpath hc).2
  -- the dot that guards the path is one segment more when it is read
  have hraw : rawSegments .plain ('.' :: (segmentsText names).toList) = ['.'] :: names.map String.toList := by
    have hdot : ∀ c ∈ ['.'], SchemeKind.isSlash .plain c = false := fun c hc => by
      rw [List.mem_singleton.mp hc]
      rfl
    rw [← rawSegments_text hpath hne, hbody]
    unfold rawSegments
    rw [← List.singleton_append, splitBy_append hdot (isSlash_slash .plain), List.map_cons]
    rfl
  -- and it is dropped again, since it is the segment of the same directory
  have hadd : addSegments .plain [] (['.'] :: names.map String.toList) = names := by
    obtain ⟨name, more, rfl⟩ := List.exists_cons_of_ne_nil hne
    show addSegments .plain [] ((name :: more).map String.toList) = _
    rw [addSegments_eq hpath hne (by simp), List.nil_append]
  have hslash : ∀ c ∈ ('.' :: (segmentsText names).toList ++ tailChars query fragment).head?, c ≠ '/' :=
    fun c hc => by
      rw [← Option.some.inj hc]
      decide
  rw [← List.cons_append, parsePlain_rooted scheme hslash, takeWhile_path hends,
    dropWhile_path hends, hraw, hadd, splitTail_tailChars htail]

/-- A path that is no list of segments is read as it is written. -/
theorem parsePlain_text {scheme text : String} (htext : IsVerbatim text query fragment)
    (htail : IsTail false query fragment) :
    parsePlain scheme (text.toList ++ tailChars query fragment) =
      .ok ⟨scheme, none, false, .verbatim text, query, fragment⟩ := by
  rw [parsePlain_verbatim scheme (head_append_tailChars htext.start), takeWhile_path htext.unended, dropWhile_path htext.unended,
    encode_eq_self htext.stands, String.ofList_toList, splitTail_tailChars htail]

end IndexFs.Url

import IndexFs.Proofs.Url.Authority
import IndexFs.Proofs.Url.Path
import IndexFs.Request

/-!
# The normal form of a URL

What a URL that was read looks like (`IsNormal`), by the rules of its scheme: with an authority, with a path
alone, with a text that is no hierarchy, or as a file (`isNormal_of_parse`).
-/

namespace IndexFs.Url

/-! ## Schemes -/

/-- A scheme in lower case. -/
structure IsScheme (scheme : String) : Prop where
  letter : ∃ c ∈ scheme.toList.head?, c.isAlpha = true
  chars : ∀ c ∈ scheme.toList, isSchemeChar c = true
  lower : Text.lower scheme.toList = scheme.toList

theorem isSchemeChar_of_isAlpha {c : Char} (h : c.isAlpha = true) : isSchemeChar c = true := by
  unfold isSchemeChar Char.isAlphanum
  rw [h]
  rfl

/-- Schemes may be written in lower case. -/
theorem isSchemeChar_toLower {c : Char} (h : isSchemeChar c = true) : isSchemeChar c.toLower = true := by
  by_cases hupper : c.isUpper = true
  · exact isSchemeChar_of_isAlpha (isAlpha_toLower (Bool.or_eq_true_iff.mpr (.inl hupper)))
  · rw [isUpper_iff] at hupper
    rwa [toLower_of_toNat (by omega)]

/-- How a scheme may be spelt: a letter, and then letters, digits and three marks. -/
structure IsSchemeSpelling (cs : List Char) : Prop where
  letter : ∃ c ∈ cs.head?, c.isAlpha = true
  chars : ∀ c ∈ cs, isSchemeChar c = true

/-- The scheme of a text is what stands before its colon, in lower case; it is read where it is spelt like one,
and nowhere else. -/
theorem splitScheme?_eq_some_iff {cs scheme rest : List Char} :
    splitScheme? cs = some (scheme, rest) ↔
      ∃ before, IsSchemeSpelling before ∧ cs = before ++ ':' :: rest ∧ scheme = Text.lower before := by
  constructor
  · intro h
    unfold splitScheme? at h
    split at h
    · cases h
    · next c cs =>
      split at h
      · next hletter =>
        split at h
        · next rest' hdrop =>
          cases h
          -- the spelling is what stands before the colon, which no scheme character is
          refine ⟨(c :: cs).takeWhile isSchemeChar, ⟨⟨c, ?_, hletter⟩, fun d hd => of_mem_takeWhile hd⟩, ?_,
            rfl⟩
          · rw [List.takeWhile_cons_of_pos (isSchemeChar_of_isAlpha hletter)]
            rfl
          · rw [← hdrop, List.takeWhile_append_dropWhile]
        · cases h
      · cases h
  · rintro ⟨before, ⟨⟨c, hc, hletter⟩, hchars⟩, rfl, rfl⟩
    obtain ⟨cs, rfl⟩ := List.head?_eq_some_iff.mp hc
    -- a colon ends the scheme, since it is no character of one
    have hcolon : ∀ d ∈ (':' :: rest).head?, isSchemeChar d = false := fun d hd => by
      rw [← Option.some.inj hd]
      decide
    have htake := takeWhile_append_stop hchars hcolon
    have hdrop := dropWhile_append_stop hchars hcolon
    unfold splitScheme?
    rw [List.cons_append] at htake hdrop ⊢
    dsimp only
    rw [if_pos hletter, hdrop, htake]
    rfl

/-- A scheme in lower case is in its normal form. -/
theorem isScheme_lower {cs : List Char} (h : IsSchemeSpelling cs) : IsScheme (String.ofList (Text.lower cs)) := by
  obtain ⟨⟨c, hc, hletter⟩, hchars⟩ := h
  refine ⟨⟨c.toLower, ?_, ?_⟩, fun d hd => ?_, ?_⟩
  · rw [String.toList_ofList, Text.lower, List.head?_map, Option.mem_def.mp hc]
    rfl
  · exact isAlpha_toLower hletter
  · rw [String.toList_ofList] at hd
    obtain ⟨e, he, rfl⟩ := List.mem_map.mp hd
    exact isSchemeChar_toLower (hchars e he)
  · rw [String.toList_ofList, lower_lower]

/-- What is split off before a colon is a scheme in its normal form. -/
theorem isScheme_of_splitScheme? {cs scheme rest : List Char} (h : splitScheme? cs = some (scheme, rest)) :
    IsScheme (String.ofList scheme) ∧ ∃ before, cs = before ++ ':' :: rest := by
  obtain ⟨before, hspelling, hcs, rfl⟩ := splitScheme?_eq_some_iff.mp h
  exact ⟨isScheme_lower hspelling, before, hcs⟩

/-- Only one scheme is that of files. -/
theorem kind_ne_file {scheme : String} (h : scheme ≠ "file") : SchemeKind.of scheme ≠ .file := by
  unfold SchemeKind.of
  rw [if_neg h]
  split <;> decide

/-! ## Query and fragment -/

/-- The characters that a query encodes. -/
def tailSet (special : Bool) : EncodeSet :=
  if special then specialQuerySet else querySet

/-- Escapes stay as they are in queries, be the scheme special or not. -/
theorem sparesEscapes_tailSet (special : Bool) : (tailSet special).SparesEscapes := by
  cases special
  · exact sparesEscapes_querySet
  · exact sparesEscapes_specialQuerySet

theorem querySet_of_tailSet {special : Bool} {c : Char} (h : tailSet special c = false) :
    querySet c = false := by
  cases special
  · exact h
  · exact querySet_of_specialQuerySet h

/-- A query and a fragment that are kept as they are. -/
structure IsTail (special : Bool) (query fragment : Option String) : Prop where
  query : ∀ q ∈ query, ∀ c ∈ q.toList, c.toNat < 0x80 ∧ tailSet special c = false
  fragment : ∀ f ∈ fragment, ∀ c ∈ f.toList, c.toNat < 0x80 ∧ fragmentSet c = false

/-- A query and a fragment that were read are in their normal form. -/
theorem isTail_splitTail (special : Bool) (cs : List Char) :
    IsTail special (splitTail special cs).1 (splitTail special cs).2 := by
  have hencoded : ∀ (set : EncodeSet) (hset : set.SparesEscapes) (ds : List Char),
      ∀ c ∈ (String.ofList (encode set ds)).toList, c.toNat < 0x80 ∧ set c = false := by
    intro set hset ds c hc
    rw [String.toList_ofList] at hc
    exact stands_of_mem_encode hset hc
  unfold splitTail
  dsimp only
  split
  · refine ⟨fun q hq => ?_, fun f hf => ?_⟩
    · cases hq
      exact hencoded _ (sparesEscapes_tailSet special) _
    · dsimp only at hf
      split at hf
      · cases hf
        exact hencoded _ sparesEscapes_fragmentSet _
      · cases hf
  · refine ⟨nofun, fun f hf => ?_⟩
    dsimp only at hf
    split at hf
    · cases hf
      exact hencoded _ sparesEscapes_fragmentSet _
    · cases hf

/-- Where neither a query nor a fragment was read, there is none. -/
theorem eq_nil_of_splitTail {special : Bool} {cs : List Char} (hstart : ∀ c ∈ cs.head?, isPathEnd c = true)
    (hquery : (splitTail special cs).1 = none) (hfragment : (splitTail special cs).2 = none) : cs = [] := by
  cases cs with
  | nil => rfl
  | cons c cs =>
    have hend := hstart c rfl
    unfold isPathEnd at hend
    rw [Bool.or_eq_true, decide_eq_true_eq, decide_eq_true_eq] at hend
    rcases hend with rfl | rfl
    · cases hquery
    · cases hfragment

/-! ## Texts that are no hierarchy -/

/-- A text that is kept in the place of a path. -/
structure IsVerbatim (text : String) (query fragment : Option String) : Prop where
  stands : ∀ c ∈ text.toList, c.toNat < 0x80 ∧ controls c = false
  unended : ∀ c ∈ text.toList, isPathEnd c = false
  start : ∀ c ∈ text.toList.head?, c ≠ '/'
  /-- Where nothing follows it, it ends with no blank. -/
  last : query = none → fragment = none → ∀ c ∈ text.toList.getLast?, 0x20 < c.toNat

/-- An encoded text starts as the text does, or with an escape. -/
theorem head?_encode {set : EncodeSet} {cs : List Char} {d : Char} (h : d ∈ (encode set cs).head?) :
    d ∈ cs.head? ∨ d = '%' := by
  cases cs with
  | nil => cases h
  | cons c cs =>
    rw [encode, List.flatMap_cons] at h
    unfold encodeChar at h
    split at h
    · exact .inl h
    · obtain ⟨b, bs, hbytes⟩ := List.exists_cons_of_ne_nil (Utf8.encodeChar_ne_nil c)
      rw [hbytes] at h
      exact .inr (Option.some.inj h).symm

/-- An encoded text ends with a visible character if the text does. -/
theorem lt_of_getLast?_encode {set : EncodeSet} {cs : List Char}
    (h : ∀ c ∈ cs.getLast?, 0x20 < c.toNat) : ∀ d ∈ (encode set cs).getLast?, 0x20 < d.toNat := by
  have hhex : ∀ n : Fin 16, 0x20 < (upperHex n).toNat := by decide
  rcases List.eq_nil_or_concat' cs with rfl | ⟨before, c, rfl⟩
  · exact fun _ hd => nomatch hd
  · intro d hd
    have hmem : d ∈ encodeChar set c := by
      rw [encode, List.flatMap_append, List.flatMap_singleton, List.getLast?_append_of_ne_nil _
        (encodeChar_ne_nil set c)] at hd
      exact List.mem_of_getLast? hd
    rcases mem_encodeChar hmem with ⟨rfl, -⟩ | rfl | ⟨n, rfl⟩
    · exact h d List.getLast?_concat
    · decide
    · exact hhex n

/-! ## URLs -/

/-- The host of a file, empty where there is none. -/
def IsFileHost (host : String) : Prop :=
  host = "" ∨ IsHost true host.toList ∧ host ≠ "" ∧ host ≠ "localhost"

/-- The path of a file does not start with an empty segment that is not its only one. -/
def IsTrimmed (names : List String) : Prop :=
  names = [""] ∨ ∃ name ∈ names.head?, name ≠ ""

/-- A URL in its normal form. -/
inductive IsNormal : Url → Prop where
  /-- Behind an authority. -/
  | hosted {scheme : String} {a : Authority} {names : List String} {query fragment : Option String}
      (hscheme : IsScheme scheme) (hkind : SchemeKind.of scheme ≠ .file) (ha : a.IsNormal scheme)
      (hpath : IsPath (.of scheme) names)
      (hfilled : (SchemeKind.of scheme).isSpecial = true → names ≠ [])
      (htail : IsTail (SchemeKind.of scheme).isSpecial query fragment) :
      IsNormal ⟨scheme, some a, false, .segments names, query, fragment⟩
  /-- A path alone. -/
  | rooted {scheme : String} {names : List String} {query fragment : Option String}
      (hscheme : IsScheme scheme) (hkind : SchemeKind.of scheme = .plain) (hpath : IsPath .plain names)
      (hne : names ≠ []) (htail : IsTail false query fragment) :
      IsNormal ⟨scheme, none, startsEmpty names, .segments names, query, fragment⟩
  /-- No hierarchy. -/
  | verbatim {scheme text : String} {query fragment : Option String} (hscheme : IsScheme scheme)
      (hkind : SchemeKind.of scheme = .plain) (htext : IsVerbatim text query fragment)
      (htail : IsTail false query fragment) :
      IsNormal ⟨scheme, none, false, .verbatim text, query, fragment⟩
  | file {host : String} {names : List String} {query fragment : Option String} (hhost : IsFileHost host)
      (hpath : IsPath .file names) (htrimmed : IsTrimmed names) (htail : IsTail true query fragment) :
      IsNormal ⟨"file", some ⟨"", "", host, none⟩, false, .segments names, query, fragment⟩

/-- Only paths of files are trimmed in front. -/
theorem trimFront_of_ne {kind : SchemeKind} (hkind : kind ≠ .file) (names : List String) :
    trimFront kind names = names :=
  if_neg hkind

/-- The path behind a host is one, and is not empty if the scheme is special. -/
theorem isPath_pathAfterHost {kind : SchemeKind} (hkind : kind ≠ .file) (cs : List Char) :
    IsPath kind (pathAfterHost kind cs) ∧ (kind.isSpecial = true → pathAfterHost kind cs ≠ []) := by
  unfold pathAfterHost
  split
  · split
    · exact ⟨isPath_singleton kind, fun _ => List.cons_ne_nil _ _⟩
    · next hspecial => exact ⟨isPath_nil kind, fun h => absurd h hspecial⟩
  · rw [trimFront_of_ne hkind]
    obtain ⟨hpath, hne⟩ := isPath_read kind _
    exact ⟨hpath, fun _ => hne⟩

/-- A URL that was read with an authority is in its normal form. -/
theorem isNormal_of_parseWithAuthority {scheme : String} {cs : List Char} {u : Url}
    (hscheme : IsScheme scheme) (hkind : SchemeKind.of scheme ≠ .file)
    (h : parseWithAuthority scheme cs = .ok u) : IsNormal u := by
  unfold parseWithAuthority at h
  obtain ⟨⟨a, start⟩, ha, h⟩ := ok_of_bind h
  cases h
  obtain ⟨hpath, hfilled⟩ := isPath_pathAfterHost hkind _
  exact .hosted hscheme hkind (isNormal_of_parseAuthority ha) hpath hfilled (isTail_splitTail _ _)

/-- A path that was kept as it is may be kept so again. -/
theorem isVerbatim_read {cs : List Char} (hstart : ∀ c ∈ cs.head?, c ≠ '/')
    (hlast : ∀ c ∈ cs.getLast?, 0x20 < c.toNat) :
    IsVerbatim (String.ofList (encode controls (cs.takeWhile (!isPathEnd ·))))
      (splitTail false (cs.dropWhile (!isPathEnd ·))).1
      (splitTail false (cs.dropWhile (!isPathEnd ·))).2 where
  stands c hc := by
    rw [String.toList_ofList] at hc
    exact stands_of_mem_encode sparesEscapes_controls hc
  unended c hc := by
    rw [String.toList_ofList] at hc
    refine spared_of_mem_encode ⟨by decide, by decide⟩ (fun d hd _ => ?_) hc
    simpa using of_mem_takeWhile hd
  start c hc := by
    rw [String.toList_ofList] at hc
    rcases head?_encode hc with hc | rfl
    · rw [List.head?_takeWhile] at hc
      exact hstart c (Option.filter_eq_some_iff.mp hc).1
    · decide
  -- a path at the end of the text ends as the text does, which is clean of blanks
  last hquery hfragment := by
    have hnil : cs.dropWhile (!isPathEnd ·) = [] := by
      refine eq_nil_of_splitTail (fun c hc => ?_) hquery hfragment
      have hstop := List.head?_dropWhile_not (fun c => !isPathEnd c) cs
      rw [Option.mem_def.mp hc] at hstop
      simpa using hstop
    have hwhole : cs.takeWhile (!isPathEnd ·) = cs := by
      have hall := List.takeWhile_append_dropWhile (p := (!isPathEnd ·)) (l := cs)
      rwa [hnil, List.append_nil] at hall
    rw [String.toList_ofList, hwhole]
    exact lt_of_getLast?_encode hlast

/-- A URL of no special scheme that was read is in its normal form. -/
theorem isNormal_of_parsePlain {scheme : String} {cs : List Char} {u : Url} (hscheme : IsScheme scheme)
    (hkind : SchemeKind.of scheme = .plain) (hlast : ∀ c ∈ cs.getLast?, 0x20 < c.toNat)
    (h : parsePlain scheme cs = .ok u) : IsNormal u := by
  unfold parsePlain at h
  split at h
  · exact isNormal_of_parseWithAuthority hscheme (by rw [hkind]; decide) h
  · cases h
    obtain ⟨hpath, hne⟩ := isPath_read .plain _
    exact .rooted hscheme hkind hpath hne (isTail_splitTail false _)
  · next hslash =>
    cases h
    refine .verbatim hscheme hkind (isVerbatim_read (fun c hc => ?_) hlast) (isTail_splitTail false _)
    rintro rfl
    obtain ⟨rest, hrest⟩ := List.head?_eq_some_iff.mp hc
    exact hslash rest hrest

/-! ## Files -/

/-- A path that was trimmed in front is. -/
theorem isTrimmed_trimFront (names : List String) : IsTrimmed (trimFront .file names) := by
  unfold trimFront
  rw [if_pos rfl]
  split
  · exact .inl rfl
  · next hne =>
    obtain ⟨name, rest, hnames⟩ := List.exists_cons_of_ne_nil hne
    refine .inr ⟨name, by rw [hnames]; rfl, ?_⟩
    have hstop := List.head?_dropWhile_not (fun name : String => decide (name = "")) names
    rw [hnames] at hstop
    exact of_decide_eq_false hstop

/-- To trim a path in front leaves it one. -/
theorem isPath_trimFront {kind : SchemeKind} {names : List String} (h : IsPath kind names) :
    IsPath kind (trimFront kind names) := by
  unfold trimFront
  split
  · split
    · exact isPath_singleton kind
    · exact h.mono (List.dropWhile_sublist _).subset
  · exact h

/-- The host of a file that was read. -/
theorem isFileHost_of_fileHost {cs : List Char} {host : Option String} (h : fileHost cs = .ok host) :
    IsFileHost (host.getD "") := by
  unfold fileHost at h
  split at h
  · cases h
    exact .inl rfl
  · obtain ⟨name, hname, h⟩ := ok_of_bind h
    cases h
    split
    · exact .inl rfl
    · next hother =>
      obtain ⟨hhost, hne⟩ := isHost_of_specialHost hname
      refine .inr ⟨?_, fun hempty => hne ?_, fun hlocal => hother ?_⟩
      · rw [Option.getD_some, String.toList_ofList]
        exact hhost
      · rw [← String.toList_ofList (l := name), ← Option.getD_some (a := String.ofList name) (b := ""), hempty]
        rfl
      · rw [← String.toList_ofList (l := name), ← Option.getD_some (a := String.ofList name) (b := ""), hlocal]

/-- The URL of a file whose host and path were read. -/
theorem isNormal_fileUrl {host : Option String} (hhost : IsFileHost (host.getD "")) (path tail : List Char) :
    IsNormal (fileUrl host (rawSegments .file path) tail) := by
  have hkept : IsFileHost ((if bringsDrive .file [] (rawSegments .file path) then none else host).getD "") := by
    split
    · exact .inl rfl
    · exact hhost
  exact .file hkept (isPath_trimFront (isPath_read .file path).1) (isTrimmed_trimFront _)
    (isTail_splitTail true tail)

/-- A URL of a file that was read is in its normal form. -/
theorem isNormal_of_parseFile {cs : List Char} {u : Url} (h : parseFile cs = .ok u) : IsNormal u := by
  have hnone : IsFileHost ((none : Option String).getD "") := .inl rfl
  unfold parseFile at h
  dsimp only at h
  split at h
  · -- two slashes open a host, one slash a path, and everything else is a path without one
    split at h
    · split at h
      · cases h
        exact isNormal_fileUrl hnone _ _
      · obtain ⟨host, hhost, h⟩ := ok_of_bind h
        have hhost' := isFileHost_of_fileHost hhost
        cases host with
        | none =>
          cases h
          exact isNormal_fileUrl hnone _ _
        | some host =>
          cases h
          exact isNormal_fileUrl hhost' _ _
    · split at h
      · cases h
        exact isNormal_fileUrl hnone _ _
      · cases h
        exact isNormal_fileUrl hnone _ _
  · cases h
    exact isNormal_fileUrl hnone _ _
  · cases h
    exact isNormal_fileUrl hnone _ _

/-- What is read is in its normal form. -/
theorem isNormal_of_parse {text : String} {u : Url} (h : parse text = .ok u) : IsNormal u := by
  have hclean := lt_of_getLast?_clean text.toList
  unfold parse at h
  generalize clean text.toList = cs at h hclean
  cases hsplit : splitScheme? cs with
  | none =>
    rw [hsplit] at h
    cases h
  | some parts =>
    obtain ⟨scheme, rest⟩ := parts
    obtain ⟨hscheme, before, rfl⟩ := isScheme_of_splitScheme? hsplit
    rw [hsplit] at h
    dsimp only at h
    -- the rest ends as the whole text does
    have hlast : ∀ c ∈ rest.getLast?, 0x20 < c.toNat := by
      intro c hc
      refine hclean c ?_
      rw [List.append_cons, List.getLast?_append, Option.mem_def.mp hc]
      rfl
    cases hkind : SchemeKind.of (String.ofList scheme) with
    | file =>
      rw [hkind] at h
      exact isNormal_of_parseFile h
    | special =>
      rw [hkind] at h
      exact isNormal_of_parseWithAuthority hscheme (by rw [hkind]; decide) h
    | plain =>
      rw [hkind] at h
      exact isNormal_of_parsePlain hscheme hkind hlast h

/-- Every URL that was read is in its normal form. -/
theorem isNormal_of_ofRemote {text : String} {u : Url} (h : ofRemote text = .ok u) : IsNormal u := by
  unfold ofRemote at h
  cases hparse : parse text with
  | error e =>
    rw [hparse] at h
    cases h
  | ok v =>
    rw [hparse] at h
    cases h
    exact isNormal_of_parse hparse

end IndexFs.Url

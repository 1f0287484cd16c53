import IndexFs.Proofs.Url.Drive

/-!
# Reading the text of a URL

A URL that was read and is read again from its text is the same URL (`ofRemote_toRemote`), but for a drive
directly below the root of another host.
-/

namespace IndexFs.Url

variable {special : Bool} {query fragment : Option String}

/-! ## The whole text -/

/-- The parts of a text of a URL, one behind the other. -/
theorem toList_text (u : Url) :
    u.text.toList = u.scheme.toList ++ ':' ::
      ((match u.authority with
          | none => []
          | some a => '/' :: '/' :: a.text.toList) ++
        ((if u.guarded then ['/', '.'] else []) ++ (u.path.text.toList ++ tailChars u.query u.fragment))) := by
  unfold text head
  rw [String.toList_append, String.toList_append, String.toList_append, String.toList_append,
    String.toList_append, toList_tail]
  cases u.authority <;> cases u.guarded <;> simp

/-- A path and what stands behind it have visible characters only. -/
theorem lt_of_mem_path {kind : SchemeKind} {names : List String} (hpath : IsPath kind names)
    (htail : IsTail special query fragment) {c : Char}
    (hc : c ∈ (segmentsText names).toList ++ tailChars query fragment) : 0x20 < c.toNat :=
  (List.mem_append.mp hc).elim (fun hc => (chars_segmentsText hpath hc).1) (lt_of_mem_tailChars htail)

/-- What stands behind a scheme with an authority has visible characters only. -/
theorem lt_of_mem_behind {kind : SchemeKind} {front : List Char} {names : List String}
    (hfront : ∀ c ∈ front, 0x20 < c.toNat) (hpath : IsPath kind names) (htail : IsTail special query fragment) :
    ∀ c ∈ '/' :: '/' :: (front ++ ((segmentsText names).toList ++ tailChars query fragment)), 0x20 < c.toNat := by
  intro c hc
  rcases List.mem_cons.mp hc with rfl | hc
  · decide
  · rcases List.mem_cons.mp hc with rfl | hc
    · decide
    · exact (List.mem_append.mp hc).elim (hfront c) (lt_of_mem_path hpath htail)

/-- The two slashes in front of an authority are dropped, and nothing else. -/
theorem parse_hosted {scheme : String} {a : Authority} {names : List String} (hscheme : IsScheme scheme)
    (hkind : SchemeKind.of scheme ≠ .file) (ha : a.IsNormal scheme) (hpath : IsPath (.of scheme) names)
    (hfilled : (SchemeKind.of scheme).isSpecial = true → names ≠ [])
    (htail : IsTail (SchemeKind.of scheme).isSpecial query fragment) {text : String}
    (htext : text.toList = scheme.toList ++ ':' :: '/' :: '/' ::
      (a.text.toList ++ ((segmentsText names).toList ++ tailChars query fragment))) :
    parse text = .ok ⟨scheme, some a, false, .segments names, query, fragment⟩ := by
  have hread := parseWithAuthority_text hkind ha hpath hfilled htail
  rw [parse_visible hscheme htext (lt_of_mem_behind (fun c hc => (Authority.chars_text ha hc).1) hpath htail)]
  unfold readRest
  cases hof : SchemeKind.of scheme with
  | file => exact absurd hof hkind
  | plain => exact hread
  | special =>
    -- a special scheme takes every slash for one of those before the host, which starts with none
    have hne : a.text.toList ≠ [] := Authority.text_ne_nil ha (by rw [hof]; rfl)
    have hstart : ∀ c ∈ (a.text.toList ++ ((segmentsText names).toList ++ tailChars query fragment)).head?,
        SchemeKind.special.isSlash c = false := by
      intro c hc
      rw [List.head?_append_of_ne_nil _ hne] at hc
      have hends := (Authority.chars_text ha (List.mem_of_head? hc)).2
      rw [hof] at hends
      exact (Bool.or_eq_false_iff.mp hends).1
    have hslashes : ∀ c ∈ ['/', '/'], SchemeKind.special.isSlash c = true := by
      intro c hc
      rcases List.mem_pair.mp hc with rfl | rfl <;> rfl
    exact (congrArg (parseWithAuthority scheme) (dropWhile_append_stop hslashes hstart)).trans hread

/-- A URL with a path of segments and no authority is read back. -/
theorem parse_rooted {scheme : String} {names : List String} (hscheme : IsScheme scheme)
    (hkind : SchemeKind.of scheme = .plain) (hpath : IsPath .plain names) (hne : names ≠ [])
    (htail : IsTail false query fragment) {text : String}
    (htext : text.toList = scheme.toList ++ ':' ::
      ((if startsEmpty names then ['/', '.'] else []) ++
        ((segmentsText names).toList ++ tailChars query fragment))) :
    parse text = .ok ⟨scheme, none, startsEmpty names, .segments names, query, fragment⟩ := by
  have hmark : ∀ c ∈ (if startsEmpty names then ['/', '.'] else []), 0x20 < c.toNat := by
    split
    · intro c hc
      rcases List.mem_pair.mp hc with rfl | rfl <;> decide
    · exact fun _ hc => nomatch hc
  have hvisible := fun c hc => (List.mem_append.mp hc).elim (hmark c) (lt_of_mem_path hpath htail)
  rw [parse_visible hscheme htext hvisible, readRest, hkind]
  cases hstart : startsEmpty names with
  | false => exact parsePlain_unguarded hpath hne hstart htail
  | true => exact (parsePlain_guarded hpath hne htail).trans (by rw [hstart])

/-- A URL with a path that is kept as it is is read back. -/
theorem parse_verbatim {scheme kept : String} (hscheme : IsScheme scheme)
    (hkind : SchemeKind.of scheme = .plain) (hkept : IsVerbatim kept query fragment)
    (htail : IsTail false query fragment) {text : String}
    (htext : text.toList = scheme.toList ++ ':' :: (kept.toList ++ tailChars query fragment)) :
    parse text = .ok ⟨scheme, none, false, .verbatim kept, query, fragment⟩ := by
  have hchars : ∀ c ∈ kept.toList ++ tailChars query fragment, 0x20 ≤ c.toNat := fun c hc =>
    (List.mem_append.mp hc).elim (fun hc => le_toNat_of_controls (hkept.stands c hc).2)
      fun hc => Nat.le_of_lt (lt_of_mem_tailChars htail hc)
  -- blanks may stand inside the text, but not at its end
  have hlast : ∀ c ∈ (kept.toList ++ tailChars query fragment).getLast?, 0x20 < c.toNat := by
    intro c hc
    rw [List.getLast?_append] at hc
    cases hend : (tailChars query fragment).getLast? with
    | some d =>
      rw [hend] at hc
      exact lt_of_mem_tailChars htail (List.mem_of_getLast? (hend.trans hc))
    | none =>
      rw [hend] at hc
      obtain ⟨hquery, hfragment⟩ := eq_none_of_tailChars (List.getLast?_eq_none_iff.mp hend)
      exact hkept.last hquery hfragment c hc
  rw [parse_text hscheme htext hchars hlast, readRest, hkind]
  exact parsePlain_text hkept htail

theorem isScheme_file : IsScheme "file" where
  letter := ⟨'f', rfl, rfl⟩
  chars := List.all_eq_true.mp (show "file".toList.all isSchemeChar = true by decide)
  lower := by decide

/-- A URL of a file is read back, but for a drive behind a host, which loses the host. -/
theorem parse_file {host : String} {names : List String} (hhost : IsFileHost host) (hpath : IsPath .file names)
    (htrimmed : IsTrimmed names) (htail : IsTail true query fragment) {u : Url}
    (hu : u = ⟨"file", some ⟨"", "", host, none⟩, false, .segments names, query, fragment⟩) {text : String}
    (htext : text.toList = "file".toList ++ ':' :: '/' :: '/' ::
      (host.toList ++ ((segmentsText names).toList ++ tailChars query fragment))) :
    parse text = .ok (if u.hasHostedDrive then u.withLocalDrive else u) := by
  have hvisible : ∀ c ∈ host.toList, 0x20 < c.toNat := by
    rcases hhost with rfl | ⟨hhost, -, -⟩
    · exact fun _ hc => nomatch hc
    · exact fun c hc => (hhost.chars c hc).visible
  rw [parse_visible isScheme_file htext (lt_of_mem_behind hvisible hpath htail)]
  exact parseFile_text hhost hpath htrimmed htail hu

theorem ne_file {scheme : String} (hkind : SchemeKind.of scheme ≠ .file) : scheme ≠ "file" := by
  rintro rfl
  exact hkind rfl

/-- Only URLs of files can have a drive behind a host. -/
theorem hasHostedDrive_of_ne (u : Url) (h : u.scheme ≠ "file") : u.hasHostedDrive = false := by
  unfold hasHostedDrive
  split
  · rw [decide_eq_false h, Bool.false_and, Bool.false_and]
  · rfl

/-- The text of a URL in its normal form is read as that URL, but for a drive of another host. -/
theorem parse_text_of_isNormal {u : Url} (h : IsNormal u) :
    parse u.text = .ok (if u.hasHostedDrive then u.withLocalDrive else u) := by
  have htext := toList_text u
  cases h with
  | hosted hscheme hkind ha hpath hfilled htail =>
    rw [parse_hosted hscheme hkind ha hpath hfilled htail htext, hasHostedDrive_of_ne _ (ne_file hkind)]
    rfl
  | rooted hscheme hkind hpath hne htail => exact parse_rooted hscheme hkind hpath hne htail htext
  | verbatim hscheme hkind hkept htail => exact parse_verbatim hscheme hkind hkept htail htext
  | file hhost hpath htrimmed htail =>
    refine parse_file hhost hpath htrimmed htail rfl ?_
    rw [htext]
    dsimp only
    rw [Authority.text_of_unnamed rfl rfl, Authority.portText_none rfl, List.append_nil]
    rfl

/-- A URL that loses its host is another one. -/
theorem withLocalDrive_ne {u : Url} (h : u.hasHostedDrive = true) : u.withLocalDrive ≠ u := by
  intro heq
  unfold hasHostedDrive at h
  unfold withLocalDrive at heq
  split at h
  · next a name names ha hp =>
    rw [hp] at heq
    have hauthority := congrArg Url.authority heq
    rw [ha] at hauthority
    have hhost := congrArg (Option.map Authority.host) hauthority
    rw [Bool.and_eq_true, Bool.and_eq_true, decide_eq_true_eq] at h
    exact of_decide_eq_true h.1.2 (Option.some.inj hhost).symm
  · cases h

/-- The text of a URL that was read is read as the same URL, but for a drive of another host: the text of
such a URL is read as the drive of this machine, which is another URL. -/
theorem ofRemote_toRemote {text : String} {u : Url} (h : ofRemote text = .ok u) :
    ofRemote u.toRemote = .ok (if u.hasHostedDrive then u.withLocalDrive else u) ∧
      (ofRemote u.toRemote = .ok u ↔ u.hasHostedDrive = false) := by
  have hread : ofRemote u.toRemote = .ok (if u.hasHostedDrive then u.withLocalDrive else u) := by
    unfold ofRemote toRemote
    rw [parse_text_of_isNormal (isNormal_of_ofRemote h)]
    rfl
  refine ⟨hread, ?_⟩
  rw [hread]
  cases hdrive : u.hasHostedDrive with
  | false => exact iff_of_true rfl rfl
  | true => exact iff_of_false (fun heq => withLocalDrive_ne hdrive (Except.ok.inj heq)) (by simp)

theorem ofRemote_toRemote_address :
    ofRemote "LSIF://u@[::0:1]:080/a/../my file#x" =
        .ok ⟨"lsif", some ⟨"u", "", "[::1]", some 80⟩, false, .segments ["my%20file"], none, some "x"⟩ ∧
      ofRemote "lsif://u@[::1]:80/my%20file#x" =
        .ok ⟨"lsif", some ⟨"u", "", "[::1]", some 80⟩, false, .segments ["my%20file"], none, some "x"⟩ := by
  have hread : ofRemote "LSIF://u@[::0:1]:080/a/../my file#x" =
      .ok ⟨"lsif", some ⟨"u", "", "[::1]", some 80⟩, false, .segments ["my%20file"], none, some "x"⟩ := by
    decide +kernel
  exact ⟨hread, (ofRemote_toRemote hread).2.mpr rfl⟩

/-- The host of a drive is lost on the way: what is read back is the drive of this machine. -/
theorem hosted_drive_lost :
    ∃ u v, ofRemote "file://h//c|" = .ok u ∧ u.toRemote = "file://h/c|" ∧ ofRemote u.toRemote = .ok v ∧
      v.toRemote = "file:///c:" ∧ v ≠ u := by
  refine ⟨⟨"file", some ⟨"", "", "h", none⟩, false, .segments ["c|"], none, none⟩,
    ⟨"file", some ⟨"", "", "", none⟩, false, .segments ["c:"], none, none⟩, ?_, ?_, ?_, ?_, ?_⟩
  all_goals decide +kernel

end IndexFs.Url

import IndexFs.Proofs.Url.Parts

/-!
# Reading the URL of a file

The URL of a file is read as itself, but for a drive directly below the root of another host
(`hasHostedDrive`): it is read as the drive of this machine (`withLocalDrive`), since a drive has no host.
-/

namespace IndexFs.Url

variable {query fragment : Option String}

/-- Whether a drive stands directly below the root of the files of another host. -/
def hasHostedDrive (u : Url) : Bool :=
  match u.authority, u.path with
  | some a, .segments (name :: _) => u.scheme = "file" && a.host ≠ "" && isDriveLetter name.toList
  | _, _ => false

/-- The same place on the drive of this machine, whose letter has a colon. -/
def withLocalDrive (u : Url) : Url :=
  match u.path with
  | .segments (name :: names) =>
    { u with
      authority := some ⟨"", "", "", none⟩
      path := .segments (keptSegment .file [] name.toList :: names) }
  | _ => u

theorem trimFront_of_isTrimmed {names : List String} (h : IsTrimmed names) : trimFront .file names = names := by
  unfold trimFront
  rw [if_pos rfl]
  rcases h with rfl | ⟨name, hname, hne⟩
  · rfl
  · obtain ⟨more, rfl⟩ := List.head?_eq_some_iff.mp hname
    rw [List.dropWhile_cons_of_neg (by simpa using hne)]

theorem trimFront_cons_empty (names : List String) : trimFront .file ("" :: names) = trimFront .file names :=
  rfl

theorem IsTrimmed.ne_nil {names : List String} (h : IsTrimmed names) : names ≠ [] := by
  rintro rfl
  rcases h with h | ⟨_, h, -⟩
  · cases h
  · cases h

/-- Without a host the path is read from its first slash, which adds an empty segment in front. -/
theorem fileUrl_local {names : List String} (hpath : IsPath .file names) (htrimmed : IsTrimmed names)
    (htail : IsTail true query fragment) :
    fileUrl none (rawSegments .file (segmentsText names).toList) (tailChars query fragment) =
      ⟨"file", some ⟨"", "", "", none⟩, false, .segments names, query, fragment⟩ := by
  have hne := htrimmed.ne_nil
  have hraw : rawSegments .file (segmentsText names).toList = [] :: names.map String.toList := by
    rw [← rawSegments_text hpath hne, segmentsText_eq hne]
    rfl
  have hadd : addSegments .file [] ([] :: names.map String.toList) = "" :: names := by
    obtain ⟨name, more, rfl⟩ := List.exists_cons_of_ne_nil hne
    show addSegments .file [""] ((name :: more).map String.toList) = _
    rw [addSegments_eq hpath hne fun h => List.cons_ne_nil _ _ h.2.1]
    rfl
  unfold fileUrl
  dsimp only
  rw [hraw, hadd, ite_self, trimFront_cons_empty, trimFront_of_isTrimmed htrimmed, splitTail_tailChars htail]
  rfl

/-- Below a segment there is no drive. -/
theorem bringsDrive_of_ne_nil {kind : SchemeKind} {names : List String} {raws : List (List Char)}
    (hne : names ≠ []) (h : ∀ raw ∈ raws, isDoubleDot raw = false) : bringsDrive kind names raws = false := by
  induction raws generalizing names with
  | nil => rfl
  | cons raw raws ih =>
    have hadd : addSegment kind names raw ≠ [] := by
      unfold addSegment
      rw [h raw List.mem_cons_self, if_neg Bool.false_ne_true]
      split
      · exact hne
      · exact List.append_ne_nil_of_left_ne_nil hne _
    unfold bringsDrive
    rw [List.isEmpty_eq_false_iff.mpr hne, Bool.and_false, Bool.false_and, Bool.false_or]
    split
    · rfl
    · exact ih hadd fun q hq => h q (List.mem_cons_of_mem _ hq)

theorem bringsDrive_text {name : String} {more : List String} (hpath : IsPath .file (name :: more)) :
    bringsDrive .file [] ((name :: more).map String.toList) = isDriveLetter name.toList := by
  obtain ⟨-, hcurrent, hparent⟩ := hpath name List.mem_cons_self
  have hadd : addSegment .file [] name.toList ≠ [] := by
    rw [addSegment, hparent, hcurrent]
    exact List.cons_ne_nil _ _
  have hmore : ∀ raw ∈ more.map String.toList, isDoubleDot raw = false := by
    intro raw hraw
    obtain ⟨next, hnext, rfl⟩ := List.mem_map.mp hraw
    exact (hpath next (List.mem_cons_of_mem _ hnext)).parent
  rw [List.map_cons]
  unfold bringsDrive
  cases more with
  | nil => exact Bool.or_false _
  | cons next more =>
    rw [List.map_cons] at hmore ⊢
    dsimp only
    rw [bringsDrive_of_ne_nil hadd hmore, Bool.or_false]
    rfl

/-- Of a path that is read again only the first segment may change. -/
theorem addSegments_text {kind : SchemeKind} {name : String} {more : List String}
    (hpath : IsPath kind (name :: more)) :
    addSegments kind [] ((name :: more).map String.toList) = keptSegment kind [] name.toList :: more := by
  obtain ⟨-, hcurrent, hparent⟩ := hpath name List.mem_cons_self
  cases more with
  | nil =>
    show addLastSegment kind [] name.toList = _
    rw [addLastSegment, hparent, hcurrent]
    rfl
  | cons next more =>
    have hadd : addSegment kind [] name.toList = [keptSegment kind [] name.toList] := by
      rw [addSegment, hparent, hcurrent]
      rfl
    show addSegments kind (addSegment kind [] name.toList) ((next :: more).map String.toList) = _
    rw [hadd, addSegments_eq (hpath.mono (List.subset_cons_self _ _)) (List.cons_ne_nil _ _)
      fun h => List.cons_ne_nil _ _ h.2.1]
    rfl

theorem keptSegment_ne {kind : SchemeKind} {names : List String} {segment : List Char} (h : segment ≠ []) :
    keptSegment kind names segment ≠ "" := by
  obtain ⟨c, cs, rfl⟩ := List.exists_cons_of_ne_nil h
  unfold keptSegment
  dsimp only
  split <;> exact fun hnil => List.cons_ne_nil _ _ (String.ofList_eq_empty_iff.mp hnil)

/-- With a host the path is read from after its first slash. -/
theorem fileUrl_hosted {host name : String} {more : List String} (hhost : host ≠ "")
    (hpath : IsPath .file (name :: more)) (htrimmed : IsTrimmed (name :: more))
    (htail : IsTail true query fragment) {u : Url}
    (hu : u = ⟨"file", some ⟨"", "", host, none⟩, false, .segments (name :: more), query, fragment⟩) :
    fileUrl (some host) ((name :: more).map String.toList) (tailChars query fragment) =
      if u.hasHostedDrive then u.withLocalDrive else u := by
  -- the host is dropped exactly where the first segment is a drive letter
  have hdrive : u.hasHostedDrive = isDriveLetter name.toList := by
    rw [hu]
    show (true && decide (host ≠ "") && _) = _
    rw [decide_eq_true hhost, Bool.true_and, Bool.true_and]
  unfold fileUrl
  rw [bringsDrive_text hpath, addSegments_text hpath, splitTail_tailChars htail, hdrive, hu]
  dsimp only
  cases hletter : isDriveLetter name.toList with
  | true =>
    have hne : name.toList ≠ [] := fun hnil => by
      rw [hnil] at hletter
      cases hletter
    rw [trimFront_of_isTrimmed (.inr ⟨_, rfl, keptSegment_ne hne⟩)]
    rfl
  | false =>
    rw [keptSegment_eq fun h => Bool.false_ne_true (hletter.symm.trans h.2.2), trimFront_of_isTrimmed htrimmed]
    rfl

theorem fileHost_text {host : String} (hhost : IsHost true host.toList) (hfilled : host ≠ "")
    (hremote : host ≠ "localhost") : fileHost host.toList = .ok (some host) := by
  have hparsed : specialHost host.toList = .ok host.toList := hhost.parsed
  unfold fileHost
  rw [if_neg fun hnil => hfilled (String.toList_inj.mp (List.isEmpty_iff.mp hnil)), hparsed]
  show Except.ok (if host.toList = "localhost".toList then none else some (String.ofList host.toList)) = _
  rw [if_neg fun hlocal => hremote (String.toList_inj.mp hlocal), String.ofList_toList]

theorem endsAuthority_of_isFileHost {host : String} (h : IsFileHost host) :
    ∀ c ∈ host.toList, (!endsAuthority .file c) = true := by
  rcases h with rfl | ⟨hhost, -, -⟩
  · exact fun _ hc => nomatch hc
  · intro c hc
    rw [Authority.endsAuthority_of_isHostChar (hhost.chars c hc)]
    rfl

/-- The URL of a file is read as itself, but for a drive of another host. -/
theorem parseFile_text {host : String} {names : List String} (hhost : IsFileHost host)
    (hpath : IsPath .file names) (htrimmed : IsTrimmed names) (htail : IsTail true query fragment) {u : Url}
    (hu : u = ⟨"file", some ⟨"", "", host, none⟩, false, .segments names, query, fragment⟩) :
    parseFile ('/' :: '/' :: (host.toList ++ ((segmentsText names).toList ++ tailChars query fragment))) =
      .ok (if u.hasHostedDrive then u.withLocalDrive else u) := by
  have hne := htrimmed.ne_nil
  have hbefore := endsAuthority_of_isFileHost hhost
  have hends : ∀ c ∈ (segmentsText names).toList, isPathEnd c = false := fun c hc =>
    (chars_segmentsText hpath hc).2
  have hslashes : (SchemeKind.isSlash .file '/' && SchemeKind.isSlash .file '/') = true := rfl
  unfold parseFile
  dsimp only
  rw [if_pos hslashes, takeWhile_append_stop hbefore (endsAuthority_head .file names),
    dropWhile_append_stop hbefore (endsAuthority_head .file names)]
  -- without a host nothing is dropped, and with one the path starts behind it
  rcases hhost with rfl | ⟨hhost, hfilled, hremote⟩
  · have hlocal : u.hasHostedDrive = false := by
      obtain ⟨name, more, rfl⟩ := List.exists_cons_of_ne_nil hne
      rw [hu]
      rfl
    rw [hlocal, if_neg Bool.false_ne_true, hu]
    show Except.ok _ = _
    rw [takeWhile_path hends, dropWhile_path hends, fileUrl_local hpath htrimmed htail]
  · have hbody := segmentsText_eq hne
    have hends' : ∀ c ∈ ['/'].intercalate (names.map String.toList), isPathEnd c = false := fun c hc =>
      hends c (hbody ▸ List.mem_cons_of_mem _ hc)
    obtain ⟨name, more, rfl⟩ := List.exists_cons_of_ne_nil hne
    rw [hhost.drive, if_neg Bool.false_ne_true, fileHost_text hhost hfilled hremote, hbody]
    show Except.ok (fileUrl (some host)
      (rawSegments .file
        ((['/'].intercalate ((name :: more).map String.toList) ++ tailChars query fragment).takeWhile
          (!isPathEnd ·)))
      ((['/'].intercalate ((name :: more).map String.toList) ++ tailChars query fragment).dropWhile
        (!isPathEnd ·))) = _
    rw [takeWhile_path hends', dropWhile_path hends', rawSegments_text hpath hne,
      fileUrl_hosted hfilled hpath htrimmed htail hu]

end IndexFs.Url

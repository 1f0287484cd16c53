import IndexFs.Proofs.Url.Encode
import IndexFs.Proofs.Url.Split

/-!
# Paths in their normal form

A path that was read consists of segments that are encoded and are neither of the two names of dots
(`isPath_addSegments`), and such a path is read as the same segments (`rawSegments_text`, `addSegments_eq`).
-/

namespace IndexFs.Url

/-- A segment that is encoded and holds no separator. -/
structure IsRaw (kind : SchemeKind) (cs : List Char) : Prop where
  stands : ∀ c ∈ cs, c.toNat < 0x80 ∧ pathSet c = false
  unsplit : ∀ c ∈ cs, kind.isSlash c = false

/-- A segment that is kept as it is. -/
structure IsSegment (kind : SchemeKind) (cs : List Char) : Prop extends IsRaw kind cs where
  current : isSingleDot cs = false
  parent : isDoubleDot cs = false

/-- A path of segments that are kept as they are. -/
def IsPath (kind : SchemeKind) (names : List String) : Prop :=
  ∀ name ∈ names, IsSegment kind name.toList

variable {kind : SchemeKind} {names : List String}

theorem isSlash_slash (kind : SchemeKind) : kind.isSlash '/' = true := by
  cases kind <;> rfl

/-- Escapes have no slashes in them. -/
theorem sparesEscapes_isSlash (kind : SchemeKind) : EncodeSet.SparesEscapes kind.isSlash := by
  cases kind <;> exact ⟨by decide, by decide⟩

/-- The empty segment may stand in a path. -/
theorem isSegment_nil (kind : SchemeKind) : IsSegment kind [] :=
  ⟨⟨fun _ hc => absurd hc List.not_mem_nil, fun _ hc => absurd hc List.not_mem_nil⟩, rfl, rfl⟩

/-- A path may have no segments. -/
theorem isPath_nil (kind : SchemeKind) : IsPath kind [] :=
  fun _ hname => nomatch hname

/-- A path may have one empty segment. -/
theorem isPath_singleton (kind : SchemeKind) : IsPath kind [""] := by
  intro name hname
  rw [List.mem_singleton.mp hname]
  exact isSegment_nil kind

/-- A path of some segments of a path is one. -/
theorem IsPath.mono {names' : List String} (h : IsPath kind names) (hsub : names' ⊆ names) :
    IsPath kind names' :=
  fun name hname => h name (hsub hname)

/-- Two paths one behind the other are one. -/
theorem IsPath.append {names' : List String} (h : IsPath kind names) (h' : IsPath kind names') :
    IsPath kind (names ++ names') :=
  fun name hname => (List.mem_append.mp hname).elim (h name) (h' name)

/-! ## Paths that were read -/

/-- A drive letter is kept with a colon. -/
theorem isSegment_drive {a : Char} {cs : List Char} (hsegment : IsSegment kind (a :: cs))
    (hletter : a.isAlpha = true) : IsSegment kind [a, ':'] where
  stands c hc := by
    rcases List.mem_pair.mp hc with rfl | rfl
    · exact hsegment.stands c List.mem_cons_self
    · decide
  unsplit c hc := by
    rcases List.mem_pair.mp hc with rfl | rfl
    · exact hsegment.unsplit c List.mem_cons_self
    · cases kind <;> rfl
  current := by
    unfold isSingleDot Text.lower
    split
    · next heq => cases (List.cons.inj heq).2
    · next heq => cases (List.cons.inj heq).2
    · rfl
  parent := by
    -- none of the spellings of two dots has a colon behind its first character
    unfold isDoubleDot Text.lower
    split
    · next heq => exact absurd (List.cons.inj (List.cons.inj heq).2).1 (by decide)
    · next heq => exact absurd (List.cons.inj (List.cons.inj heq).2).1 (by decide)
    · next heq => exact absurd (List.cons.inj (List.cons.inj heq).2).1 (by decide)
    · next heq => exact absurd (List.cons.inj (List.cons.inj heq).2).1 (by decide)
    · rfl

/-- A segment that is kept may stand in a path, also where it is a drive letter. -/
theorem isSegment_kept (names : List String) {segment : List Char} (h : IsSegment kind segment) :
    IsSegment kind (keptSegment kind names segment).toList := by
  unfold keptSegment
  split
  · next a cs =>
    split
    · next hdrive =>
      -- only a drive letter at the head of a file path is respelled
      rw [Bool.and_eq_true, Bool.and_eq_true] at hdrive
      have hletter : a.isAlpha = true := by
        have hstarts := hdrive.2
        unfold isDriveLetter at hstarts
        rw [Bool.and_eq_true] at hstarts
        cases cs with
        | nil => exact absurd (of_decide_eq_true hstarts.1) (by simp)
        | cons b rest =>
          have hfirst := hstarts.2
          unfold startsWithDriveLetter at hfirst
          rw [Bool.and_eq_true, Bool.and_eq_true] at hfirst
          exact hfirst.1.1
      rw [String.toList_ofList]
      exact isSegment_drive h hletter
    · rwa [String.toList_ofList]
  · exact h

/-- To go up adds no segment. -/
theorem parentSegments_subset (names : List String) : parentSegments names ⊆ names := by
  unfold parentSegments
  split
  · exact List.Subset.refl names
  · split
    · exact List.Subset.refl names
    · exact (List.dropLast_sublist names).subset

/-- What a segment of the text does to a path leaves it one, also where it goes up or stays. -/
theorem isPath_addSegment (hnames : IsPath kind names) {segment : List Char} (hraw : IsRaw kind segment) :
    IsPath kind (addSegment kind names segment) ∧ IsPath kind (addLastSegment kind names segment) := by
  unfold addSegment addLastSegment
  cases hparent : isDoubleDot segment with
  | true =>
    have h := hnames.mono (parentSegments_subset names)
    exact ⟨h, h.append (isPath_singleton kind)⟩
  | false =>
    cases hcurrent : isSingleDot segment with
    | true => exact ⟨hnames, hnames.append (isPath_singleton kind)⟩
    | false =>
      have hsegment : IsSegment kind segment := ⟨hraw, hcurrent, hparent⟩
      have hone : IsPath kind [keptSegment kind names segment] := fun name hname => by
        rw [List.mem_singleton.mp hname]
        exact isSegment_kept names hsegment
      exact ⟨hnames.append hone, hnames.append hone⟩

/-- What several segments of the text do to a path leaves it one. -/
theorem isPath_addSegments (hnames : IsPath kind names) {raws : List (List Char)}
    (hraws : ∀ raw ∈ raws, IsRaw kind raw) : IsPath kind (addSegments kind names raws) := by
  induction raws generalizing names with
  | nil => exact hnames
  | cons raw raws ih =>
    obtain ⟨hadd, hlast⟩ := isPath_addSegment hnames (hraws raw List.mem_cons_self)
    cases raws with
    | nil => exact hlast
    | cons next raws => exact ih hadd fun q hq => hraws q (List.mem_cons_of_mem _ hq)

/-- Segments of the text leave at least one segment in the path. -/
theorem addSegments_ne_nil (names : List String) {raws : List (List Char)} (h : raws ≠ []) :
    addSegments kind names raws ≠ [] := by
  induction raws generalizing names with
  | nil => exact absurd rfl h
  | cons raw raws ih =>
    cases raws with
    | nil =>
      show addLastSegment kind names raw ≠ []
      unfold addLastSegment
      split_ifs <;> exact List.append_ne_nil_of_right_ne_nil _ (List.cons_ne_nil _ _)
    | cons next raws => exact ih _ (List.cons_ne_nil _ _)

/-- What is between two separators is no separator after it was encoded. -/
theorem isRaw_of_mem_rawSegments {cs raw : List Char} (h : raw ∈ rawSegments kind cs) : IsRaw kind raw := by
  obtain ⟨part, hpart, rfl⟩ := List.mem_map.mp h
  exact ⟨fun c hc => stands_of_mem_encode sparesEscapes_pathSet hc, fun c hc =>
    spared_of_mem_encode (sparesEscapes_isSlash kind) (fun d hd _ => notMark_of_mem_splitBy hpart hd) hc⟩

/-- A text has at least one segment. -/
theorem rawSegments_ne_nil (kind : SchemeKind) (cs : List Char) : rawSegments kind cs ≠ [] := by
  unfold rawSegments
  rw [ne_eq, List.map_eq_nil_iff]
  exact splitBy_ne_nil _ cs

/-- The path that was read from a text. -/
theorem isPath_read (kind : SchemeKind) (cs : List Char) :
    IsPath kind (addSegments kind [] (rawSegments kind cs)) ∧ addSegments kind [] (rawSegments kind cs) ≠ [] :=
  ⟨isPath_addSegments (isPath_nil kind) fun _ h => isRaw_of_mem_rawSegments h,
    addSegments_ne_nil [] (rawSegments_ne_nil kind cs)⟩

/-! ## Reading the text of a path -/

theorem toList_segmentsText (names : List String) :
    (segmentsText names).toList = names.flatMap fun name => '/' :: name.toList := by
  unfold segmentsText
  rw [String.toList_join, List.flatMap_map]
  refine List.flatMap_congr fun name _ => ?_
  rw [String.toList_append]
  rfl

/-- A path that is not empty is written with slashes before and between its segments. -/
theorem segmentsText_eq (h : names ≠ []) :
    (segmentsText names).toList = '/' :: ['/'].intercalate (names.map String.toList) := by
  rw [toList_segmentsText]
  induction names with
  | nil => exact absurd rfl h
  | cons name names ih =>
    cases names with
    | nil =>
      rw [List.flatMap_singleton, List.map_singleton, List.intercalate_singleton]
    | cons next names =>
      rw [List.flatMap_cons, ih (List.cons_ne_nil _ _)]
      show _ = '/' :: ['/'].intercalate (name.toList :: next.toList :: names.map String.toList)
      rw [List.intercalate_cons_cons, List.append_assoc]
      rfl

/-- The text between two separators of a path is a segment. -/
theorem rawSegments_text (h : IsPath kind names) (hne : names ≠ []) :
    rawSegments kind (['/'].intercalate (names.map String.toList)) = names.map String.toList := by
  unfold rawSegments
  rw [splitBy_intercalate (isSlash_slash kind) (by rwa [ne_eq, List.map_eq_nil_iff]), List.map_map]
  · refine List.map_congr_left fun name hname => ?_
    exact encode_eq_self (h name hname).stands
  · intro part hpart c hc
    obtain ⟨name, hname, rfl⟩ := List.mem_map.mp hpart
    exact (h name hname).unsplit c hc

/-- Only a drive letter below the root of a file system is not kept as it is. -/
theorem keptSegment_eq {name : String}
    (h : ¬(kind = .file ∧ names = [] ∧ isDriveLetter name.toList = true)) :
    keptSegment kind names name.toList = name := by
  unfold keptSegment
  split
  · rw [if_neg]
    · exact String.ofList_toList
    · rw [Bool.and_eq_true, Bool.and_eq_true, decide_eq_true_eq, List.isEmpty_iff, and_assoc]
      exact h
  · next heq => exact (String.toList_inj.mp heq).symm

/-- Segments that are kept as they are go to the end of a path. -/
theorem addSegments_eq {more : List String} (h : IsPath kind more) (hne : more ≠ [])
    (hdrive : ¬(kind = .file ∧ names = [] ∧ ∃ name ∈ more.head?, isDriveLetter name.toList = true)) :
    addSegments kind names (more.map String.toList) = names ++ more := by
  induction more generalizing names with
  | nil => exact absurd rfl hne
  | cons name more ih =>
    obtain ⟨-, hcurrent, hparent⟩ := h name List.mem_cons_self
    have hkept : keptSegment kind names name.toList = name :=
      keptSegment_eq fun ⟨hfile, hnil, hletter⟩ => hdrive ⟨hfile, hnil, name, rfl, hletter⟩
    cases more with
    | nil =>
      show addLastSegment kind names name.toList = _
      rw [addLastSegment, hparent, hcurrent, hkept]
      rfl
    | cons next more =>
      have hadded : addSegment kind names name.toList = names ++ [name] := by
        rw [addSegment, hparent, hcurrent, hkept]
        rfl
      show addSegments kind (addSegment kind names name.toList) ((next :: more).map String.toList) = _
      rw [hadded, ih (h.mono (List.subset_cons_self _ _)) (List.cons_ne_nil _ _), List.append_assoc]
      · rfl
      · -- behind the first segment no drive letter is respelled
        rintro ⟨-, hnil, -⟩
        exact List.append_ne_nil_of_right_ne_nil _ (List.cons_ne_nil _ _) hnil

/-- What stands in the text of a path neither ends it nor is left out of it. -/
theorem chars_segmentsText (h : IsPath kind names) {c : Char} (hc : c ∈ (segmentsText names).toList) :
    0x20 < c.toNat ∧ isPathEnd c = false := by
  rw [toList_segmentsText] at hc
  obtain ⟨name, hname, hc⟩ := List.mem_flatMap.mp hc
  rcases List.mem_cons.mp hc with rfl | hc
  · decide
  · have hset := ((h name hname).stands c hc).2
    refine ⟨lt_toNat_of_pathSet hset, ?_⟩
    unfold isPathEnd
    rw [decide_eq_false (ne_of_spared hset (by decide)), decide_eq_false (ne_of_spared hset (by decide))]
    rfl

end IndexFs.Url

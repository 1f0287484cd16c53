import IndexFs.Proofs.Url.Child
import IndexFs.Proofs.Url.Reread

/-!
# Going down

`Url.child` for one name after the other, each in the directory of the one before it. Whatever the names are, the
paths on the way are in their normal form (`isPath_pushSegment`), so that their texts tell them apart
(`segmentsText_inj`). Where every name becomes a segment, the path grows by one segment for each
(`pushBase_pushSegment`), and the names can be read off it (`descend_faithful`).
-/

namespace IndexFs.Url

/-- The URL that a list of names leads to. -/
def descend (u : Url) (names : List String) : Except FsError Url :=
  names.foldlM child u

/-- A name that is neither nothing nor one of the names of dots, and that is kept whole. -/
structure IsName (name : String) : Prop where
  nonempty : name ≠ ""
  current : name ≠ "."
  parent : name ≠ ".."
  kept : ∀ c ∈ name.toList, c ≠ '\t' ∧ c ≠ '\n' ∧ c ≠ '\r'

/-- The segment that a name becomes, but for drives. -/
def nameSegment (kind : SchemeKind) (name : String) : String :=
  String.ofList (encode (newSegmentSet kind) (keptName name))

variable {kind : SchemeKind} {names segments : List String} {name : String}

/-! ## Paths on the way -/

theorem withoutEndSlash_subset (segments : List String) : withoutEndSlash segments ⊆ segments := by
  unfold withoutEndSlash
  split
  · exact (List.dropLast_sublist segments).subset
  · exact List.Subset.refl segments

theorem pushBase_subset (segments : List String) : pushBase segments ⊆ segments := by
  unfold pushBase
  split
  · exact List.nil_subset segments
  · exact withoutEndSlash_subset segments

/-- Dots are no name to be added. -/
theorem pushSegment_of_dots (h : name = "." ∨ name = "..") : pushSegment kind segments name = segments :=
  if_pos (by simpa using h)

/-- Whatever name is put below it, a path stays a path. -/
theorem isPath_pushSegment (h : IsPath kind segments) (name : String) :
    IsPath kind (pushSegment kind (withoutEndSlash segments) name) := by
  by_cases hdots : name = "." ∨ name = ".."
  · rw [pushSegment_of_dots hdots]
    exact h.mono (withoutEndSlash_subset segments)
  · rw [not_or] at hdots
    rw [pushSegment_of_ne hdots.1 hdots.2]
    exact isPath_trimFront (isPath_addSegment (h.mono (pushBase_subset segments)) (isRaw_newSegment kind _)).2

/-- A path without an empty segment in front has none after it lost its last slash. -/
theorem isTrimmed_withoutEndSlash (h : IsTrimmed segments) : IsTrimmed (withoutEndSlash segments) := by
  unfold withoutEndSlash
  rcases h with rfl | ⟨first, hfirst, hne⟩
  · exact .inl rfl
  · obtain ⟨more, rfl⟩ := List.head?_eq_some_iff.mp hfirst
    split
    · next hlong =>
      rw [Bool.and_eq_true, decide_eq_true_eq] at hlong
      obtain ⟨next, more, rfl⟩ := List.exists_cons_of_ne_nil (l := more) (by rintro rfl; simp at hlong)
      exact .inr ⟨first, rfl, hne⟩
    · exact .inr ⟨first, rfl, hne⟩

/-- Below the root of a file system there is no empty segment in front. -/
theorem isTrimmed_pushSegment (h : IsTrimmed segments) (name : String) :
    IsTrimmed (pushSegment .file (withoutEndSlash segments) name) := by
  by_cases hdots : name = "." ∨ name = ".."
  · rw [pushSegment_of_dots hdots]
    exact isTrimmed_withoutEndSlash h
  · rw [not_or] at hdots
    rw [pushSegment_of_ne hdots.1 hdots.2]
    exact isTrimmed_trimFront _

/-- The text of a path tells its segments. -/
theorem segmentsText_inj (h : IsPath kind segments) (h' : IsPath kind names)
    (htext : segmentsText segments = segmentsText names) : segments = names := by
  -- the text is empty where there are no segments, and starts with a slash where there are some
  have hchars := congrArg String.toList htext
  by_cases hsegments : segments = []
  · by_cases hnames : names = []
    · rw [hsegments, hnames]
    · rw [hsegments, segmentsText_eq hnames] at hchars
      cases hchars
  · by_cases hnames : names = []
    · rw [hnames, segmentsText_eq hsegments] at hchars
      cases hchars
    · rw [segmentsText_eq hsegments, segmentsText_eq hnames] at hchars
      have hraw := rawSegments_text h hsegments
      rw [(List.cons.inj hchars).2, rawSegments_text h' hnames] at hraw
      exact (List.map_injective_iff.mpr (fun _ _ h => String.toList_inj.mp h) hraw).symm

/-- URLs that differ in their paths alone have different texts. -/
theorem path_text_eq {u : Url} {p q : Path}
    (h : ({ u with path := p } : Url).text = ({ u with path := q } : Url).text) : p.text = q.text :=
  (String.append_right_inj _).mp ((String.append_left_inj _).mp h)

/-! ## Growing paths -/

theorem eq_of_concat {before : List String} {last : String} (more : List String)
    (h : before ++ [last] = more ++ [""]) : last = "" :=
  List.singleton_inj.mp (List.append_inj' h rfl).2

theorem pushBase_concat {last : String} (before : List String) (hlast : last ≠ "") :
    pushBase (before ++ [last]) = before ++ [last] := by
  rw [pushBase_eq_steps fun h => hlast (eq_of_concat [""] h), steps_concat, if_neg hlast]

/-- Where a name becomes a segment, the path of its entry is longer by one. -/
theorem pushBase_pushSegment (hname : keptName name ∉ emptyOrDots)
    (hbase : kind = .file → ∀ name ∈ (pushBase segments).head?, name ≠ "") :
    pushBase (pushSegment kind (withoutEndSlash segments) name) =
      pushBase segments ++ [newSegment kind (pushBase segments) name] := by
  rw [pushSegment_eq hname hbase]
  exact pushBase_concat _ (newSegment_ne hname)

theorem head_pushBase (h : IsTrimmed segments) : ∀ name ∈ (pushBase segments).head?, name ≠ "" := by
  have hne : segments ≠ ["", ""] := by
    rintro rfl
    rcases h with h | ⟨first, hfirst, hne⟩
    · cases h
    · exact hne (Option.some.inj hfirst).symm
  rw [pushBase_eq_steps hne]
  exact head_steps h

/-- A new segment goes behind all there are, but for an empty one at the end. -/
theorem pushBase_eq_self_iff : pushBase segments = segments ↔ segments.getLast? ≠ some "" := by
  rcases List.eq_nil_or_concat' segments with rfl | ⟨before, last, rfl⟩
  · exact iff_of_true rfl nofun
  · rw [List.getLast?_concat]
    by_cases hlast : last = ""
    · refine iff_of_false (fun h => ?_) (fun h => h (congrArg some hlast))
      subst hlast
      -- of two empty segments and nothing else both are dropped
      have hshort : (pushBase (before ++ [""])).length ≤ before.length := by
        by_cases hroot : before ++ [""] = ["", ""]
        · rw [hroot]
          exact Nat.zero_le _
        · rw [pushBase_eq_steps hroot, steps_concat, if_pos rfl]
      rw [h, List.length_append, List.length_singleton] at hshort
      omega
    · exact iff_of_true (pushBase_concat before hlast) fun h => hlast (Option.some.inj h)

theorem steps_ne_root (h : segments ≠ ["", ""]) : (Path.segments segments).steps ≠ [""] := by
  rcases List.eq_nil_or_concat' segments with rfl | ⟨before, last, rfl⟩
  · exact nofun
  · rw [steps_concat]
    split
    · next hlast =>
      rintro rfl
      exact h (by rw [hlast]; rfl)
    · next hlast => exact fun hroot => hlast (eq_of_concat [] hroot)

/-- But for file paths, where a drive letter is respelled, a new segment is the encoded name. -/
theorem newSegment_eq (hkind : kind ≠ .file) (base : List String) (name : String) :
    newSegment kind base name = nameSegment kind name := by
  unfold newSegment nameSegment keptSegment
  rw [decide_eq_false hkind, Bool.false_and, Bool.false_and]
  split
  · exact if_neg Bool.false_ne_true
  · next hnil => rw [hnil]

theorem nameSegment_ne (hname : keptName name ∉ emptyOrDots) : nameSegment kind name ≠ "" := by
  intro h
  have hnil := congrArg String.toList h
  unfold nameSegment at hnil
  rw [String.toList_ofList] at hnil
  refine hname ?_
  rw [encode_eq_nil.mp hnil]
  exact List.mem_cons_self

theorem child_of_segments {u : Url} (hpath : u.path = .segments segments) (name : String) :
    u.child name = .ok { u with path := .segments (pushSegment (.of u.scheme) (withoutEndSlash segments) name) } := by
  unfold child child?
  rw [hpath]

theorem descend_cons {u v : Url} (h : u.child name = .ok v) (names : List String) :
    u.descend (name :: names) = v.descend names := by
  unfold descend
  rw [List.foldlM_cons, h]
  rfl

/-- Where every name becomes a segment, the segments stand one behind the other. -/
theorem descend_eq {u : Url} (hkind : SchemeKind.of u.scheme ≠ .file) (hpath : u.path = .segments segments)
    (hne : names ≠ []) (hnames : ∀ name ∈ names, keptName name ∉ emptyOrDots) :
    u.descend names =
      .ok { u with path := .segments (pushBase segments ++ names.map (nameSegment (.of u.scheme))) } := by
  induction names generalizing u segments with
  | nil => exact absurd rfl hne
  | cons name names ih =>
    have hname := hnames name List.mem_cons_self
    have hpush : pushSegment (.of u.scheme) (withoutEndSlash segments) name =
        pushBase segments ++ [nameSegment (.of u.scheme) name] := by
      rw [pushSegment_eq hname fun hfile => absurd hfile hkind, newSegment_eq hkind]
    have hstep := child_of_segments hpath name
    rw [hpush] at hstep
    rw [descend_cons hstep]
    cases names with
    | nil => rfl
    | cons next names =>
      have hrest := ih (u := { u with path := .segments (pushBase segments ++ [nameSegment (.of u.scheme) name]) })
        hkind rfl (List.cons_ne_nil _ _) fun x hx => hnames x (List.mem_cons_of_mem _ hx)
      rw [pushBase_concat _ (nameSegment_ne hname), List.append_assoc] at hrest
      exact hrest

/-! ## Names that are kept whole -/

/-- A name is kept as it is unless it has a tab or a line end. -/
theorem keptName_eq_iff :
    keptName name = name.toList ↔ ∀ c ∈ name.toList, c ≠ '\t' ∧ c ≠ '\n' ∧ c ≠ '\r' := by
  unfold keptName
  rw [List.filter_eq_self]
  simp [and_assoc]

namespace IsName

theorem keptName_eq (h : IsName name) : keptName name = name.toList :=
  keptName_eq_iff.mpr h.kept

theorem keptName_notMem (h : IsName name) : keptName name ∉ emptyOrDots := by
  rw [h.keptName_eq]
  unfold emptyOrDots
  rw [List.mem_cons, List.mem_pair]
  rintro (hnil | hdot | hdots)
  · exact h.nonempty (String.toList_inj.mp hnil)
  · exact h.current (String.toList_inj.mp hdot)
  · exact h.parent (String.toList_inj.mp hdots)

/-- The segment of a name stands for the name. -/
theorem decode_nameSegment (h : IsName name) (kind : SchemeKind) :
    decode (nameSegment kind name).toList = Utf8.encode name.toList := by
  unfold nameSegment
  rw [String.toList_ofList, decode_encode (newSegmentSet_percent kind), h.keptName_eq]

end IsName

/-- The segments of names decode to the names. -/
theorem decode_nameSegments (h : ∀ name ∈ names, IsName name) (kind : SchemeKind) :
    (names.map (nameSegment kind)).map (decode ·.toList) = names.map (Utf8.encode ·.toList) := by
  rw [List.map_map]
  refine List.map_congr_left fun name hname => ?_
  rw [Function.comp_apply, (h name hname).decode_nameSegment]

/-- The names make a path behind the steps of the first one. -/
theorem isPath_descend (hpath : IsPath kind segments) (hnames : ∀ name ∈ names, keptName name ∉ emptyOrDots) :
    IsPath kind (pushBase segments ++ names.map (nameSegment kind)) := by
  refine (hpath.mono (pushBase_subset segments)).append fun segment hsegment => ?_
  obtain ⟨name, hname, rfl⟩ := List.mem_map.mp hsegment
  unfold nameSegment
  rw [String.toList_ofList]
  exact isSegment_of_kept (hnames name hname)

/-- Nothing leads back to the directory. -/
theorem ne_descend (hne : names ≠ []) (hnames : ∀ name ∈ names, keptName name ∉ emptyOrDots) :
    segments ≠ pushBase segments ++ names.map (nameSegment kind) := by
  intro h
  obtain ⟨before, last, rfl⟩ := (List.eq_nil_or_concat' names).resolve_left hne
  have hlast : nameSegment kind last ≠ "" :=
    nameSegment_ne (hnames last (List.mem_append_right _ List.mem_cons_self))
  rw [List.map_append, List.map_singleton] at h
  -- the directory would end with a segment that is not empty, and so would be kept whole in front of the names
  have hend : segments.getLast? ≠ some "" := by
    rw [h, ← List.append_assoc, List.getLast?_concat]
    exact fun hend => hlast (Option.some.inj hend)
  rw [pushBase_eq_self_iff.mpr hend] at h
  exact List.append_ne_nil_of_right_ne_nil _ (List.cons_ne_nil _ _) (List.self_eq_append_right.mp h)

/-! ## The way down -/

theorem isNormal_withPath {u : Url} (h : IsNormal u) (hauthority : u.authority ≠ none) (hscheme : u.scheme ≠ "file")
    (hpath : IsPath (.of u.scheme) segments) (hne : segments ≠ []) :
    IsNormal { u with path := .segments segments } := by
  cases h with
  | hosted hnamed hkind ha _ _ htail => exact .hosted hnamed hkind ha hpath (fun _ => hne) htail
  | rooted => exact absurd rfl hauthority
  | verbatim => exact absurd rfl hauthority
  | file => exact absurd rfl hscheme

theorem segments_of_isNormal {u : Url} (h : IsNormal u) (hauthority : u.authority ≠ none) :
    ∃ segments, u.path = .segments segments := by
  cases h with
  | hosted => exact ⟨_, rfl⟩
  | rooted => exact ⟨_, rfl⟩
  | verbatim => exact absurd rfl hauthority
  | file => exact ⟨_, rfl⟩

theorem ofRemote_text_of_isNormal {u : Url} (h : IsNormal u) (hscheme : u.scheme ≠ "file") :
    ofRemote u.toRemote = .ok u := by
  unfold ofRemote toRemote
  rw [parse_text_of_isNormal h, hasHostedDrive_of_ne u hscheme]
  rfl

/-- Where a list of names leads to. -/
theorem descend_isNormal {u : Url} (hnormal : IsNormal u) (hauthority : u.authority ≠ none)
    (hscheme : u.scheme ≠ "file") (hpath : u.path = .segments segments) (hnames : ∀ name ∈ names, IsName name) :
    ∃ way, u.descend names = .ok { u with path := .segments way } ∧ IsNormal { u with path := .segments way } ∧
      (names = [] ∧ way = segments ∨
        names ≠ [] ∧ way = pushBase segments ++ names.map (nameSegment (.of u.scheme))) := by
  have hkept := fun name hname => (hnames name hname).keptName_notMem
  by_cases hne : names = []
  · subst hne
    have hsame : ({ u with path := .segments segments } : Url) = u := by rw [← hpath]
    exact ⟨segments, hsame.symm ▸ rfl, hsame.symm ▸ hnormal, .inl ⟨rfl, rfl⟩⟩
  · refine ⟨_, descend_eq (kind_ne_file hscheme) hpath hne hkept, ?_, .inr ⟨hne, rfl⟩⟩
    refine isNormal_withPath hnormal hauthority hscheme (isPath_descend (hnormal.isPath hpath).1 hkept) ?_
    exact List.append_ne_nil_of_right_ne_nil _ fun hnil => hne (List.map_eq_nil_iff.mp hnil)

/-- Names that lead to the same place are the same. -/
theorem descend_injective {u v w : Url} {others : List String} (hnormal : IsNormal u)
    (hauthority : u.authority ≠ none) (hscheme : u.scheme ≠ "file") (hnames : ∀ name ∈ names, IsName name)
    (hothers : ∀ name ∈ others, IsName name) (hv : u.descend names = .ok v) (hw : u.descend others = .ok w)
    (htext : v.toRemote = w.toRemote) : names = others := by
  obtain ⟨segments, hpath⟩ := segments_of_isNormal hnormal hauthority
  obtain ⟨way, hway, hvnormal, hnamed⟩ := descend_isNormal hnormal hauthority hscheme hpath hnames
  obtain ⟨way', hway', hwnormal, hnamed'⟩ := descend_isNormal hnormal hauthority hscheme hpath hothers
  cases hv.symm.trans hway
  cases hw.symm.trans hway'
  -- one text is read as one URL
  have hread := ofRemote_text_of_isNormal hvnormal hscheme
  rw [htext, ofRemote_text_of_isNormal hwnormal hscheme] at hread
  obtain rfl : way' = way := Path.segments.inj (congrArg Url.path (Except.ok.inj hread))
  rcases hnamed with ⟨rfl, rfl⟩ | ⟨hne, rfl⟩ <;> rcases hnamed' with ⟨rfl, heq⟩ | ⟨hne', heq⟩
  · rfl
  · exact absurd heq (ne_descend hne' fun name hname => (hothers name hname).keptName_notMem)
  · exact absurd heq.symm (ne_descend hne fun name hname => (hnames name hname).keptName_notMem)
  · have hdecoded := congrArg (List.map (decode ·.toList)) (List.append_cancel_left heq)
    rw [decode_nameSegments hnames, decode_nameSegments hothers] at hdecoded
    exact List.map_injective_iff.mpr Utf8.ofString_injective hdecoded

/-- A slash at the end of the directory makes no difference, unless there is one already. -/
theorem descend_slash_iff {u : Url} {steps : List String} (hscheme : u.scheme ≠ "file") (hroot : steps ≠ [""])
    (hne : names ≠ []) (hnames : ∀ name ∈ names, IsName name) :
    ({ u with path := .segments steps } : Url).descend names =
        ({ u with path := .segments (steps ++ [""]) } : Url).descend names ↔
      steps.getLast? ≠ some "" := by
  have hkept := fun name hname => (hnames name hname).keptName_notMem
  have hdescend := fun segments =>
    descend_eq (u := { u with path := .segments segments }) (kind_ne_file hscheme) rfl hne hkept
  have hslash : pushBase (steps ++ [""]) = steps := by
    have hne' : steps ++ [""] ≠ [""] ++ [""] := fun h => hroot (List.append_cancel_right h)
    rw [pushBase_eq_steps hne', steps_concat, if_pos rfl]
  rw [hdescend, hdescend, hslash, ← pushBase_eq_self_iff]
  constructor
  · intro h
    exact List.append_cancel_right (Path.segments.inj (congrArg Url.path (Except.ok.inj h)))
  · intro h
    rw [h]

/-- A list of names leads from a directory to one place, which differs from the directory in its path alone. The
path has one segment more for each name, from which the name can be read; the URL is read from its text as itself;
and other names lead elsewhere. With a slash at its end the directory leads to the same place, unless its path ends
with two. -/
theorem descend_faithful {text : String} {u : Url} (hu : ofRemote text = .ok u) (hauthority : u.authority ≠ none)
    (hscheme : u.scheme ≠ "file") (hroot : u.path ≠ .segments ["", ""]) (hnames : ∀ name ∈ names, IsName name) :
    ∃ v, u.descend names = .ok v ∧ v = { u with path := v.path } ∧
      (names ≠ [] → ∃ segments, v.path = .segments (u.path.steps ++ segments) ∧
        segments.map (decode ·.toList) = names.map (Utf8.encode ·.toList)) ∧
      ofRemote v.toRemote = .ok v ∧
      (names ≠ [] →
        (({ u with path := .segments u.path.steps } : Url).descend names =
            ({ u with path := .segments (u.path.steps ++ [""]) } : Url).descend names ↔
          u.path.steps.getLast? ≠ some "")) ∧
      ∀ others w, (∀ name ∈ others, IsName name) → u.descend others = .ok w → v.toRemote = w.toRemote →
        names = others := by
  have hnormal := isNormal_of_ofRemote hu
  obtain ⟨segments, hpath⟩ := segments_of_isNormal hnormal hauthority
  -- the path is not the root alone, so that the names go behind its steps
  have hsegments : segments ≠ ["", ""] := fun h => hroot (hpath.trans (congrArg Path.segments h))
  have hbase : pushBase segments = u.path.steps := by
    rw [hpath, pushBase_eq_steps hsegments]
  have hsteps : u.path.steps ≠ [""] := by
    rw [hpath]
    exact steps_ne_root hsegments
  obtain ⟨way, hway, hvnormal, hnamed⟩ := descend_isNormal hnormal hauthority hscheme hpath hnames
  refine ⟨_, hway, rfl, fun hne => ?_, ofRemote_text_of_isNormal hvnormal hscheme,
    fun hne => descend_slash_iff hscheme hsteps hne hnames,
    fun others w hothers hw => descend_injective hnormal hauthority hscheme hnames hothers hway hw⟩
  refine ⟨names.map (nameSegment (.of u.scheme)), ?_, decode_nameSegments hnames _⟩
  rw [(hnamed.resolve_left fun h => hne h.1).2, hbase]

theorem descend_faithful_escapes :
    ∃ u v, ofRemote "http://u@h:8080/a%20b/?q#f" = .ok u ∧ u.authority ≠ none ∧ u.scheme ≠ "file" ∧
      u.path ≠ .segments ["", ""] ∧ (∀ name ∈ ["%2e", "c\\d/e"], IsName name) ∧
      u.descend ["%2e", "c\\d/e"] = .ok v ∧ v.toRemote = "http://u@h:8080/a%20b/%252e/c%5Cd%2Fe?q#f" ∧
      (∃ segments, v.path = .segments (u.path.steps ++ segments) ∧
        segments.map (decode ·.toList) = ["%2e", "c\\d/e"].map (Utf8.encode ·.toList)) ∧
      ofRemote v.toRemote = .ok v := by
  have hread : ofRemote "http://u@h:8080/a%20b/?q#f" =
      .ok ⟨"http", some ⟨"u", "", "h", some 8080⟩, false, .segments ["a%20b", ""], some "q", some "f"⟩ := by
    decide +kernel
  have hnames : ∀ name ∈ ["%2e", "c\\d/e"], IsName name := by
    intro name hname
    rcases List.mem_pair.mp hname with rfl | rfl
    · exact ⟨by decide, by decide, by decide, keptName_eq_iff.mp (by decide)⟩
    · exact ⟨by decide, by decide, by decide, keptName_eq_iff.mp (by decide)⟩
  obtain ⟨v, hv, -, hsegments, hreread, -⟩ :=
    descend_faithful hread (Option.some_ne_none _) (by decide) (by decide) hnames
  -- the way down is computed once, and compared with the one that the theorem gives
  have hcomputed : descend
      ⟨"http", some ⟨"u", "", "h", some 8080⟩, false, .segments ["a%20b", ""], some "q", some "f"⟩
      ["%2e", "c\\d/e"] =
      .ok ⟨"http", some ⟨"u", "", "h", some 8080⟩, false, .segments ["a%20b", "%252e", "c%5Cd%2Fe"],
        some "q", some "f"⟩ := by
    decide +kernel
  cases hv.symm.trans hcomputed
  exact ⟨_, _, hread, Option.some_ne_none _, by decide, by decide, hnames, hv, by decide +kernel,
    hsegments (List.cons_ne_nil _ _), hreread⟩

/-- Of two slashes at the end of a path only one is dropped; and where nothing is put below a directory, the slash
at its end stays. -/
theorem descend_two_slashes :
    ∃ u v, ofRemote "lsif://p/a//" = .ok u ∧ ofRemote "lsif://p/a/" = .ok v ∧
      v = { u with path := .segments u.path.steps } ∧ u.authority ≠ none ∧ u.scheme ≠ "file" ∧
      u.path ≠ .segments ["", ""] ∧ v.path ≠ .segments ["", ""] ∧ IsName "x" ∧
      u.descend ["x"] ≠ v.descend ["x"] ∧ v.descend [] = .ok v ∧ v.path ≠ .segments v.path.steps := by
  have hname : IsName "x" := ⟨by decide, by decide, by decide, keptName_eq_iff.mp (by decide)⟩
  refine ⟨⟨"lsif", some ⟨"", "", "p", none⟩, false, .segments ["a", "", ""], none, none⟩,
    ⟨"lsif", some ⟨"", "", "p", none⟩, false, .segments ["a", ""], none, none⟩, by decide +kernel,
    by decide +kernel, by decide, Option.some_ne_none _, by decide, by decide, by decide, hname, by decide +kernel,
    rfl, by decide⟩

end IndexFs.Url

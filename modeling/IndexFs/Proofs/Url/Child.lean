import IndexFs.Proofs.Url.Drive

/-!
# The URLs of entries

`Url.child` puts a name below a directory. The name is encoded, so that it is one segment however it is spelt;
only the two names of dots, and names of which nothing is left, do not become a segment (`keptName`). The
entry is then one step below the directory, but for a directory whose path is two slashes
(`child_isEntryOf_iff`).
-/

namespace IndexFs.Url

/-! ## Steps -/

/-- The segments of a path, without an empty one at its end. -/
def Path.steps : Path → List String
  | .verbatim _ => []
  | .segments names => if names.getLast? = some "" then names.dropLast else names

/-- The text of a path, without one slash at its end. -/
def Path.stem (p : Path) : List Char :=
  if p.text.toList.getLast? = some '/' then p.text.toList.dropLast else p.text.toList

/-- One URL is the other with one more segment. -/
structure IsEntryOf (v u : Url) : Prop where
  same : v = { u with path := v.path }
  below : ∃ segment : List Char, segment ≠ [] ∧
    (∀ c ∈ segment, (SchemeKind.of u.scheme).isSlash c = false) ∧
    v.path.text.toList = u.path.stem ++ '/' :: segment

/-- One URL is on the way from the root to the other. -/
def IsAncestorOf (a u : Url) : Prop :=
  a.scheme = u.scheme ∧ a.authority = u.authority ∧ a.path.steps <+: u.path.steps ∧
    a.path.steps ≠ u.path.steps

/-- Two URLs are in the same directory. -/
def IsSiblingOf (a u : Url) : Prop :=
  a.scheme = u.scheme ∧ a.authority = u.authority ∧
    ∃ before x y, a.path.steps = before ++ [x] ∧ u.path.steps = before ++ [y]

/-- What is left of a name: it becomes a segment. -/
def keptName (name : String) : List Char :=
  name.toList.filter fun c => !(c = '\t' || c = '\n' || c = '\r')

/-- What is left of the names that do not become a segment. -/
def emptyOrDots : List (List Char) :=
  [[], ['.'], ['.', '.']]

/-- Whether the entry of a name is put somewhere else than below the directory. -/
def misplaces (u : Url) (name : String) : Bool :=
  keptName name ∈ emptyOrDots || u.path = .segments ["", ""]

/-! ## The text of a path -/

theorem steps_concat (before : List String) (last : String) :
    (Path.segments (before ++ [last])).steps = if last = "" then before else before ++ [last] := by
  unfold Path.steps
  dsimp only
  rw [List.getLast?_concat, List.dropLast_concat]
  by_cases hlast : last = ""
  · rw [if_pos hlast, if_pos (congrArg some hlast)]
  · rw [if_neg hlast, if_neg fun h => hlast (Option.some.inj h)]

theorem segmentsText_concat (names : List String) (name : String) :
    (segmentsText (names ++ [name])).toList = (segmentsText names).toList ++ '/' :: name.toList := by
  rw [toList_segmentsText, toList_segmentsText, List.flatMap_append, List.flatMap_singleton]

/-- A path ends with a slash where its last segment is empty, and nowhere else. -/
theorem stem_segments {kind : SchemeKind} {names : List String} (hpath : IsPath kind names) :
    (Path.segments names).stem = (segmentsText (Path.segments names).steps).toList := by
  have htext : (Path.segments names).text = segmentsText names := rfl
  unfold Path.stem
  rw [htext]
  rcases List.eq_nil_or_concat' names with rfl | ⟨before, last, rfl⟩
  · rfl
  · rw [segmentsText_concat, steps_concat]
    by_cases hlast : last = ""
    · subst hlast
      rw [String.toList_empty, if_pos rfl, if_pos List.getLast?_concat]
      exact List.dropLast_concat
    · have hne : last.toList ≠ [] := fun hnil => hlast (String.toList_inj.mp hnil)
      have hslash : ((segmentsText before).toList ++ '/' :: last.toList).getLast? ≠ some '/' := by
        rw [List.append_cons, List.getLast?_append_of_ne_nil _ hne]
        intro hend
        have hmark := (hpath last (by simp)).unsplit '/' (List.mem_of_getLast? hend)
        rw [isSlash_slash] at hmark
        cases hmark
      rw [if_neg hslash, if_neg hlast, segmentsText_concat]

/-! ## Names as segments -/

/-- All spellings of one dot stand for its byte. -/
theorem decode_of_isSingleDot {cs : List Char} (h : isSingleDot cs = true) :
    decode cs = Utf8.encode ['.'] := by
  unfold isSingleDot at h
  split at h
  · next heq =>
    simp only [Text.lower, List.map_eq_cons_iff, List.map_eq_nil_iff] at heq
    obtain ⟨a, _, rfl, ha, rfl⟩ := heq
    rw [eq_of_toLower ha (by decide)]
    rfl
  · next heq =>
    simp only [Text.lower, List.map_eq_cons_iff, List.map_eq_nil_iff] at heq
    obtain ⟨a, _, rfl, ha, b, _, rfl, hb, c, _, rfl, hc, rfl⟩ := heq
    rw [eq_of_toLower ha (by decide), eq_of_toLower hb (by decide)]
    rcases eq_of_toLower_e hc with rfl | rfl <;> rfl
  · cases h

theorem decode_of_isDoubleDot {cs : List Char} (h : isDoubleDot cs = true) :
    decode cs = Utf8.encode ['.', '.'] := by
  unfold isDoubleDot at h
  -- each of the four ways to write two dots, with the letter of an escape in either case
  split at h
  · next heq =>
    simp only [Text.lower, List.map_eq_cons_iff, List.map_eq_nil_iff] at heq
    obtain ⟨a, _, rfl, ha, b, _, rfl, hb, rfl⟩ := heq
    rw [eq_of_toLower ha (by decide), eq_of_toLower hb (by decide)]
    rfl
  · next heq =>
    simp only [Text.lower, List.map_eq_cons_iff, List.map_eq_nil_iff] at heq
    obtain ⟨a, _, rfl, ha, b, _, rfl, hb, c, _, rfl, hc, d, _, rfl, hd, rfl⟩ := heq
    rw [eq_of_toLower ha (by decide), eq_of_toLower hb (by decide), eq_of_toLower hc (by decide)]
    rcases eq_of_toLower_e hd with rfl | rfl <;> rfl
  · next heq =>
    simp only [Text.lower, List.map_eq_cons_iff, List.map_eq_nil_iff] at heq
    obtain ⟨a, _, rfl, ha, b, _, rfl, hb, c, _, rfl, hc, d, _, rfl, hd, rfl⟩ := heq
    rw [eq_of_toLower ha (by decide), eq_of_toLower hb (by decide), eq_of_toLower hd (by decide)]
    rcases eq_of_toLower_e hc with rfl | rfl <;> rfl
  · next heq =>
    simp only [Text.lower, List.map_eq_cons_iff, List.map_eq_nil_iff] at heq
    obtain ⟨a, _, rfl, ha, b, _, rfl, hb, c, _, rfl, hc, d, _, rfl, hd, e, _, rfl, he, f, _, rfl, hf, rfl⟩ := heq
    rw [eq_of_toLower ha (by decide), eq_of_toLower hb (by decide), eq_of_toLower hd (by decide),
      eq_of_toLower he (by decide)]
    rcases eq_of_toLower_e hc with rfl | rfl <;> rcases eq_of_toLower_e hf with rfl | rfl <;> rfl
  · cases h

/-- A name is what its segment stands for. -/
theorem eq_of_decode_encode {set : EncodeSet} (hset : set '%' = true) {cs ds : List Char}
    (h : decode (encode set cs) = Utf8.encode ds) : cs = ds := by
  rw [decode_encode hset] at h
  have hread := Utf8.decode_encode cs
  rw [h, Utf8.decode_encode] at hread
  exact (Except.ok.inj hread).symm

variable {kind : SchemeKind} {names : List String} {cs : List Char}

theorem newSegmentSet_percent (kind : SchemeKind) : newSegmentSet kind '%' = true := by
  cases kind <;> rfl

/-- The characters of paths are encoded in a name, and so are the separators. -/
theorem spared_newSegmentSet {c : Char} (h : newSegmentSet kind c = false) :
    pathSet c = false ∧ kind.isSlash c = false := by
  have hsegment : segmentSet c = false ∧ (kind.isSpecial = true → c ≠ '\\') := by
    unfold newSegmentSet at h
    split at h
    · next hspecial =>
      obtain ⟨hset, hbackslash⟩ := Bool.or_eq_false_iff.mp h
      exact ⟨hset, fun _ => of_decide_eq_false hbackslash⟩
    · next hplain => exact ⟨h, fun hspecial => absurd hspecial hplain⟩
  obtain ⟨hset, hbackslash⟩ := hsegment
  simp only [segmentSet, Bool.or_eq_false_iff, decide_eq_false_iff_not] at hset
  refine ⟨hset.1.1, ?_⟩
  unfold SchemeKind.isSlash
  rw [decide_eq_false hset.1.2, Bool.false_or]
  cases hspecial : kind.isSpecial with
  | false => rfl
  | true => exact decide_eq_false (hbackslash hspecial)

/-- However a name is spelt, it holds no separator. -/
theorem isRaw_newSegment (kind : SchemeKind) (cs : List Char) : IsRaw kind (encode (newSegmentSet kind) cs) where
  stands _ hc := ⟨ascii_of_mem_encode hc,
    spared_of_mem_encode sparesEscapes_pathSet (fun _ _ hset => (spared_newSegmentSet hset).1) hc⟩
  unsplit _ hc :=
    spared_of_mem_encode (sparesEscapes_isSlash kind) (fun _ _ hset => (spared_newSegmentSet hset).2) hc

/-- However a name is spelt, it is one segment, unless it is one of the names of dots. -/
theorem isSegment_newSegment (hcurrent : cs ≠ ['.']) (hparent : cs ≠ ['.', '.']) :
    IsSegment kind (encode (newSegmentSet kind) cs) where
  toIsRaw := isRaw_newSegment kind cs
  current := Bool.eq_false_iff.mpr fun h =>
    hcurrent (eq_of_decode_encode (newSegmentSet_percent kind) (decode_of_isSingleDot h))
  parent := Bool.eq_false_iff.mpr fun h =>
    hparent (eq_of_decode_encode (newSegmentSet_percent kind) (decode_of_isDoubleDot h))

/-! ## Below the directory -/

/-- The segments that a new one is put behind. -/
def pushBase (names : List String) : List String :=
  if withoutEndSlash names = [""] then [] else withoutEndSlash names

theorem pushBase_eq_steps (h : names ≠ ["", ""]) : pushBase names = (Path.segments names).steps := by
  unfold pushBase withoutEndSlash
  rcases List.eq_nil_or_concat' names with rfl | ⟨before, last, rfl⟩
  · rfl
  · rw [steps_concat, List.getLast?_concat, List.dropLast_concat]
    by_cases hlast : last = ""
    · subst hlast
      -- the empty segment at the end is dropped, or is the root
      cases before with
      | nil => rfl
      | cons name before =>
        have hlong : (decide (2 ≤ (name :: before ++ [""]).length) && decide (some "" = some "")) = true := by
          simp
        rw [if_pos hlong, if_pos rfl, if_neg]
        rintro hbefore
        rw [hbefore] at h
        exact h rfl
    · have hkept : ¬(decide (2 ≤ (before ++ [last]).length) && decide (some last = some "")) = true := by
        simp [hlast]
      rw [if_neg hkept, if_neg hlast, if_neg]
      intro hroot
      have hend := congrArg List.getLast? hroot
      rw [List.getLast?_concat] at hend
      exact hlast (Option.some.inj hend)

theorem head_steps (h : IsTrimmed names) : ∀ name ∈ (Path.segments names).steps.head?, name ≠ "" := by
  rcases h with rfl | ⟨first, hfirst, hne⟩
  · exact fun _ hname => nomatch hname
  · obtain ⟨more, rfl⟩ := List.head?_eq_some_iff.mp hfirst
    intro name hname
    unfold Path.steps at hname
    dsimp only at hname
    split at hname
    · cases more with
      | nil => cases hname
      | cons next more =>
        rw [← Option.some.inj hname]
        exact hne
    · rw [← Option.some.inj hname]
      exact hne

/-- The names of dots aside, what is left of a name is added as the last segment. -/
theorem pushSegment_of_ne {name : String} (hcurrent : name ≠ ".") (hparent : name ≠ "..") :
    pushSegment kind (withoutEndSlash names) name =
      trimFront kind (addLastSegment kind (pushBase names) (encode (newSegmentSet kind) (keptName name))) := by
  unfold pushSegment
  rw [if_neg (by simp [hcurrent, hparent])]
  rfl

/-- The segment that a name becomes. -/
def newSegment (kind : SchemeKind) (base : List String) (name : String) : String :=
  keptSegment kind base (encode (newSegmentSet kind) (keptName name))

variable {name : String}

theorem trimFront_concat_empty (before : List String) :
    ∃ before', trimFront kind (before ++ [""]) = before' ++ [""] := by
  unfold trimFront
  split
  · rw [List.dropWhile_append]
    cases before.dropWhile (fun name => decide (name = "")) with
    | nil => exact ⟨[], rfl⟩
    | cons first more => exact ⟨first :: more, rfl⟩
  · exact ⟨before, rfl⟩

theorem newSegment_ne {base : List String} (hname : keptName name ∉ emptyOrDots) :
    newSegment kind base name ≠ "" := by
  refine keptSegment_ne fun hnil => hname ?_
  rw [encode_eq_nil.mp hnil]
  exact List.mem_cons_self

theorem isSegment_of_kept (hname : keptName name ∉ emptyOrDots) :
    IsSegment kind (encode (newSegmentSet kind) (keptName name)) :=
  isSegment_newSegment (fun h => hname (by rw [h]; decide)) fun h => hname (by rw [h]; decide)

/-- A name that becomes a segment goes behind the segments there are. -/
theorem pushSegment_eq (hname : keptName name ∉ emptyOrDots)
    (hbase : kind = .file → ∀ name ∈ (pushBase names).head?, name ≠ "") :
    pushSegment kind (withoutEndSlash names) name =
      pushBase names ++ [newSegment kind (pushBase names) name] := by
  obtain ⟨-, hcurrent, hparent⟩ : IsSegment kind (encode (newSegmentSet kind) (keptName name)) :=
    isSegment_of_kept hname
  rw [pushSegment_of_ne (by rintro rfl; exact hname (by decide)) (by rintro rfl; exact hname (by decide))]
  unfold addLastSegment
  rw [hparent, hcurrent, if_neg Bool.false_ne_true, if_neg Bool.false_ne_true]
  by_cases hfile : kind = .file
  · subst hfile
    refine trimFront_of_isTrimmed (.inr ?_)
    cases hb : pushBase names with
    | nil => exact ⟨_, rfl, newSegment_ne hname⟩
    | cons first more => exact ⟨first, rfl, hbase rfl first (by rw [hb]; rfl)⟩
  · exact trimFront_of_ne hfile _

/-- A name that does not become a segment leaves the path as it was, or with a slash at its end. -/
theorem pushSegment_of_mem (names : List String) (hname : keptName name ∈ emptyOrDots) :
    pushSegment kind (withoutEndSlash names) name = withoutEndSlash names ∨
      ∃ before, pushSegment kind (withoutEndSlash names) name = before ++ [""] := by
  by_cases hdots : name = "." ∨ name = ".."
  · refine .inl (if_pos ?_)
    simpa using hdots
  · rw [not_or] at hdots
    rw [pushSegment_of_ne hdots.1 hdots.2]
    -- a name that is kept as dots or as nothing opens a last segment that is empty
    have hlast : ∃ before, addLastSegment kind (pushBase names)
        (encode (newSegmentSet kind) (keptName name)) = before ++ [""] := by
      have hstays : ∀ kind, encode (newSegmentSet kind) ['.'] = ['.'] ∧
          encode (newSegmentSet kind) ['.', '.'] = ['.', '.'] := by
        intro kind
        cases kind <;> decide
      simp only [emptyOrDots, List.mem_cons, List.not_mem_nil, or_false] at hname
      rcases hname with h | h | h
      · rw [h]
        exact ⟨_, rfl⟩
      · rw [h, (hstays kind).1]
        exact ⟨_, rfl⟩
      · rw [h, (hstays kind).2]
        exact ⟨_, rfl⟩
    obtain ⟨before, hbefore⟩ := hlast
    rw [hbefore]
    exact .inr (trimFront_concat_empty before)

/-! ## The entry -/

theorem IsNormal.isPath {u : Url} (h : IsNormal u) (hpath : u.path = .segments names) :
    IsPath (.of u.scheme) names ∧ (SchemeKind.of u.scheme = .file → IsTrimmed names) := by
  cases h with
  | hosted hscheme hkind ha hnames hfilled htail =>
    cases hpath
    exact ⟨hnames, fun hfile => absurd hfile hkind⟩
  | rooted hscheme hkind hnames hne htail =>
    cases hpath
    dsimp only
    rw [hkind]
    exact ⟨hnames, nofun⟩
  | verbatim => cases hpath
  | file hhost hnames htrimmed htail =>
    cases hpath
    exact ⟨hnames, fun _ => htrimmed⟩

/-- What the entry of a name is, where there is one. -/
theorem of_child {u v : Url} (h : u.child name = .ok v) :
    ∃ names, u.path = .segments names ∧
      v = { u with path := .segments (pushSegment (.of u.scheme) (withoutEndSlash names) name) } := by
  unfold child child? at h
  cases hpath : u.path with
  | verbatim text =>
    rw [hpath] at h
    cases h
  | segments names =>
    rw [hpath] at h
    cases h
    exact ⟨names, rfl, rfl⟩

/-- Every name has an entry below a hierarchy, and no name has one below any other URL. -/
theorem exists_child_iff {u : Url} {name : String} : (∃ v, u.child name = .ok v) ↔ u.isHierarchical = true := by
  unfold child child? isHierarchical
  cases u.path with
  | verbatim text => exact iff_of_false (fun ⟨v, hv⟩ => nomatch hv) Bool.false_ne_true
  | segments names => exact iff_of_true ⟨_, rfl⟩ rfl

/-- The entry of a name that becomes a segment. -/
theorem path_of_child {u v : Url} (hnormal : IsNormal u) (h : u.child name = .ok v)
    (hplaced : u.misplaces name = false) :
    ∃ segment : String, segment ≠ "" ∧ IsSegment (.of u.scheme) segment.toList ∧
      v.path = .segments (u.path.steps ++ [segment]) := by
  obtain ⟨names, hpath, rfl⟩ := of_child h
  obtain ⟨hname, hnames⟩ : keptName name ∉ emptyOrDots ∧ names ≠ ["", ""] := by
    unfold misplaces at hplaced
    rw [hpath] at hplaced
    simpa using hplaced
  have hbase := pushBase_eq_steps hnames
  refine ⟨newSegment (.of u.scheme) (pushBase names) name, newSegment_ne hname,
    isSegment_kept _ (isSegment_of_kept hname), ?_⟩
  rw [hpath, ← hbase]
  refine congrArg Path.segments (pushSegment_eq hname fun hfile => ?_)
  rw [hbase]
  exact head_steps ((hnormal.isPath hpath).2 hfile)

theorem isEntryOf_of_path {u v : Url} (hnormal : IsNormal u) (h : u.child name = .ok v)
    (hplaced : u.misplaces name = false) : IsEntryOf v u := by
  obtain ⟨segment, hne, hsegment, hv⟩ := path_of_child hnormal h hplaced
  obtain ⟨names, hpath, rfl⟩ := of_child h
  refine ⟨rfl, segment.toList, fun hnil => hne (String.toList_inj.mp hnil), hsegment.unsplit, ?_⟩
  rw [hv, hpath, stem_segments (hnormal.isPath hpath).1]
  exact segmentsText_concat _ segment

/-- The text of an entry neither ends with a slash nor is the text of its directory. -/
theorem not_isEntryOf_of_mem {u v : Url} (hnormal : IsNormal u) (h : u.child name = .ok v)
    (hname : keptName name ∈ emptyOrDots) : ¬IsEntryOf v u := by
  rintro ⟨-, segment, hne, hunsplit, hv⟩
  obtain ⟨names, hpath, rfl⟩ := of_child h
  rw [hpath, stem_segments (hnormal.isPath hpath).1] at hv
  rcases pushSegment_of_mem names hname with hsame | ⟨before, hslash⟩
  · rw [hsame] at hv
    by_cases hroot : withoutEndSlash names = [""]
    · -- the path is one slash, and an entry has a segment behind it
      rw [hroot] at hv
      have hslash : (segmentsText [""]).toList = ['/'] := by decide
      have hlength := congrArg List.length (hslash.symm.trans hv)
      have hpos := List.length_pos_iff.mpr hne
      rw [List.length_singleton, List.length_append, List.length_cons] at hlength
      omega
    · have hsteps : withoutEndSlash names = (Path.segments names).steps := by
        rw [← pushBase_eq_steps (by rintro rfl; exact hroot rfl)]
        exact (if_neg hroot).symm
      rw [hsteps] at hv
      exact List.cons_ne_nil _ _ (List.self_eq_append_right.mp hv)
  · -- the path ends with a slash, and an entry with its segment
    rw [hslash] at hv
    have hend := congrArg List.getLast? ((segmentsText_concat before "").symm.trans hv)
    rw [String.toList_empty, List.getLast?_concat, List.append_cons, List.getLast?_append_of_ne_nil _ hne] at hend
    have hmark := hunsplit '/' (List.mem_of_getLast? hend.symm)
    rw [isSlash_slash] at hmark
    cases hmark

/-- Of a path of two empty segments the one that stands for the root is lost. -/
theorem not_isEntryOf_of_root {u v : Url} (h : u.child name = .ok v) (hpath : u.path = .segments ["", ""])
    (hfile : SchemeKind.of u.scheme ≠ .file) (hname : keptName name ∉ emptyOrDots) : ¬IsEntryOf v u := by
  rintro ⟨-, segment, hne, hunsplit, hv⟩
  obtain ⟨names, hnames, rfl⟩ := of_child h
  cases hpath.symm.trans hnames
  -- one of the two segments is dropped as the end of the path, the other one as the root
  have hsegment : IsSegment (.of u.scheme) (newSegment (.of u.scheme) [] name).toList :=
    isSegment_kept [] (isSegment_of_kept hname)
  rw [pushSegment_eq hname fun hkind => absurd hkind hfile, hpath] at hv
  have htext : '/' :: (newSegment (.of u.scheme) [] name).toList = '/' :: '/' :: segment := by
    rw [← List.nil_append ('/' :: (newSegment (.of u.scheme) [] name).toList)]
    exact (segmentsText_concat [] _).symm.trans hv
  have hmark := hsegment.unsplit '/' ((List.cons.inj htext).2 ▸ List.mem_cons_self)
  rw [isSlash_slash] at hmark
  cases hmark

theorem isEntryOf_iff {u v : Url} (hnormal : IsNormal u) (h : u.child name = .ok v) :
    IsEntryOf v u ↔ u.misplaces name = false := by
  refine ⟨fun hentry => Bool.eq_false_iff.mpr fun hplaced => ?_, isEntryOf_of_path hnormal h⟩
  by_cases hname : keptName name ∈ emptyOrDots
  · exact not_isEntryOf_of_mem hnormal h hname hentry
  · have hpath : u.path = .segments ["", ""] := by
      unfold misplaces at hplaced
      rw [decide_eq_false hname, Bool.false_or, decide_eq_true_eq] at hplaced
      exact hplaced
    have hfile : SchemeKind.of u.scheme ≠ .file := by
      intro hfile
      rcases (hnormal.isPath hpath).2 hfile with htrimmed | ⟨first, hfirst, hne⟩
      · cases htrimmed
      · exact hne (Option.some.inj hfirst).symm
    exact not_isEntryOf_of_root h hpath hfile hname hentry

/-- An entry is neither its directory nor on the way there nor beside it. -/
theorem apart_of_path {u v : Url} {segment : String} (hpath : v.path = .segments (u.path.steps ++ [segment]))
    (hne : segment ≠ "") : ¬IsAncestorOf v u ∧ ¬IsSiblingOf v u := by
  have hsteps : v.path.steps = u.path.steps ++ [segment] := by
    rw [hpath, steps_concat, if_neg hne]
  refine ⟨fun ⟨_, _, hprefix, _⟩ => ?_, fun ⟨_, _, before, x, y, hx, hy⟩ => ?_⟩
  · have hlength := hprefix.length_le
    rw [hsteps, List.length_append] at hlength
    exact absurd hlength (by simp)
  · have hlength := congrArg List.length (hsteps.symm.trans hx)
    rw [hy] at hlength
    simp at hlength

theorem length_le_stem (p : Path) : p.text.toList.length ≤ p.stem.length + 1 := by
  unfold Path.stem
  split
  · rw [List.length_dropLast]
    omega
  · omega

theorem IsEntryOf.text_ne {u v : Url} (h : IsEntryOf v u) : v.text ≠ u.text := by
  obtain ⟨hsame, segment, hne, -, hv⟩ := h
  intro htext
  rw [hsame] at htext
  have hpath : v.path.text = u.path.text :=
    (String.append_right_inj _).mp ((String.append_left_inj _).mp htext)
  have hlength := length_le_stem u.path
  have hpos := List.length_pos_iff.mpr hne
  rw [← hpath, hv, List.length_append, List.length_cons] at hlength
  omega

/-- The URL of an entry differs from that of the directory in its path alone. It is one step below the
directory, and so neither the directory itself nor a place above or beside it, unless nothing but dots is left
of the name or the path of the directory is two slashes. -/
theorem child_isEntryOf_iff {text name : String} {u v : Url} (hu : ofRemote text = .ok u)
    (hv : u.child name = .ok v) :
    v = { u with path := v.path } ∧
      (IsEntryOf v u ↔ u.misplaces name = false) ∧
      (IsEntryOf v u → v.toRemote ≠ u.toRemote ∧ ¬IsAncestorOf v u ∧ ¬IsSiblingOf v u) := by
  have hnormal := isNormal_of_ofRemote hu
  refine ⟨?_, isEntryOf_iff hnormal hv, fun hentry => ⟨hentry.text_ne, ?_⟩⟩
  · obtain ⟨_, _, rfl⟩ := of_child hv
    rfl
  · obtain ⟨_, hne, -, hpath⟩ := path_of_child hnormal hv ((isEntryOf_iff hnormal hv).mp hentry)
    exact apart_of_path hpath hne

theorem child_isEntryOf_separator :
    ∃ u v, ofRemote "lsif://proj/src/" = .ok u ∧ u.child "odd/name" = .ok v ∧
      v.toRemote = "lsif://proj/src/odd%2Fname" ∧ IsEntryOf v u ∧ ¬IsAncestorOf v u := by
  have hdirectory : ofRemote "lsif://proj/src/" =
      .ok ⟨"lsif", some ⟨"", "", "proj", none⟩, false, .segments ["src", ""], none, none⟩ := by
    decide +kernel
  have hchild : child ⟨"lsif", some ⟨"", "", "proj", none⟩, false, .segments ["src", ""], none, none⟩ "odd/name" =
      .ok ⟨"lsif", some ⟨"", "", "proj", none⟩, false, .segments ["src", "odd%2Fname"], none, none⟩ := by
    decide +kernel
  obtain ⟨-, hiff, hapart⟩ := child_isEntryOf_iff hdirectory hchild
  have hentry := hiff.mpr (by decide +kernel)
  exact ⟨_, _, hdirectory, hchild, by decide +kernel, hentry, (hapart hentry).2.1⟩

/-- A tab between two dots keeps them from being known as the name of the parent directory, and is dropped
after that: the entry is a directory above. -/
theorem child_above :
    ∃ u v, ofRemote "lsif://proj/src" = .ok u ∧ u.child ".\t." = .ok v ∧ v.toRemote = "lsif://proj/" ∧
      IsAncestorOf v u ∧ ¬IsEntryOf v u := by
  have hdirectory : ofRemote "lsif://proj/src" =
      .ok ⟨"lsif", some ⟨"", "", "proj", none⟩, false, .segments ["src"], none, none⟩ := by
    decide +kernel
  have hchild : child ⟨"lsif", some ⟨"", "", "proj", none⟩, false, .segments ["src"], none, none⟩ ".\t." =
      .ok ⟨"lsif", some ⟨"", "", "proj", none⟩, false, .segments [""], none, none⟩ := by
    decide +kernel
  refine ⟨_, _, hdirectory, hchild, by decide +kernel, ⟨rfl, rfl, List.nil_prefix, by decide⟩, ?_⟩
  rw [isEntryOf_iff (isNormal_of_ofRemote hdirectory) hchild]
  decide +kernel

end IndexFs.Url

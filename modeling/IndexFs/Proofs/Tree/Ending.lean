import IndexFs.Proofs.Tree.Unfolding
import IndexFs.Proofs.Url.Descent
import Mathlib.Data.Finset.Card
import Mathlib.Logic.Relation

/-!
# Walks that come to an end

Where only finitely many directories have entries, a walk without a limit ends unless a directory is below itself,
and where every directory can be listed it does not end otherwise (`ends_iff_isAcyclic`). A directory gets below
itself only by names of which nothing or nothing but dots is left: all other names make the path longer
(`isAcyclic_of_names`).
-/

namespace IndexFs.Walk

open Relation

variable (list : Url → Except FsError (List DirectoryEntry))

/-- The second directory is in the first one. -/
def Holds (u v : Url) : Prop :=
  v ∈ subdirectories list u

/-- Of all that can be reached from a root, nothing is below itself. -/
def IsAcyclic (root : Url) : Prop :=
  ∀ u, ReflTransGen (Holds list) root u → ¬TransGen (Holds list) u u

/-- A walk without a limit comes to an end. -/
def Ends (root : Url) : Prop :=
  ∃ fuel, ((start none root).run list fuel).isFinished = true

/-- A URL that differs from the root in its path alone. -/
def IsBelow (root u : Url) : Prop :=
  ∃ names, u = { root with path := .segments names } ∧ Url.IsPath (.of root.scheme) names ∧
    (Url.SchemeKind.of root.scheme = .file → Url.IsTrimmed names)

variable {list} {root u v : Url}

/-! ## Bounds on the ways -/

theorem EndsWithin.mono {m n : Nat} (h : EndsWithin list m u) (hmn : m ≤ n) : EndsWithin list n u :=
  fun way hway => Nat.lt_of_lt_of_le (h way hway) hmn

theorem not_endsWithin_zero : ¬EndsWithin list 0 u :=
  fun h => Nat.not_lt_zero _ (h [] rfl)

/-- What is below a directory has a smaller bound. -/
theorem EndsWithin.of_transGen {n : Nat} (h : EndsWithin list (n + 1) u) (hv : TransGen (Holds list) u v) :
    EndsWithin list n v := by
  induction hv with
  | single hv => exact h.subdirectory hv
  | tail _ hv ih => exact (ih.mono (Nat.le_succ n)).subdirectory hv

theorem EndsWithin.not_transGen {n : Nat} (h : EndsWithin list n u) : ¬TransGen (Holds list) u u := by
  intro hcycle
  induction n with
  | zero => exact not_endsWithin_zero h
  | succ n ih => exact ih (h.of_transGen hcycle)

theorem EndsWithin.isAcyclic {n : Nat} (h : EndsWithin list n root) : IsAcyclic list root := by
  intro u hu
  rcases reflTransGen_iff_eq_or_transGen.mp hu with rfl | hu
  · exact h.not_transGen
  · cases n with
    | zero => exact absurd h not_endsWithin_zero
    | succ n => exact (h.of_transGen hu).not_transGen

/-- Finitely many bounds have a greatest one. -/
theorem exists_bound (vs : List Url) (h : ∀ v ∈ vs, ∃ n, EndsWithin list n v) :
    ∃ n, ∀ v ∈ vs, EndsWithin list n v := by
  induction vs with
  | nil => exact ⟨0, fun _ hv => nomatch hv⟩
  | cons v vs ih =>
    obtain ⟨m, hm⟩ := h v List.mem_cons_self
    obtain ⟨n, hn⟩ := ih fun w hw => h w (List.mem_cons_of_mem v hw)
    refine ⟨max m n, fun w hw => ?_⟩
    rcases List.mem_cons.mp hw with rfl | hw
    · exact hm.mono (Nat.le_max_left m n)
    · exact (hn w hw).mono (Nat.le_max_right m n)

/-! ## Below a root -/

theorem ne_ok_nil (h : v ∈ subdirectories list u) : list u ≠ .ok [] := by
  intro hlist
  obtain ⟨e, he, -⟩ := mem_subdirectories.mp h
  rw [entries_of_ok hlist] at he
  cases he

theorem isBelow_self (hnormal : Url.IsNormal root) (hroot : root.isHierarchical = true) : IsBelow root root := by
  unfold Url.isHierarchical at hroot
  cases hpath : root.path with
  | verbatim text =>
    rw [hpath] at hroot
    cases hroot
  | segments names => exact ⟨names, by rw [← hpath], hnormal.isPath hpath⟩

theorem IsBelow.child {name : String} (h : IsBelow root u) (hv : u.child name = .ok v) : IsBelow root v := by
  obtain ⟨names, rfl, hpath, htrimmed⟩ := h
  obtain ⟨_, hnames, rfl⟩ := Url.of_child hv
  cases hnames
  refine ⟨_, rfl, Url.isPath_pushSegment hpath name, fun hfile => ?_⟩
  have hpushed := Url.isTrimmed_pushSegment (htrimmed hfile) name
  rwa [← hfile] at hpushed

theorem IsBelow.subdirectory (h : IsBelow root u) (hv : v ∈ subdirectories list u) : IsBelow root v := by
  obtain ⟨e, -, -, hchild⟩ := mem_subdirectories.mp hv
  exact h.child hchild

theorem IsBelow.of_reflTransGen (h : IsBelow root u) (hv : ReflTransGen (Holds list) u v) : IsBelow root v := by
  induction hv with
  | refl => exact h
  | tail _ hv ih => exact ih.subdirectory hv

/-- URLs below a root are told by their texts. -/
theorem IsBelow.eq_of_toRemote (hu : IsBelow root u) (hv : IsBelow root v) (h : u.toRemote = v.toRemote) : u = v := by
  obtain ⟨names, rfl, hnames, -⟩ := hu
  obtain ⟨names', rfl, hnames', -⟩ := hv
  rw [Url.segmentsText_inj hnames hnames' (Url.path_text_eq h)]

/-- Where nothing is below itself, every step down leaves one directory fewer that can have entries. -/
theorem endsWithin_of_isAcyclic {n : Nat} {filled : Finset String} (hcard : filled.card ≤ n) (hu : IsBelow root u)
    (hacyclic : IsAcyclic list u)
    (hfilled : ∀ v, ReflTransGen (Holds list) u v → list v ≠ .ok [] → v.toRemote ∈ filled) :
    EndsWithin list (n + 1) u := by
  induction n generalizing filled u with
  | zero =>
    refine endsWithin_succ fun v hv => ?_
    have hmem := hfilled u .refl (ne_ok_nil hv)
    rw [Finset.card_eq_zero.mp (Nat.le_zero.mp hcard)] at hmem
    exact absurd hmem (Finset.notMem_empty _)
  | succ n ih =>
    refine endsWithin_succ fun v hv => ?_
    have hmem := hfilled u .refl (ne_ok_nil hv)
    have hcard' : (filled.erase u.toRemote).card ≤ n := by
      rw [Finset.card_erase_of_mem hmem]
      omega
    refine ih hcard' (hu.subdirectory hv) (fun w hw => hacyclic w (hw.head hv)) fun w hw hentries => ?_
    refine Finset.mem_erase.mpr ⟨fun hsame => ?_, hfilled w (hw.head hv) hentries⟩
    -- the directory itself does not come again
    obtain rfl := ((hu.subdirectory hv).of_reflTransGen hw).eq_of_toRemote hu hsame
    exact hacyclic w .refl (.head' hv hw)

/-- Only finitely many directories are below a root where nothing is below itself. -/
theorem exists_endsWithin_of_isAcyclic (hfinite : (Url.toRemote '' {u | list u ≠ .ok []}).Finite)
    (hroot : IsBelow root root) (hacyclic : IsAcyclic list root) : ∃ n, EndsWithin list n root := by
  refine ⟨hfinite.toFinset.card + 1, endsWithin_of_isAcyclic (Nat.le_refl _) hroot hacyclic fun v _ hv => ?_⟩
  exact hfinite.mem_toFinset.mpr ⟨v, hv, rfl⟩

/-! ## Walks -/

theorem ends_of_endsWithin {n : Nat} (hroot : root.isHierarchical = true) (h : EndsWithin list n root) :
    Ends list root :=
  ⟨_, (follows_places hroot (.inr ⟨rfl, h⟩) (Nat.le_refl _)).1⟩

theorem child_of_verbatim (h : u.isHierarchical = false) (name : String) : ∃ e, u.child name = .error e := by
  cases hchild : u.child name with
  | error e => exact ⟨e, rfl⟩
  | ok v =>
    rw [Url.exists_child_iff.mp ⟨v, hchild⟩] at h
    cases h

theorem subdirectories_of_verbatim (h : u.isHierarchical = false) : subdirectories list u = [] := by
  refine List.eq_nil_iff_forall_not_mem.mpr fun v hv => ?_
  obtain ⟨e, -, -, hchild⟩ := mem_subdirectories.mp hv
  obtain ⟨error, hfails⟩ := child_of_verbatim h e.name
  rw [hfails] at hchild
  cases hchild

theorem eq_nil_of_expand {d : Visit} {es : List DirectoryEntry} {found : List Visit}
    (h : d.url.isHierarchical = false) (hexpand : (expand d es).2 = .ok found) : found = [] := by
  induction es with
  | nil => exact (Except.ok.inj hexpand).symm
  | cons e es ih =>
    unfold expand at hexpand
    by_cases hkind : e.kind = .directory
    · obtain ⟨error, hfails⟩ := child_of_verbatim h e.name
      rw [if_pos hkind, hfails] at hexpand
      cases hexpand
    · rw [if_neg hkind] at hexpand
      exact ih hexpand

/-- Below a URL that is no hierarchy nothing is visited. -/
theorem ends_of_verbatim (h : root.isHierarchical = false) : Ends list root := by
  have hstep : (start none root).step list = (start none root).resume ⟨root, 0⟩ [] (list root) := step_eq rfl rfl
  refine ⟨1, ?_⟩
  rw [run_succ (not_isFinished_of_pending_cons rfl rfl), hstep]
  show (resume _ _ _ _).isFinished = true
  unfold resume
  cases list root with
  | error e => exact isFinished_of_error rfl
  | ok es =>
    dsimp only
    cases hexpand : expand ⟨root, 0⟩ es with
    | mk lines found =>
      cases found with
      | error e => exact isFinished_of_error rfl
      | ok found =>
        obtain rfl : found = [] := eq_nil_of_expand h (congrArg Prod.snd hexpand)
        exact isFinished_of_pending_nil rfl

theorem mem_visitsBelow {v x : Visit} :
    x ∈ visitsBelow list none v ↔ ∃ u ∈ subdirectories list v.url, ⟨u, v.depth + 1⟩ = x := by
  rw [visitsBelow_none, List.mem_map]

/-- A walk without a limit that still has to visit a directory below which the ways have no bound. -/
structure IsUnbounded (list : Url → Except FsError (List DirectoryEntry)) (w : Walk) : Prop where
  limit : w.limit = none
  error : w.error = none
  hierarchical : ∀ v ∈ w.pending, v.url.isHierarchical = true
  unbounded : ∃ v ∈ w.pending, ∀ n, ¬EndsWithin list n v.url

namespace IsUnbounded

variable {w : Walk}

theorem isFinished (h : IsUnbounded list w) : w.isFinished = false := by
  obtain ⟨v, hv, -⟩ := h.unbounded
  obtain ⟨first, others, hpending⟩ := List.exists_cons_of_ne_nil (List.ne_nil_of_mem hv)
  exact not_isFinished_of_pending_cons h.error hpending

/-- If the ways below a directory have no bound, then those below one of the directories in it have none. -/
theorem step (hlisted : ∀ u, ∃ es, list u = .ok es) (h : IsUnbounded list w) :
    IsUnbounded list (w.step list) ∧ (w.step list).requested.length = w.requested.length + 1 := by
  obtain ⟨v, hv, hunbounded⟩ := h.unbounded
  obtain ⟨first, others, hpending⟩ := List.exists_cons_of_ne_nil (List.ne_nil_of_mem hv)
  obtain ⟨es, hlist⟩ := hlisted first.url
  have hfirst := h.hierarchical first (by rw [hpending]; exact List.mem_cons_self)
  obtain ⟨hpending', hlimit, herror, hrequested, -⟩ :=
    pending_step h.error hpending hlist (isOpen_of_isHierarchical hfirst)
  -- the directories below come to the front of the pending ones
  rw [h.limit] at hpending'
  refine ⟨⟨hlimit.trans h.limit, herror, fun x hx => ?_, ?_⟩, ?_⟩
  · rw [hpending', List.mem_append, mem_visitsBelow] at hx
    rcases hx with ⟨u, hu, rfl⟩ | hx
    · obtain ⟨e, -, -, hchild⟩ := mem_subdirectories.mp hu
      exact isHierarchical_of_child hchild
    · exact h.hierarchical x (by rw [hpending]; exact List.mem_cons_of_mem _ hx)
  · rw [hpending']
    rw [hpending] at hv
    -- if every directory below ended, the one that lists them would end as well
    rcases List.mem_cons.mp hv with rfl | hv
    · by_contra hall
      obtain ⟨n, hn⟩ := exists_bound (subdirectories list v.url) fun u hu => by
        by_contra hnone
        exact hall ⟨_, List.mem_append_left _ (mem_visitsBelow.mpr ⟨u, hu, rfl⟩), fun n hn => hnone ⟨n, hn⟩⟩
      exact hunbounded _ (endsWithin_succ hn)
    · exact ⟨v, List.mem_append_right _ hv, hunbounded⟩
  · rw [hrequested, List.length_append, List.length_singleton]

/-- Such a walk never ends, and asks for one directory after the other. -/
theorem run (hlisted : ∀ u, ∃ es, list u = .ok es) (h : IsUnbounded list w) (fuel : Nat) :
    (w.run list fuel).isFinished = false ∧
      (w.run list fuel).requested.length = w.requested.length + fuel := by
  induction fuel generalizing w with
  | zero => exact ⟨h.isFinished, rfl⟩
  | succ fuel ih =>
    obtain ⟨hstep, hrequested⟩ := h.step hlisted
    rw [run_succ h.isFinished, Nat.add_comm fuel, ← Nat.add_assoc, ← hrequested]
    exact ih hstep

end IsUnbounded

theorem isUnbounded_start (hroot : root.isHierarchical = true) (h : ∀ n, ¬EndsWithin list n root) :
    IsUnbounded list (start none root) where
  limit := rfl
  error := rfl
  hierarchical v hv := by
    rw [List.mem_singleton.mp hv]
    exact hroot
  unbounded := ⟨⟨root, 0⟩, List.mem_singleton_self _, h⟩

/-- A walk through directories that can be listed ends only where there is a bound on the ways. -/
theorem exists_endsWithin_of_ends (hlisted : ∀ u, ∃ es, list u = .ok es) (hroot : root.isHierarchical = true)
    (h : Ends list root) : ∃ n, EndsWithin list n root := by
  by_contra hnone
  obtain ⟨fuel, hfinished⟩ := h
  have hrun := ((isUnbounded_start hroot fun n hn => hnone ⟨n, hn⟩).run hlisted fuel).1
  rw [hfinished] at hrun
  cases hrun

/-! ## Names that become segments -/

/-- Every name of a directory becomes a segment. -/
def NamesSegments (list : Url → Except FsError (List DirectoryEntry)) : Prop :=
  ∀ u, ∀ e ∈ entries list u, e.kind = .directory → Url.keptName e.name ∉ Url.emptyOrDots

/-- How many segments stand in front of a new one. -/
def level (u : Url) : Nat :=
  match u.path with
  | .verbatim _ => 0
  | .segments names => (Url.pushBase names).length

theorem level_subdirectory (hnames : NamesSegments list) (hu : IsBelow root u) (hv : v ∈ subdirectories list u) :
    level v = level u + 1 := by
  obtain ⟨e, he, hkind, hchild⟩ := mem_subdirectories.mp hv
  obtain ⟨names, rfl, -, htrimmed⟩ := hu
  obtain ⟨_, hpath, rfl⟩ := Url.of_child hchild
  cases hpath
  show (Url.pushBase (Url.pushSegment _ _ _)).length = (Url.pushBase names).length + 1
  rw [Url.pushBase_pushSegment (hnames _ e he hkind) fun hfile => Url.head_pushBase (htrimmed hfile),
    List.length_append, List.length_singleton]

theorem level_lt (hnames : NamesSegments list) (hu : IsBelow root u) (hv : TransGen (Holds list) u v) :
    level u < level v := by
  induction hv with
  | single hv =>
    rw [level_subdirectory hnames hu hv]
    exact Nat.lt_succ_self _
  | tail hw hv ih =>
    rw [level_subdirectory hnames (hu.of_reflTransGen hw.to_reflTransGen) hv]
    exact Nat.lt_succ_of_lt ih

theorem isAcyclic_of_names (hnames : NamesSegments list) (hroot : IsBelow root root) : IsAcyclic list root :=
  fun _ hu hcycle => Nat.lt_irrefl _ (level_lt hnames (hroot.of_reflTransGen hu) hcycle)

/-! ## The end -/

/-- Where finitely many directories have entries, a walk without a limit ends unless a directory is below itself,
and if all of them can be listed only then. No directory is below itself where all names of directories become
segments. -/
theorem ends_iff_isAcyclic {text : String} (hroot : Url.ofRemote text = .ok root)
    (hfinite : (Url.toRemote '' {u | list u ≠ .ok []}).Finite) :
    (IsAcyclic list root → Ends list root) ∧
      ((∀ u, ∃ es, list u = .ok es) → Ends list root → IsAcyclic list root) ∧
      (NamesSegments list → IsAcyclic list root ∧ Ends list root) := by
  cases hhierarchical : root.isHierarchical with
  | false =>
    have hacyclic : IsAcyclic list root := by
      -- below a verbatim path nothing can be opened, so that the walk is over after its root
      refine (endsWithin_succ (n := 0) fun v hv => ?_).isAcyclic
      rw [subdirectories_of_verbatim hhierarchical] at hv
      cases hv
    have hends : Ends list root := ends_of_verbatim hhierarchical
    exact ⟨fun _ => hends, fun _ _ => hacyclic, fun _ => ⟨hacyclic, hends⟩⟩
  | true =>
    have hbelow := isBelow_self (Url.isNormal_of_ofRemote hroot) hhierarchical
    have hends : IsAcyclic list root → Ends list root := by
      intro hacyclic
      obtain ⟨n, hn⟩ := exists_endsWithin_of_isAcyclic hfinite hbelow hacyclic
      exact ends_of_endsWithin hhierarchical hn
    refine ⟨hends, fun hlisted h => ?_, fun hnames => ?_⟩
    · obtain ⟨n, hn⟩ := exists_endsWithin_of_ends hlisted hhierarchical h
      exact hn.isAcyclic
    · have hacyclic := isAcyclic_of_names hnames hbelow
      exact ⟨hacyclic, hends hacyclic⟩

/-- Names are no paths: a directory with the name of two steps up is below its root. -/
theorem ends_iff_isAcyclic_separator :
    ∃ (index : Index) (root : Url), Url.ofRemote "lsif://proj" = .ok root ∧
      (Url.toRemote '' {u | index.list u ≠ .ok []}).Finite ∧
      index.list root = .ok [⟨"..", .file⟩, ⟨"../..", .directory⟩] ∧ NamesSegments index.list ∧
      IsAcyclic index.list root ∧ Ends index.list root := by
  have hfinite := Index.finite_ofTable [("lsif://proj", [⟨"..", .file⟩, ⟨"../..", .directory⟩])]
  have hnames : NamesSegments (Index.ofTable [("lsif://proj", [⟨"..", .file⟩, ⟨"../..", .directory⟩])]).list := by
    intro u e he hkind
    obtain ⟨p, hp, he⟩ := Index.mem_entries_ofTable he
    rw [List.mem_singleton.mp hp] at he
    rcases List.mem_pair.mp he with rfl | rfl
    · cases hkind
    · decide
  exact ⟨_, _, ofRemote_proj, hfinite, by decide +kernel, hnames,
    (ends_iff_isAcyclic ofRemote_proj hfinite).2.2 hnames⟩

/-- A directory with the name of a dot is its own entry, and a walk asks for it again and again. -/
theorem walk_endless :
    ∃ (index : Index) (root : Url), Url.ofRemote "lsif://proj" = .ok root ∧
      (Url.toRemote '' {u | index.list u ≠ .ok []}).Finite ∧ index.list root = .ok [⟨".", .directory⟩] ∧
      ∀ fuel, ((start none root).run index.list fuel).isFinished = false ∧
        ((start none root).run index.list fuel).requested.length = fuel := by
  have hroot : (Index.ofTable [("lsif://proj", [⟨".", .directory⟩])]).list (projUrl []) =
      .ok [⟨".", .directory⟩] := by
    decide +kernel
  have hself : Holds (Index.ofTable [("lsif://proj", [⟨".", .directory⟩])]).list (projUrl []) (projUrl []) := by
    refine mem_subdirectories.mpr ⟨⟨".", .directory⟩, ?_, rfl, by decide +kernel⟩
    rw [entries_of_ok hroot]
    exact List.mem_singleton_self _
  -- the ways from a directory to itself have no bound
  have hunbounded := isUnbounded_start rfl fun n (hn : EndsWithin _ n (projUrl [])) => hn.not_transGen (.single hself)
  refine ⟨_, _, ofRemote_proj, Index.finite_ofTable _, hroot, fun fuel => ?_⟩
  have hrun := hunbounded.run (fun u => ⟨_, Index.list_ofTable _ u⟩) fuel
  rwa [show (start none (projUrl [])).requested.length = 0 from rfl, Nat.zero_add] at hrun

end IndexFs.Walk

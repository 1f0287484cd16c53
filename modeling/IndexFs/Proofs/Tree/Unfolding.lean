import IndexFs.Proofs.Tree.Listing
import IndexFs.Proofs.Url.Child
import Mathlib.Data.Set.Finite.Lattice
import Mathlib.Order.Bounds.Basic

/-!
# The unfolding of a listing

All that is below a directory, with every way that leads to a directory taken by itself. A way says which of the
directories is entered at each step (`directoryAt`). A walk asks for the directories in the order of the ways to
them, for each way once, and without a bound on the depth it comes to an end wherever there are finitely many ways
(`follows_unfolding`).
-/

namespace IndexFs.Walk

variable (list : Url → Except FsError (List DirectoryEntry))

/-- The directory at the end of a way from `u`. -/
def directoryAt (u : Url) : List Nat → Option Url
  | [] => some u
  | i :: way => (subdirectories list u)[i]?.bind fun v => directoryAt v way

/-- A directory of the unfolding: the way to it, and its URL. -/
structure Place where
  way : List Nat
  url : Url

namespace Place

/-- The same directory, seen from the directory in which the way starts at the `i`th one. -/
def under (i : Nat) (p : Place) : Place :=
  ⟨i :: p.way, p.url⟩

/-- The visit of a directory, where the way to it starts at some depth. -/
def visitFrom (depth : Nat) (p : Place) : Visit :=
  ⟨p.url, depth + p.way.length⟩

def visit (p : Place) : Visit :=
  ⟨p.url, p.way.length⟩

theorem visitFrom_zero : visitFrom 0 = visit := by
  funext p
  show Visit.mk p.url (0 + p.way.length) = _
  rw [Nat.zero_add]
  rfl

theorem visitFrom_under (depth i : Nat) : visitFrom depth ∘ under i = visitFrom (depth + 1) := by
  funext p
  show Visit.mk p.url (depth + (p.way.length + 1)) = Visit.mk p.url (depth + 1 + p.way.length)
  congr 1
  omega

end Place

/-- The directories at the ends of all ways of less than `n` steps. -/
def places : Nat → Url → List Place
  | 0, _ => []
  | n + 1, u =>
    ⟨[], u⟩ :: (subdirectories list u).zipIdx.flatMap fun (v, i) => (places n v).map (Place.under i)

/-- All ways from a directory have less than `n` steps. -/
def EndsWithin (n : Nat) (u : Url) : Prop :=
  ∀ way, (directoryAt list u way).isSome = true → way.length < n

variable {list} {limit : Option Nat}

/-! ## Ways -/

theorem places_succ (n : Nat) (u : Url) :
    places list (n + 1) u =
      ⟨[], u⟩ :: (subdirectories list u).zipIdx.flatMap fun (v, i) => (places list n v).map (Place.under i) :=
  rfl

theorem mem_places {n : Nat} {u : Url} {p : Place} :
    p ∈ places list n u ↔ directoryAt list u p.way = some p.url ∧ p.way.length < n := by
  induction n generalizing u p with
  | zero => simp [places]
  | succ n ih =>
    obtain ⟨way, v⟩ := p
    rw [places_succ, List.mem_cons, List.mem_flatMap]
    cases way with
    -- the way is empty at the directory itself, and every way below has a first step
    | nil =>
      have hinner : ¬∃ x ∈ (subdirectories list u).zipIdx, ⟨[], v⟩ ∈ (places list n x.1).map (Place.under x.2) := by
        rintro ⟨x, -, hx⟩
        obtain ⟨q, -, hq⟩ := List.mem_map.mp hx
        cases hq
      rw [or_iff_left hinner]
      constructor
      · intro h
        cases h
        exact ⟨rfl, Nat.succ_pos n⟩
      · rintro ⟨h, -⟩
        rw [Option.some.inj h]
    | cons i way =>
      have hfirst : ¬(⟨i :: way, v⟩ : Place) = ⟨[], u⟩ := nofun
      rw [or_iff_right hfirst]
      constructor
      · rintro ⟨⟨w, j⟩, hw, hp⟩
        obtain ⟨q, hq, hunder⟩ := List.mem_map.mp hp
        obtain ⟨hat, hlength⟩ := ih.mp hq
        cases hunder
        refine ⟨?_, Nat.succ_lt_succ hlength⟩
        show (subdirectories list u)[_]?.bind _ = _
        rw [List.mem_zipIdx_iff_getElem?.mp hw]
        exact hat
      · rintro ⟨hat, hlength⟩
        obtain ⟨w, hw, hat⟩ := Option.bind_eq_some_iff.mp hat
        refine ⟨(w, i), List.mem_zipIdx_iff_getElem?.mpr hw, List.mem_map.mpr ⟨⟨way, v⟩, ?_, rfl⟩⟩
        exact ih.mpr ⟨hat, Nat.lt_of_succ_lt_succ hlength⟩

/-- The places are in the order of their ways: a directory stands before what is below it, and that before the
directories after it. -/
theorem pairwise_places (n : Nat) (u : Url) : (places list n u).Pairwise fun p q => p.way < q.way := by
  induction n generalizing u with
  | zero => exact List.Pairwise.nil
  | succ n ih =>
    refine List.pairwise_cons.mpr ⟨fun q hq => ?_, List.pairwise_flatMap.mpr ⟨fun x _ => ?_, ?_⟩⟩
    · obtain ⟨x, -, hx⟩ := List.mem_flatMap.mp hq
      obtain ⟨r, -, rfl⟩ := List.mem_map.mp hx
      exact List.nil_lt_cons _ _
    · exact List.pairwise_map.mpr ((ih x.1).imp fun h => List.cons_lt_cons_iff.mpr (.inr ⟨rfl, h⟩))
    · have hindices : (subdirectories list u).zipIdx.Pairwise fun x y => x.2 < y.2 := by
        refine List.pairwise_map.mp ?_
        rw [List.zipIdx_map_snd]
        exact List.pairwise_lt_range'
      refine hindices.imp fun hlt p hp q hq => ?_
      obtain ⟨r, -, rfl⟩ := List.mem_map.mp hp
      obtain ⟨s, -, rfl⟩ := List.mem_map.mp hq
      exact List.cons_lt_cons_iff.mpr (.inl hlt)

theorem EndsWithin.subdirectory {n : Nat} {u v : Url} (h : EndsWithin list (n + 1) u)
    (hv : v ∈ subdirectories list u) : EndsWithin list n v := by
  intro way hway
  obtain ⟨i, hi⟩ := List.mem_iff_getElem?.mp hv
  refine Nat.lt_of_succ_lt_succ (h (i :: way) ?_)
  show ((subdirectories list u)[i]?.bind _).isSome = true
  rw [hi]
  exact hway

/-- A directory has a bound by one greater than those of the directories in it. -/
theorem endsWithin_succ {n : Nat} {u : Url}
    (h : ∀ v ∈ subdirectories list u, EndsWithin list n v) :
    EndsWithin list (n + 1) u := by
  intro way hway
  cases way with
  | nil => exact Nat.succ_pos n
  | cons i way =>
    obtain ⟨w, hw⟩ := Option.isSome_iff_exists.mp hway
    obtain ⟨v, hv, hw⟩ := Option.bind_eq_some_iff.mp hw
    exact Nat.succ_lt_succ (h v (List.mem_of_getElem? hv) way (by rw [hw]; rfl))

/-- Finitely many ways have a bound on their lengths. -/
theorem exists_endsWithin {u : Url} (h : {way | (directoryAt list u way).isSome = true}.Finite) :
    ∃ n, EndsWithin list n u := by
  obtain ⟨n, hn⟩ := (h.image List.length).bddAbove
  exact ⟨n + 1, fun way hway => Nat.lt_succ_of_le (hn ⟨way, hway, rfl⟩)⟩

/-- A bound on their lengths leaves finitely many ways. -/
theorem EndsWithin.finite {n : Nat} {u : Url} (h : EndsWithin list n u) :
    {way | (directoryAt list u way).isSome = true}.Finite := by
  refine ((places list n u).map Place.way).finite_toSet.subset fun way hway => ?_
  obtain ⟨v, hv⟩ := Option.isSome_iff_exists.mp hway
  exact List.mem_map.mpr ⟨⟨way, v⟩, mem_places.mpr ⟨hv, h way hway⟩, rfl⟩

/-- There is only one order of the places. -/
theorem eq_places {n : Nat} {u : Url} (h : EndsWithin list n u) {order : List Place}
    (hsorted : order.Pairwise fun p q => p.way < q.way)
    (hmem : ∀ p, p ∈ order ↔ directoryAt list u p.way = some p.url) : order = places list n u := by
  have hnodup : ∀ ps : List Place, ps.Pairwise (fun p q => p.way < q.way) → ps.Nodup := by
    intro ps hps
    refine hps.imp fun {p q} hlt heq => ?_
    rw [heq] at hlt
    exact List.lt_irrefl q.way hlt
  have hperm : order.Perm (places list n u) := by
    refine (List.perm_ext_iff_of_nodup (hnodup _ hsorted) (hnodup _ (pairwise_places n u))).mpr fun p => ?_
    rw [hmem, mem_places, iff_self_and]
    exact fun hat => h p.way (by rw [hat]; rfl)
  exact hperm.eq_of_pairwise (fun p q _ _ hlt hgt => absurd hlt (List.lt_asymm hgt)) hsorted (pairwise_places n u)

/-! ## Going through the unfolding -/

theorem map_visit_below (depth n : Nat) (u : Url) :
    (places list (n + 1) u).map (Place.visitFrom depth) =
      ⟨u, depth⟩ :: (subdirectories list u).flatMap fun v => (places list n v).map (Place.visitFrom (depth + 1)) := by
  have hurls : (subdirectories list u).zipIdx.map Prod.fst = subdirectories list u := List.zipIdx_map_fst 0 _
  rw [places_succ, List.map_cons, List.map_flatMap]
  refine congrArg (_ :: ·) ?_
  conv_rhs => rw [← hurls, List.flatMap_map]
  refine List.flatMap_congr fun x _ => ?_
  rw [List.map_map, Place.visitFrom_under]

/-- The order of the places is the one in which a walk goes through them, with a limit or where there are no
other places. -/
theorem depthFirst_places {n depth : Nat} {u : Url}
    (h : limit = some (depth + n) ∨ limit = none ∧ EndsWithin list n u) :
    DepthFirst (visitsBelow list limit) ([⟨u, depth⟩].filter (reaches limit ·.depth))
      ((places list n u).map (Place.visitFrom depth)) := by
  induction n generalizing u depth with
  | zero =>
    rcases h with rfl | ⟨-, hends⟩
    · -- with no depth left nothing is entered
      have hbeyond : reaches (some (depth + 0)) depth = false := decide_eq_false (Nat.lt_irrefl depth)
      rw [List.filter_cons, if_neg (by rw [hbeyond]; decide)]
      exact .nil
    · exact absurd (hends [] rfl) (Nat.lt_irrefl 0)
  | succ n ih =>
    have hwithin : reaches limit depth = true := by
      rcases h with rfl | ⟨rfl, -⟩
      · exact decide_eq_true (by omega)
      · rfl
    have hbelow : visitsBelow list limit ⟨u, depth⟩ =
        (subdirectories list u).flatMap fun v => [⟨v, depth + 1⟩].filter (reaches limit ·.depth) := by
      unfold visitsBelow
      rw [List.map_eq_flatMap, List.filter_flatMap]
    rw [map_visit_below, List.filter_cons, if_pos hwithin, List.filter_nil]
    rw [← List.append_nil (List.flatMap _ _)]
    refine .cons ?_ .nil
    rw [hbelow]
    refine DepthFirst.flatMap fun v hv => ih ?_
    -- one level further down the limit or the bound is smaller by one
    rcases h with rfl | ⟨hnone, hends⟩
    · exact .inl (congrArg some (by omega))
    · exact .inr ⟨hnone, hends.subdirectory hv⟩

theorem isOpen_of_isHierarchical {u : Url} (h : u.isHierarchical = true) : IsOpen list u :=
  fun _ _ _ => Url.exists_child_iff.mpr h

theorem isHierarchical_of_child {u v : Url} {name : String} (h : u.child name = .ok v) :
    v.isHierarchical = true := by
  obtain ⟨names, -, rfl⟩ := Url.of_child h
  rfl

theorem isHierarchical_of_directoryAt {way : List Nat} {u v : Url} (hu : u.isHierarchical = true)
    (h : directoryAt list u way = some v) : v.isHierarchical = true := by
  induction way generalizing u with
  | nil =>
    rw [← Option.some.inj h]
    exact hu
  | cons i way ih =>
    obtain ⟨w, hw, h⟩ := Option.bind_eq_some_iff.mp h
    obtain ⟨e, -, -, hchild⟩ := mem_subdirectories.mp (List.mem_of_getElem? hw)
    exact ih (isHierarchical_of_child hchild) h

/-- A walk through all places goes along their order. -/
theorem follows_places {root : Url} {n : Nat} (hroot : root.isHierarchical = true)
    (h : limit = some n ∨ limit = none ∧ EndsWithin list n root) {fuel : Nat}
    (hfuel : (places list n root).length ≤ fuel) :
    ((start limit root).run list fuel).isFinished = true ∧
      Follows list ((places list n root).map Place.visit) (start limit root) ((start limit root).run list fuel) := by
  have horder : DepthFirst (visitsBelow list limit) (start limit root).pending
      ((places list n root).map Place.visit) := by
    rw [← Place.visitFrom_zero]
    exact depthFirst_places (by rwa [Nat.zero_add])
  refine follows_run rfl horder (fun v hv => ?_) (by rwa [List.length_map])
  obtain ⟨p, hp, rfl⟩ := List.mem_map.mp hv
  exact isOpen_of_isHierarchical (isHierarchical_of_directoryAt hroot (mem_places.mp hp).1)

/-- A walk ends. It asks for the directories of the unfolding within its limit in the order of the ways to them,
and prints the root and the entries of each of them, up to the end or to the first directory that cannot be listed. -/
theorem follows_unfolding {root : Url} (hroot : root.isHierarchical = true) (limit : Option Nat)
    (hfinite : limit = none → {way | (directoryAt list root way).isSome = true}.Finite) :
    ∃ order : List Place,
      order.Pairwise (fun p q => p.way < q.way) ∧
      (∀ p, p ∈ order ↔ directoryAt list root p.way = some p.url ∧ reaches limit p.way.length = true) ∧
      ∀ fuel, order.length ≤ fuel →
        ((start limit root).run list fuel).isFinished = true ∧
          Prints list root (order.map Place.visit) ((start limit root).run list fuel) := by
  have hprints : ∀ n, (limit = some n ∨ limit = none ∧ EndsWithin list n root) → ∀ fuel,
      (places list n root).length ≤ fuel → ((start limit root).run list fuel).isFinished = true ∧
        Prints list root ((places list n root).map Place.visit) ((start limit root).run list fuel) := by
    intro n h fuel hfuel
    obtain ⟨hfinished, hfollows⟩ := follows_places hroot h hfuel
    exact ⟨hfinished, hfollows.prints⟩
  cases limit with
  | some n =>
    refine ⟨places list n root, pairwise_places n root, fun p => ?_, hprints n (.inl rfl)⟩
    rw [mem_places]
    exact and_congr_right' decide_eq_true_iff.symm
  | none =>
    -- without a limit the depth is bounded because the ways are finite in number
    obtain ⟨n, hn⟩ := exists_endsWithin (hfinite rfl)
    refine ⟨places list n root, pairwise_places n root, fun p => ?_, hprints n (.inr ⟨rfl, hn⟩)⟩
    rw [mem_places]
    exact and_congr_right fun hat => iff_of_true (hn p.way (by rw [hat]; rfl)) rfl

/-- A root with two directories. The first one has a file and a directory that cannot be listed, and so the second
one is not asked for. -/
def brokenListing (u : Url) : Except FsError (List DirectoryEntry) :=
  if u = projUrl [] then .ok [⟨"a", .directory⟩, ⟨"b", .directory⟩]
  else if u = projUrl ["a"] then .ok [⟨"c", .directory⟩, ⟨"d", .file⟩]
  else .error (.transport .closed)

theorem follows_unfolding_broken :
    (projUrl []).isHierarchical = true ∧
      ((none : Option Nat) = none → {way | (directoryAt brokenListing (projUrl []) way).isSome = true}.Finite) ∧
      ∃ order : List Place,
        order.Pairwise (fun p q => p.way < q.way) ∧
        (∀ p, p ∈ order ↔
          directoryAt brokenListing (projUrl []) p.way = some p.url ∧ reaches none p.way.length = true) ∧
        ∀ fuel, order.length ≤ fuel →
          ((start none (projUrl [])).run brokenListing fuel).isFinished = true ∧
            Prints brokenListing (projUrl []) (order.map Place.visit)
              ((start none (projUrl [])).run brokenListing fuel) ∧
            ((start none (projUrl [])).run brokenListing fuel).text =
              "lsif://proj\n  a\n  b\n    c\n    d\n" ∧
            ((start none (projUrl [])).run brokenListing fuel).requested =
              [projUrl [], projUrl ["a"], projUrl ["a", "c"]] ∧
            ((start none (projUrl [])).run brokenListing fuel).error =
              some (.listing (projUrl ["a", "c"]) (.transport .closed)) := by
  have hroot : subdirectories brokenListing (projUrl []) = [projUrl ["a"], projUrl ["b"]] := by decide +kernel
  have ha : subdirectories brokenListing (projUrl ["a"]) = [projUrl ["a", "c"]] := by decide +kernel
  have hc : subdirectories brokenListing (projUrl ["a", "c"]) = [] := by decide +kernel
  have hb : subdirectories brokenListing (projUrl ["b"]) = [] := by decide +kernel
  have hends : EndsWithin brokenListing 3 (projUrl []) := by
    have hleaf : EndsWithin brokenListing 1 (projUrl ["a", "c"]) := endsWithin_succ (by simp [hc])
    have hfirst : EndsWithin brokenListing 2 (projUrl ["a"]) := endsWithin_succ (by simp [ha, hleaf])
    have hsecond : EndsWithin brokenListing 2 (projUrl ["b"]) := endsWithin_succ (by simp [hb])
    exact endsWithin_succ (by simp [hroot, hfirst, hsecond])
  obtain ⟨order, hsorted, hmem, hruns⟩ := follows_unfolding rfl none fun _ => hends.finite
  refine ⟨rfl, fun _ => hends.finite, order, hsorted, hmem, fun fuel hfuel => ?_⟩
  obtain ⟨hfinished, hprints⟩ := hruns fuel hfuel
  have horder : order.map Place.visit =
      [⟨projUrl [], 0⟩, ⟨projUrl ["a"], 1⟩, ⟨projUrl ["a", "c"], 2⟩, ⟨projUrl ["b"], 1⟩] := by
    rw [eq_places hends hsorted fun p => (hmem p).trans (and_iff_left rfl)]
    simp [places, Place.under, Place.visit, hroot, ha, hb, hc]
  refine ⟨hfinished, hprints, ?_⟩
  have hlisted₀ : brokenListing (projUrl []) = .ok [⟨"a", .directory⟩, ⟨"b", .directory⟩] := rfl
  have hlisted₁ : brokenListing (projUrl ["a"]) = .ok [⟨"c", .directory⟩, ⟨"d", .file⟩] := rfl
  have hbroken : brokenListing (projUrl ["a", "c"]) = .error (.transport .closed) := rfl
  rw [horder] at hprints
  cases hprints with
  | whole hlisted =>
    obtain ⟨es, hes⟩ := hlisted ⟨projUrl ["a", "c"], 2⟩ (by simp)
    rw [hbroken] at hes
    cases hes
  | broken hparts hlisted hfails hrequested htext herror =>
    rename_i before after v e
    -- the only directory before which all are listed, and which is not
    rcases before with _ | ⟨x, _ | ⟨y, _ | ⟨z, before⟩⟩⟩
    · cases hparts
      rw [hlisted₀] at hfails
      cases hfails
    · cases hparts
      rw [hlisted₁] at hfails
      cases hfails
    · cases hparts
      rw [hbroken] at hfails
      cases hfails
      refine ⟨htext.trans ?_, hrequested, herror⟩
      decide +kernel
    · simp only [List.cons_append, List.cons.injEq] at hparts
      obtain ⟨es, hes⟩ := hlisted z (by simp)
      rw [← hparts.2.2.1, hbroken] at hes
      cases hes

end IndexFs.Walk

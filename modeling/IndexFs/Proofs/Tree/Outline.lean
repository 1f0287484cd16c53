import IndexFs.Proofs.Tree.Listing
import IndexFs.Proofs.Url.Split

/-!
# What a tree looks like

An outline is what is below a root, with names alone. Its rows stand either nested, so that an entry is followed by
all that is below it, or in the order of a walk, which prints all entries of a directory before it enters the first
of them. The nested rows tell the outline (`nested_injective`). Those of a walk are the same rows in another order,
and they are nested only if nothing stands after a directory with entries (`text_eq_nested_iff`).
-/

namespace IndexFs

/-- The entries of a directory, each with what is in it. -/
inductive Outline where
  | empty
  | entry (name : String) (below after : Outline)
deriving DecidableEq, Repr

namespace Row

/-- A name that can be told from the blanks in front of it, and from the next line. -/
def IsPlain (r : Row) : Prop :=
  (∀ c ∈ r.name.toList.head?, c ≠ ' ') ∧ ∀ c ∈ r.name.toList, c ≠ '\n'

/-- Reads a line. -/
def ofChars (cs : List Char) : Row :=
  ⟨(cs.takeWhile (· = ' ')).length / 2 - 1, String.ofList (cs.dropWhile (· = ' '))⟩

theorem toList_text (r : Row) : r.text.toList = List.replicate (2 * (r.depth + 1)) ' ' ++ r.name.toList := by
  unfold text
  rw [String.toList_append, String.toList_ofList]

/-- The row can be read from its line. -/
theorem ofChars_text {r : Row} (h : r.IsPlain) : ofChars r.text.toList = r := by
  have hblanks : ∀ c ∈ List.replicate (2 * (r.depth + 1)) ' ', decide (c = ' ') = true :=
    fun c hc => decide_eq_true (List.eq_of_mem_replicate hc)
  have hname : ∀ c ∈ r.name.toList.head?, decide (c = ' ') = false := fun c hc => decide_eq_false (h.1 c hc)
  unfold ofChars
  rw [toList_text, Url.takeWhile_append_stop hblanks hname, Url.dropWhile_append_stop hblanks hname,
    List.length_replicate, String.ofList_toList]
  congr 1
  omega

theorem notMem_text {r : Row} (h : r.IsPlain) : ∀ c ∈ r.text.toList, decide (c = '\n') = false := by
  intro c hc
  rw [toList_text] at hc
  refine decide_eq_false ?_
  rcases List.mem_append.mp hc with hc | hc
  · rw [List.eq_of_mem_replicate hc]
    decide
  · exact h.2 c hc

end Row

/-! ## Rows of a page -/

theorem toList_page (root : Url) (rows : List Row) :
    (page root rows).toList = root.text.toList ++ '\n' :: rows.flatMap fun r => r.text.toList ++ ['\n'] := by
  have hbreak : "\n".toList = ['\n'] := rfl
  have hrows : (rows.map Row.text).flatMap (fun line => (line ++ "\n").toList) =
      rows.flatMap fun r => r.text.toList ++ ['\n'] := by
    rw [List.flatMap_map]
    refine List.flatMap_congr fun r _ => ?_
    rw [String.toList_append, hbreak]
  unfold page
  rw [String.toList_join, List.flatMap_map, List.flatMap_cons, hrows, String.toList_append, hbreak, List.append_assoc,
    List.singleton_append]

theorem splitBy_rows {rows : List Row} (h : ∀ r ∈ rows, r.IsPlain) :
    Url.splitBy (· = '\n') (rows.flatMap fun r => r.text.toList ++ ['\n']) = rows.map (·.text.toList) ++ [[]] := by
  induction rows with
  | nil => rfl
  | cons r rows ih =>
    rw [List.flatMap_cons, List.append_assoc, List.singleton_append,
      Url.splitBy_append (Row.notMem_text (h r List.mem_cons_self)) (decide_eq_true rfl),
      ih fun x hx => h x (List.mem_cons_of_mem r hx)]
    rfl

theorem map_ofChars {rows : List Row} (h : ∀ r ∈ rows, r.IsPlain) :
    (rows.map (·.text.toList)).map Row.ofChars = rows := by
  rw [List.map_map]
  exact (List.map_congr_left fun r hr => Row.ofChars_text (h r hr)).trans (List.map_id rows)

/-- A page tells its rows. -/
theorem page_inj {root : Url} {rows rows' : List Row} (h : ∀ r ∈ rows, r.IsPlain) (h' : ∀ r ∈ rows', r.IsPlain)
    (hpage : page root rows = page root rows') : rows = rows' := by
  have hchars := congrArg String.toList hpage
  rw [toList_page, toList_page] at hchars
  have hlines := congrArg (Url.splitBy (· = '\n')) (List.cons.inj (List.append_cancel_left hchars)).2
  rw [splitBy_rows h, splitBy_rows h'] at hlines
  have hread := congrArg (List.map Row.ofChars) (List.append_cancel_right hlines)
  rwa [map_ofChars h, map_ofChars h'] at hread

/-! ## Rows of an outline -/

namespace Outline

/-- The rows of all entries, each followed by those of all that is below it. -/
def nested (depth : Nat) : Outline → List Row
  | empty => []
  | entry name below after => ⟨depth, name⟩ :: (below.nested (depth + 1) ++ after.nested depth)

/-- The rows of the entries of the directory alone. -/
def top (depth : Nat) : Outline → List Row
  | empty => []
  | entry name _ after => ⟨depth, name⟩ :: after.top depth

/-- The rows of what is below the entries, in the order of a walk. -/
def deeper (depth : Nat) : Outline → List Row
  | empty => []
  | entry _ below after => below.top (depth + 1) ++ below.deeper (depth + 1) ++ after.deeper depth

/-- The rows in the order of a walk: all entries of a directory come first. -/
def walked (depth : Nat) (o : Outline) : List Row :=
  o.top depth ++ o.deeper depth

/-- Only the last entry of a directory has entries. -/
def onlyLastFilled : Outline → Bool
  | empty => true
  | entry _ below after => (below = empty || after = empty) && below.onlyLastFilled && after.onlyLastFilled

/-- All names can be told from the blanks in front of them, and from the next line. -/
def IsPlain : Outline → Prop
  | empty => True
  | entry name below after => Row.IsPlain ⟨0, name⟩ ∧ below.IsPlain ∧ after.IsPlain

variable {o o' : Outline}

theorem plain_nested (h : o.IsPlain) (depth : Nat) : ∀ r ∈ o.nested depth, r.IsPlain := by
  induction o generalizing depth with
  | empty => exact fun _ hr => nomatch hr
  | entry name below after hbelow hafter =>
    intro r hr
    rcases List.mem_cons.mp hr with rfl | hr
    · exact h.1
    · exact (List.mem_append.mp hr).elim (hbelow h.2.1 (depth + 1) r) (hafter h.2.2 depth r)

/-- A walk prints the rows in another order. -/
theorem walked_perm (o : Outline) (depth : Nat) : (o.walked depth).Perm (o.nested depth) := by
  induction o generalizing depth with
  | empty => exact .refl []
  | entry name below after hbelow hafter =>
    have hbefore : (after.top depth ++ (below.walked (depth + 1) ++ after.deeper depth)).Perm
        (below.walked (depth + 1) ++ after.walked depth) := List.perm_append_comm_assoc _ _ _
    exact (hbefore.trans ((hbelow (depth + 1)).append (hafter depth))).cons _

theorem plain_walked (h : o.IsPlain) (depth : Nat) : ∀ r ∈ o.walked depth, r.IsPlain :=
  fun r hr => plain_nested h depth r ((o.walked_perm depth).mem_iff.mp hr)

theorem nested_entry (depth : Nat) (name : String) (below after : Outline) (rest : List Row) :
    (entry name below after).nested depth ++ rest =
      ⟨depth, name⟩ :: (below.nested (depth + 1) ++ (after.nested depth ++ rest)) :=
  congrArg (_ :: ·) (List.append_assoc _ _ _)

theorem head_lt {depth : Nat} {rest : List Row} (o : Outline) (hrest : ∀ r ∈ rest.head?, r.depth < depth) :
    ∀ r ∈ (o.nested depth ++ rest).head?, r.depth < depth + 1 := by
  cases o with
  | empty => exact fun r hr => Nat.lt_succ_of_lt (hrest r hr)
  | entry name below after =>
    intro r hr
    cases hr
    exact Nat.lt_succ_self depth

/-- The rows of an outline end where the next one is less deep. -/
theorem nested_append_inj {depth : Nat} {rest rest' : List Row} (hrest : ∀ r ∈ rest.head?, r.depth < depth)
    (hrest' : ∀ r ∈ rest'.head?, r.depth < depth) (h : o.nested depth ++ rest = o'.nested depth ++ rest') :
    o = o' ∧ rest = rest' := by
  induction o generalizing o' depth rest rest' with
  | empty =>
    cases o' with
    | empty => exact ⟨rfl, h⟩
    -- a row of the outline is as deep as the outline, and the rest starts above it
    | entry name below after =>
      rw [show rest = _ from h] at hrest
      exact absurd (hrest _ rfl) (Nat.lt_irrefl depth)
  | entry name below after hbelow hafter =>
    cases o' with
    | empty =>
      rw [show rest' = _ from h.symm] at hrest'
      exact absurd (hrest' _ rfl) (Nat.lt_irrefl depth)
    | entry name' below' after' =>
      rw [nested_entry, nested_entry] at h
      obtain ⟨hname, hrows⟩ := List.cons.inj h
      -- the rows below the entry end where a row of its own depth follows
      obtain ⟨rfl, hothers⟩ := hbelow (head_lt after hrest) (head_lt after' hrest') hrows
      obtain ⟨rfl, rfl⟩ := hafter hrest hrest' hothers
      cases hname
      exact ⟨rfl, rfl⟩

/-- The nested rows tell the outline. -/
theorem nested_injective {depth : Nat} (h : o.nested depth = o'.nested depth) : o = o' := by
  have hrows : o.nested depth ++ [] = o'.nested depth ++ [] := by
    rw [h]
  have hend : ∀ r ∈ ([] : List Row).head?, r.depth < depth := nofun
  exact (nested_append_inj hend hend hrows).1

theorem walked_below (depth : Nat) (name : String) (below : Outline) :
    (entry name below empty).walked depth = ⟨depth, name⟩ :: below.walked (depth + 1) :=
  congrArg (_ :: ·) (List.append_nil _)

theorem nested_below (depth : Nat) (name : String) (below : Outline) :
    (entry name below empty).nested depth = ⟨depth, name⟩ :: below.nested (depth + 1) :=
  congrArg (_ :: ·) (List.append_nil _)

/-- The rows of a walk are nested where nothing stands after a directory with entries. -/
theorem walked_eq_nested_iff (depth : Nat) : o.walked depth = o.nested depth ↔ o.onlyLastFilled = true := by
  induction o generalizing depth with
  | empty => exact iff_of_true rfl rfl
  | entry name below after hbelow hafter =>
    cases below with
    | empty =>
      have hwalked : (entry name empty after).walked depth = ⟨depth, name⟩ :: after.walked depth := rfl
      have hnested : (entry name empty after).nested depth = ⟨depth, name⟩ :: after.nested depth := rfl
      have hlast : (entry name empty after).onlyLastFilled = after.onlyLastFilled := rfl
      rw [hwalked, hnested, hlast, List.cons_inj_right, hafter]
    | entry inner below' after' =>
      cases after with
      | empty =>
        have hlast : (entry name (entry inner below' after') empty).onlyLastFilled =
            (entry inner below' after').onlyLastFilled := Bool.and_true _
        rw [walked_below, nested_below, hlast, List.cons_inj_right, hbelow]
      | entry next below'' after'' =>
        -- the second row of a walk is the next entry, but nested it is what is below the first one
        refine iff_of_false (fun h => ?_) (by simp [onlyLastFilled])
        have hsecond := (List.cons.inj (List.cons.inj h).2).1
        exact absurd (congrArg Row.depth hsecond) (Nat.ne_of_lt (Nat.lt_succ_self depth))

end Outline

/-! ## Walks -/

namespace Walk

variable {list : Url → Except FsError (List DirectoryEntry)}

/-- The entries of a directory, and what is below them in an index, make an outline. -/
inductive Shows (list : Url → Except FsError (List DirectoryEntry)) : Url → List DirectoryEntry → Outline → Prop
  where
  | empty (u : Url) : Shows list u [] .empty
  | leaf {u : Url} {e : DirectoryEntry} {es : List DirectoryEntry} {after : Outline} (hkind : e.kind ≠ .directory)
      (hafter : Shows list u es after) : Shows list u (e :: es) (.entry e.name .empty after)
  | directory {u v : Url} {e : DirectoryEntry} {es inner : List DirectoryEntry} {below after : Outline}
      (hkind : e.kind = .directory) (hchild : u.child e.name = .ok v) (hlist : list v = .ok inner)
      (hbelow : Shows list v inner below) (hafter : Shows list u es after) :
      Shows list u (e :: es) (.entry e.name below after)

namespace Shows

variable {u : Url} {es : List DirectoryEntry} {o : Outline}

theorem isOpen (h : Shows list u es o) (hlist : list u = .ok es) : IsOpen list u := by
  unfold IsOpen
  rw [entries_of_ok hlist]
  clear hlist
  induction h with
  | empty => exact fun _ he => nomatch he
  | leaf hkind _ ih =>
    intro e he hdirectory
    rcases List.mem_cons.mp he with rfl | he
    · exact absurd hdirectory hkind
    · exact ih e he hdirectory
  | directory hkind hchild _ _ _ _ ih =>
    intro e he hdirectory
    rcases List.mem_cons.mp he with rfl | he
    · exact ⟨_, hchild⟩
    · exact ih e he hdirectory

theorem rows_eq (h : Shows list u es o) (depth : Nat) :
    (es.map fun e => ⟨depth, e.name⟩ : List Row) = o.top depth := by
  induction h with
  | empty => rfl
  | leaf _ _ ih => exact congrArg (_ :: ·) ih
  | directory _ _ _ _ _ _ ih => exact congrArg (_ :: ·) ih

/-- The directories below a directory in the order of a walk, with the rows of their entries. -/
theorem exists_order (h : Shows list u es o) (depth : Nat) :
    ∃ order : List Visit,
      DepthFirst (visitsBelow list none) ((es.filterMap (subdirectory? u)).map (Visit.mk · (depth + 1))) order ∧
      (∀ v ∈ order, IsOpen list v.url ∧ ∃ inner, list v.url = .ok inner) ∧
      order.flatMap (rows list) = o.deeper depth := by
  induction h generalizing depth with
  | empty => exact ⟨[], .nil, nofun, rfl⟩
  | leaf hkind _ ih =>
    obtain ⟨order, horder, hlisted, hrows⟩ := ih depth
    refine ⟨order, ?_, hlisted, hrows⟩
    rwa [List.filterMap_cons_none (subdirectory?_of_ne _ hkind)]
  | @directory u v e es inner below after hkind hchild hlist hbelow _ ihbelow ihafter =>
    obtain ⟨inside, hinside, hlisted, hrows⟩ := ihbelow (depth + 1)
    obtain ⟨others, hothers, hlisted', hrows'⟩ := ihafter depth
    refine ⟨⟨v, depth + 1⟩ :: (inside ++ others), ?_, fun x hx => ?_, ?_⟩
    · -- the directory is entered behind the entries of its own listing
      rw [List.filterMap_cons_some (subdirectory?_of_ok hkind hchild), List.map_cons]
      refine .cons ?_ hothers
      rw [visitsBelow_none, subdirectories, entries_of_ok hlist]
      exact hinside
    · rcases List.mem_cons.mp hx with rfl | hx
      · exact ⟨hbelow.isOpen hlist, inner, hlist⟩
      · exact (List.mem_append.mp hx).elim (hlisted x) (hlisted' x)
    · have hentries : rows list ⟨v, depth + 1⟩ = below.top (depth + 1) := by
        unfold rows
        rw [entries_of_ok hlist]
        exact hbelow.rows_eq (depth + 1)
      rw [List.flatMap_cons, List.flatMap_append, hentries, hrows, hrows', ← List.append_assoc]
      rfl

end Shows

/-- The walk through a tree ends, and prints its rows level by level. -/
theorem text_of_shows {root : Url} {es : List DirectoryEntry} {o : Outline} (hlist : list root = .ok es)
    (h : Shows list root es o) :
    ∃ n, ∀ fuel, n ≤ fuel → ((start none root).run list fuel).isFinished = true ∧
      ((start none root).run list fuel).error = none ∧
      ((start none root).run list fuel).text = page root (o.walked 0) := by
  -- the order of the outline is the one that the walk takes
  obtain ⟨order, horder, hlisted, hrows⟩ := h.exists_order 0
  have hroot : DepthFirst (visitsBelow list none) (start none root).pending (⟨root, 0⟩ :: (order ++ [])) := by
    refine .cons ?_ .nil
    rw [visitsBelow_none, subdirectories, entries_of_ok hlist]
    exact horder
  rw [List.append_nil] at hroot
  have hall : ∀ v ∈ (⟨root, 0⟩ :: order : List Visit), IsOpen list v.url ∧ ∃ inner, list v.url = .ok inner := by
    intro v hv
    rcases List.mem_cons.mp hv with rfl | hv
    · exact ⟨h.isOpen hlist, es, hlist⟩
    · exact hlisted v hv
  refine ⟨(⟨root, 0⟩ :: order : List Visit).length, fun fuel hfuel => ?_⟩
  obtain ⟨hfinished, hfollows⟩ := follows_run (w := start none root) rfl hroot (fun v hv => (hall v hv).1) hfuel
  refine ⟨hfinished, ?_⟩
  cases hfollows.prints with
  | whole _ _ htext herror =>
    have hentries : rows list ⟨root, 0⟩ = o.top 0 := by
      unfold rows
      rw [entries_of_ok hlist]
      exact h.rows_eq 0
    refine ⟨herror, ?_⟩
    rw [htext, List.flatMap_cons, hentries, hrows]
    rfl
  -- no listing of the outline fails
  | @broken before after v e horder' _ hfails =>
    obtain ⟨-, inner, hok⟩ := hall v (by rw [horder']; simp)
    rw [hfails] at hok
    cases hok

/-! ## Two directories -/

/-- An index with two directories, which are empty but for a file in the one with the given URI. -/
def twoDirectories (filled : String) : Index :=
  .ofTable [("lsif://proj", [⟨"a", .directory⟩, ⟨"b", .directory⟩]), (filled, [⟨"x", .file⟩])]

theorem list_proj (filled : String) :
    (twoDirectories filled).list (projUrl []) = .ok [⟨"a", .directory⟩, ⟨"b", .directory⟩] :=
  Index.list_ofTable _ _

theorem child_proj :
    (projUrl []).child "a" = .ok (projUrl ["a"]) ∧ (projUrl []).child "b" = .ok (projUrl ["b"]) := by
  decide +kernel

theorem shows_first :
    Shows (twoDirectories "lsif://proj/a").list (projUrl []) [⟨"a", .directory⟩, ⟨"b", .directory⟩]
      (.entry "a" (.entry "x" .empty .empty) (.entry "b" .empty .empty)) := by
  have ha : (twoDirectories "lsif://proj/a").list (projUrl ["a"]) = .ok [⟨"x", .file⟩] := by decide +kernel
  have hb : (twoDirectories "lsif://proj/a").list (projUrl ["b"]) = .ok [] := by decide +kernel
  exact .directory rfl child_proj.1 ha (.leaf nofun (.empty _))
    (.directory rfl child_proj.2 hb (.empty _) (.empty _))

theorem shows_last :
    Shows (twoDirectories "lsif://proj/b").list (projUrl []) [⟨"a", .directory⟩, ⟨"b", .directory⟩]
      (.entry "a" .empty (.entry "b" (.entry "x" .empty .empty) .empty)) := by
  have ha : (twoDirectories "lsif://proj/b").list (projUrl ["a"]) = .ok [] := by decide +kernel
  have hb : (twoDirectories "lsif://proj/b").list (projUrl ["b"]) = .ok [⟨"x", .file⟩] := by decide +kernel
  exact .directory rfl child_proj.1 ha (.empty _)
    (.directory rfl child_proj.2 hb (.leaf nofun (.empty _)) (.empty _))

/-! ## What is printed -/

/-- The walk through a tree prints all entries of a directory before what is below the first of them. So the entries
below a directory stand directly after it where only the last entry of every directory has entries, and nowhere else;
such trees can be told by what is printed. -/
theorem text_eq_nested_iff {root : Url} {es : List DirectoryEntry} {o : Outline} (hlist : list root = .ok es)
    (hshows : Shows list root es o) (hplain : o.IsPlain) :
    (∃ n, ∀ fuel, n ≤ fuel → ((start none root).run list fuel).isFinished = true ∧
      ((start none root).run list fuel).error = none ∧
      ((start none root).run list fuel).text = page root (o.walked 0)) ∧
    (page root (o.walked 0) = page root (o.nested 0) ↔ o.onlyLastFilled = true) ∧
    ∀ o' : Outline, o'.IsPlain → o.onlyLastFilled = true → o'.onlyLastFilled = true →
      page root (o.walked 0) = page root (o'.walked 0) → o = o' := by
  refine ⟨text_of_shows hlist hshows, ?_, fun o' hplain' hlast hlast' hpage => ?_⟩
  · rw [← o.walked_eq_nested_iff 0]
    constructor
    · exact page_inj (Outline.plain_walked hplain 0) (Outline.plain_nested hplain 0)
    · exact fun h => by rw [h]
  · rw [(Outline.walked_eq_nested_iff 0).mpr hlast, (Outline.walked_eq_nested_iff 0).mpr hlast'] at hpage
    exact Outline.nested_injective
      (page_inj (Outline.plain_nested hplain 0) (Outline.plain_nested hplain' 0) hpage)

theorem text_eq_nested_last :
    ∃ (index : Index) (root : Url) (es : List DirectoryEntry) (o : Outline), Url.ofRemote "lsif://proj" = .ok root ∧
      index.list root = .ok es ∧ Shows index.list root es o ∧ o.IsPlain ∧
      o = .entry "a" .empty (.entry "b" (.entry "x" .empty .empty) .empty) ∧
      ∃ n, ∀ fuel, n ≤ fuel → ((start none root).run index.list fuel).text = page root (o.nested 0) := by
  have hplain : Outline.IsPlain (.entry "a" .empty (.entry "b" (.entry "x" .empty .empty) .empty)) := by
    simp [Outline.IsPlain, Row.IsPlain]
  obtain ⟨⟨n, hn⟩, hnested, -⟩ := text_eq_nested_iff (list_proj _) shows_last hplain
  refine ⟨_, _, _, _, ofRemote_proj, list_proj _, shows_last, hplain, rfl, n, fun fuel hfuel => ?_⟩
  rw [(hn fuel hfuel).2.2, hnested.mpr rfl]

/-- Whether the first or the second of two directories has an entry, the lines are the same. -/
theorem same_text :
    ∃ (index index' : Index) (root : Url) (es : List DirectoryEntry), Url.ofRemote "lsif://proj" = .ok root ∧
      index.list root = .ok es ∧ index'.list root = .ok es ∧
      Shows index.list root es (.entry "a" (.entry "x" .empty .empty) (.entry "b" .empty .empty)) ∧
      Shows index'.list root es (.entry "a" .empty (.entry "b" (.entry "x" .empty .empty) .empty)) ∧
      ∃ n, ∀ fuel, n ≤ fuel →
        ((start none root).run index.list fuel).isFinished = true ∧
        ((start none root).run index'.list fuel).isFinished = true ∧
        ((start none root).run index.list fuel).text = ((start none root).run index'.list fuel).text := by
  obtain ⟨n, hn⟩ := text_of_shows (list_proj _) shows_first
  obtain ⟨m, hm⟩ := text_of_shows (list_proj _) shows_last
  refine ⟨_, _, _, _, ofRemote_proj, list_proj _, list_proj _, shows_first, shows_last, max n m, fun fuel hfuel => ?_⟩
  obtain ⟨hfinished, -, htext⟩ := hn fuel (Nat.max_le.mp hfuel).1
  obtain ⟨hfinished', -, htext'⟩ := hm fuel (Nat.max_le.mp hfuel).2
  exact ⟨hfinished, hfinished', htext.trans htext'.symm⟩

end Walk

end IndexFs

import IndexFs.Proofs.FileSystem.Listing
import IndexFs.Proofs.Tree.Walk
import Mathlib.Data.Set.Finite.Basic

/-!
# Indexes of a few directories

A listing is read as the entries that were written (`Read.result_entries`), so that an index can be given by a table
of the directories it knows. It lists these and nothing else (`list_ofTable`).
-/

namespace IndexFs

namespace Index

/-- The index that lists the directories of a table, given by their URIs, and answers `null` to everything else. -/
def ofTable (table : List (String × List DirectoryEntry)) : Index := fun message =>
  match message.params with
  | .object [(_, .string uri)] =>
    match table.lookup uri with
    | some es => .answer (.ok (.array (es.map DirectoryEntry.toJson)))
    | none => .answer (.ok .null)
  | _ => .answer (.ok .null)

variable {table : List (String × List DirectoryEntry)}

/-- The listing of a directory is the one in the table, and empty if the table has none. -/
theorem list_ofTable (table : List (String × List DirectoryEntry)) (u : Url) :
    (ofTable table).list u = .ok ((table.lookup u.toRemote).getD []) := by
  have hask : ofTable table (.request Method.readDirectory.name (Read.params ⟨.readDirectory, u⟩)) =
      match table.lookup u.toRemote with
      | some es => .answer (.ok (.array (es.map DirectoryEntry.toJson)))
      | none => .answer (.ok .null) := rfl
  unfold list ask
  dsimp only
  rw [hask]
  cases table.lookup u.toRemote with
  | none => rfl
  | some es =>
    dsimp only
    rw [Read.result_entries]
    rfl

theorem mem_entries_ofTable {u : Url} {e : DirectoryEntry} (h : e ∈ Walk.entries (ofTable table).list u) :
    ∃ p ∈ table, e ∈ p.2 := by
  rw [Walk.entries_of_ok (list_ofTable table u)] at h
  cases hlookup : table.lookup u.toRemote with
  | none =>
    rw [hlookup] at h
    cases h
  | some es =>
    rw [hlookup] at h
    obtain ⟨before, after, htable, -⟩ := List.lookup_eq_some_iff.mp hlookup
    exact ⟨(u.toRemote, es), by rw [htable]; simp, h⟩

/-- Only the directories of the table have entries. -/
theorem finite_ofTable (table : List (String × List DirectoryEntry)) :
    (Url.toRemote '' {u | (ofTable table).list u ≠ .ok []}).Finite := by
  refine (table.map Prod.fst).finite_toSet.subset ?_
  rintro _ ⟨u, hu, rfl⟩
  by_contra hmem
  have hnone : table.lookup u.toRemote = none := by
    refine List.lookup_eq_none_iff.mpr fun p hp => bne_iff_ne.mpr fun h => hmem ?_
    rw [h]
    exact List.mem_map_of_mem hp
  refine hu ?_
  rw [list_ofTable, hnone]
  rfl

end Index

/-! ## A project -/

/-- A URL below the root of a project, or the root itself. -/
def projUrl (names : List String) : Url :=
  ⟨"lsif", some ⟨"", "", "proj", none⟩, false, .segments names, none, none⟩

theorem ofRemote_proj : Url.ofRemote "lsif://proj" = .ok (projUrl []) := by
  decide +kernel

end IndexFs

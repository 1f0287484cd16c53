import IndexFs.Proofs.FileSystem.Meaning
import IndexFs.Proofs.Json.Decoder

/-!
# Listings

The listing of a directory is read as a whole or not at all. A value is accepted if it is `null`, or an array of
pairs of a name and a number; then each pair gives one entry, in the order of the array (`Lists`). Any other value is
refused, whichever of its items is at fault (`Read.result_listing`).
-/

namespace IndexFs

/-! ## Kinds -/

namespace FileKind

/-- What a number says about a kind: it is a file or a directory, or else the bit of value 64 marks links. -/
inductive Coded (n : Nat) : FileKind → Prop where
  | file (h : n = 1) : Coded n .file
  | directory (h : n = 2) : Coded n .directory
  | symbolicLink (hfile : n ≠ 1) (hdirectory : n ≠ 2) (hlink : n.testBit 6 = true) : Coded n .symbolicLink
  | unknown (hfile : n ≠ 1) (hdirectory : n ≠ 2) (hlink : n.testBit 6 = false) : Coded n .unknown

/-- The flag of links is one bit of the code. -/
theorem link_iff_testBit (n : Nat) : n / linkFlag % 2 = 1 ↔ n.testBit 6 = true := by
  rw [Nat.testBit_eq_decide_div_mod_eq, decide_eq_true_eq]
  exact Iff.rfl

/-- Every code stands for a kind of file. -/
theorem coded_ofCode (n : Nat) : Coded n (ofCode n) := by
  unfold ofCode
  split
  · next hfile => exact .file hfile
  next hfile =>
  split
  · next hdirectory => exact .directory hdirectory
  next hdirectory =>
  split
  · next hlink => exact .symbolicLink hfile hdirectory ((link_iff_testBit n).mp hlink)
  · next hlink => exact .unknown hfile hdirectory (Bool.eq_false_iff.mpr (mt (link_iff_testBit n).mpr hlink))

/-- A code stands for one kind of file only. -/
theorem ofCode_of_coded {n : Nat} {k : FileKind} (h : Coded n k) : ofCode n = k := by
  unfold ofCode
  cases h with
  | file h => rw [if_pos h]
  | directory h =>
    subst h
    rfl
  | symbolicLink hfile hdirectory hlink =>
    rw [if_neg hfile, if_neg hdirectory, if_pos ((link_iff_testBit n).mpr hlink)]
  | unknown hfile hdirectory hlink =>
    rw [if_neg hfile, if_neg hdirectory, if_neg]
    rw [link_iff_testBit, hlink]
    exact Bool.false_ne_true

/-- What a code is read as is what it stands for. -/
theorem ofCode_eq_iff {n : Nat} {k : FileKind} : ofCode n = k ↔ Coded n k := by
  constructor
  · rintro rfl
    exact coded_ofCode n
  · exact ofCode_of_coded

theorem ofJson_eq_ok_iff {v : Json} {k : FileKind} :
    decoder.ofJson v = .ok k ↔ ∃ n < UInt32.size, v = .ofNat n ∧ Coded n k := by
  rw [decoder, Json.Decoder.ofJson_map_eq_ok_iff]
  constructor
  · rintro ⟨n, hn, hk⟩
    obtain ⟨hbound, hv⟩ := Json.Decoder.ofJson_unsigned_eq_ok_iff.mp hn
    exact ⟨n, hbound, hv, ofCode_eq_iff.mp hk⟩
  · rintro ⟨n, hbound, hv, hk⟩
    exact ⟨n, Json.Decoder.ofJson_unsigned_eq_ok_iff.mpr ⟨hbound, hv⟩, ofCode_eq_iff.mpr hk⟩

/-- The code that is written for a kind stands for it. -/
theorem coded_code (k : FileKind) : Coded k.code k := by
  cases k with
  | unknown => exact .unknown (by decide) (by decide) (by decide)
  | file => exact .file rfl
  | directory => exact .directory rfl
  | symbolicLink => exact .symbolicLink (by decide) (by decide) (by decide)

/-- The code that is written for a kind fits into four bytes. -/
theorem code_lt (k : FileKind) : k.code < UInt32.size := by
  cases k <;> decide

end FileKind

/-! ## Entries -/

/-- A pair of a name and a number of 32 bits. -/
def IsPair (item : Json) : Prop :=
  ∃ (name : String) (n : Nat), n < UInt32.size ∧ item = .array [.string name, .ofNat n]

/-- What a pair says: the entry has its name, and the kind for which its number stands. -/
inductive Describes : Json → DirectoryEntry → Prop where
  | pair {name : String} {n : Nat} {kind : FileKind} (hbound : n < UInt32.size) (hkind : FileKind.Coded n kind) :
    Describes (.array [.string name, .ofNat n]) ⟨name, kind⟩

/-- What a value lists: nothing, or the entries that its items describe, one by one. -/
inductive Lists : Json → List DirectoryEntry → Prop where
  | null : Lists .null []
  | array {items : List Json} {es : List DirectoryEntry} (h : List.Forall₂ Describes items es) :
    Lists (.array items) es

/-- A value describes some entry if and only if it is a name with a code. -/
theorem isPair_iff {item : Json} : IsPair item ↔ ∃ e, Describes item e := by
  constructor
  · rintro ⟨name, n, hbound, rfl⟩
    exact ⟨_, .pair hbound (FileKind.coded_ofCode n)⟩
  · rintro ⟨e, hdescribes⟩
    cases hdescribes with
    | pair hbound => exact ⟨_, _, hbound, rfl⟩

namespace DirectoryEntry

theorem ofJson_eq_ok_iff {v : Json} {e : DirectoryEntry} : decoder.ofJson v = .ok e ↔ Describes v e := by
  rw [decoder, Json.Decoder.ofJson_map_eq_ok_iff]
  constructor
  · rintro ⟨⟨name, kind⟩, hpair, rfl⟩
    obtain ⟨x, y, rfl, hname, hkind⟩ := Json.Decoder.ofJson_pair_eq_ok_iff.mp hpair
    obtain rfl := Json.Decoder.ofJson_string_eq_ok_iff.mp hname
    obtain ⟨n, hbound, rfl, hcoded⟩ := FileKind.ofJson_eq_ok_iff.mp hkind
    exact .pair hbound hcoded
  · intro h
    cases h with
    | @pair name n kind hbound hcoded =>
      refine ⟨(name, kind), Json.Decoder.ofJson_pair_eq_ok_iff.mpr ⟨_, _, rfl, rfl, ?_⟩, rfl⟩
      exact FileKind.ofJson_eq_ok_iff.mpr ⟨n, hbound, rfl, hcoded⟩

/-- What is written for an entry describes it. -/
theorem describes_toJson (e : DirectoryEntry) : Describes e.toJson e :=
  .pair e.kind.code_lt e.kind.coded_code

end DirectoryEntry

/-- A value describes one entry at most. -/
theorem rightUnique_describes : Relator.RightUnique Describes := by
  intro v e e' h h'
  have hread := DirectoryEntry.ofJson_eq_ok_iff.mpr h
  rw [DirectoryEntry.ofJson_eq_ok_iff.mpr h'] at hread
  cases hread
  rfl

/-! ## Listings -/

/-- What is written for several entries describes them one by one. -/
theorem forall₂_describes_toJson (es : List DirectoryEntry) :
    List.Forall₂ Describes (es.map DirectoryEntry.toJson) es := by
  induction es with
  | nil => exact .nil
  | cons e es ih => exact .cons e.describes_toJson ih

/-- All items describe entries if each of them is a pair. -/
theorem exists_forall₂_describes {items : List Json} :
    (∃ es, List.Forall₂ Describes items es) ↔ ∀ item ∈ items, IsPair item := by
  constructor
  · rintro ⟨es, h⟩ item hitem
    induction h with
    | nil => cases hitem
    | cons hdescribes _ ih =>
      rcases List.mem_cons.mp hitem with rfl | hmem
      · exact isPair_iff.mpr ⟨_, hdescribes⟩
      · exact ih hmem
  · -- there is an entry for each item, and so a list of entries for all of them
    intro h
    induction items with
    | nil => exact ⟨[], .nil⟩
    | cons item items ih =>
      obtain ⟨e, hdescribes⟩ := isPair_iff.mp (h item List.mem_cons_self)
      obtain ⟨es, hes⟩ := ih fun item hitem => h item (List.mem_cons_of_mem _ hitem)
      exact ⟨e :: es, .cons hdescribes hes⟩

/-- A value lists some entries if and only if it is null or a list of names with codes. -/
theorem exists_lists {v : Json} :
    (∃ es, Lists v es) ↔ v = .null ∨ ∃ items, v = .array items ∧ ∀ item ∈ items, IsPair item := by
  constructor
  · rintro ⟨es, hlists⟩
    cases hlists with
    | null => exact .inl rfl
    | @array items es h => exact .inr ⟨items, rfl, exists_forall₂_describes.mp ⟨es, h⟩⟩
  · rintro (rfl | ⟨items, rfl, hpairs⟩)
    · exact ⟨[], .null⟩
    · obtain ⟨es, hes⟩ := exists_forall₂_describes.mpr hpairs
      exact ⟨es, .array hes⟩

/-- A value lists one sequence of entries at most. -/
theorem Lists.unique {v : Json} {es es' : List DirectoryEntry} (h : Lists v es) (h' : Lists v es') : es = es' := by
  cases h with
  | null =>
    cases h'
    rfl
  | array h =>
    cases h' with
    | array h' => exact List.right_unique_forall₂' rightUnique_describes h h'

namespace Read

/-- How the question for a listing ends: with what the value lists, or with a refusal that says why. -/
theorem result_listing_cases (u : Url) (v : Json) :
    (∃ es, Lists v es ∧ result ⟨.readDirectory, u⟩ (.ok v) = .ok (.listing es)) ∨
      (∀ es, ¬Lists v es) ∧ ∃ d : Json.Mismatch,
        result ⟨.readDirectory, u⟩ (.ok v) = .error (.decode ("readDirectory response: " ++ d.message)) := by
  by_cases hvalue : v = .null
  · subst hvalue
    exact .inl ⟨[], .null, rfl⟩
  have hanswer : Method.answerOfJson .readDirectory v =
      .listing <$> some <$> Json.Decoder.listOfJson DirectoryEntry.decoder.ofJson v :=
    congrArg (Method.Answer.listing <$> ·) (optionalOfJson_of_ne hvalue _)
  rw [result_eq ⟨.readDirectory, u⟩ hanswer]
  cases hlist : Json.Decoder.listOfJson DirectoryEntry.decoder.ofJson v with
  | ok es =>
    obtain ⟨items, rfl, hes⟩ := Json.Decoder.listOfJson_eq_ok_iff.mp hlist
    exact .inl ⟨es, .array (hes.imp fun _ _ => DirectoryEntry.ofJson_eq_ok_iff.mp), rfl⟩
  | error d =>
    -- a value that lists something would have been accepted
    refine .inr ⟨?_, d, rfl⟩
    intro es hlists
    cases hlists with
    | null => exact hvalue rfl
    | array hes =>
      have hok := Json.Decoder.listOfJson_eq_ok_iff.mpr
        ⟨_, rfl, hes.imp fun _ _ => DirectoryEntry.ofJson_eq_ok_iff.mpr⟩
      cases hlist.symm.trans hok

/-- A listing is read as the entries that were written. -/
theorem result_entries (u : Url) (es : List DirectoryEntry) :
    result ⟨.readDirectory, u⟩ (.ok (.array (es.map DirectoryEntry.toJson))) = .ok (.listing es) := by
  have hlist : Json.Decoder.listOfJson DirectoryEntry.decoder.ofJson (.array (es.map DirectoryEntry.toJson)) =
      .ok es :=
    Json.Decoder.listOfJson_eq_ok_iff.mpr
      ⟨_, rfl, (forall₂_describes_toJson es).imp fun _ _ => DirectoryEntry.ofJson_eq_ok_iff.mpr⟩
  have hanswer : Method.answerOfJson .readDirectory (.array (es.map DirectoryEntry.toJson)) =
      .ok (.listing (some es)) :=
    congrArg (Method.Answer.listing <$> some <$> ·) hlist
  rw [result_eq ⟨.readDirectory, u⟩ hanswer]
  rfl

/-- A value is read as what it lists: it lists something exactly if it is `null`, or an array of pairs. Any other
value is refused as a whole. Entries that were written are read as they are. -/
theorem result_listing (u : Url) (v : Json) :
    (∀ es, result ⟨.readDirectory, u⟩ (.ok v) = .ok (.listing es) ↔ Lists v es) ∧
      ((∃ x, result ⟨.readDirectory, u⟩ (.ok v) = .ok x) ↔
        v = .null ∨ ∃ items, v = .array items ∧ ∀ item ∈ items, IsPair item) ∧
      ((¬∃ x, result ⟨.readDirectory, u⟩ (.ok v) = .ok x) → ∃ d : Json.Mismatch,
        result ⟨.readDirectory, u⟩ (.ok v) = .error (.decode ("readDirectory response: " ++ d.message))) ∧
      ∀ es : List DirectoryEntry,
        result ⟨.readDirectory, u⟩ (.ok (.array (es.map DirectoryEntry.toJson))) = .ok (.listing es) := by
  -- either the value lists some entries, and no others, or it is none of the values that do
  rcases result_listing_cases u v with ⟨es, hlists, hresult⟩ | ⟨hnone, d, hresult⟩
  · have hvalue := exists_lists.mp ⟨es, hlists⟩
    rw [hresult]
    refine ⟨?_, ⟨fun _ => hvalue, fun _ => ⟨_, rfl⟩⟩, fun hfailed => absurd ⟨_, rfl⟩ hfailed, result_entries u⟩
    intro es'
    constructor
    · intro h
      cases h
      exact hlists
    · intro hlists'
      rw [hlists.unique hlists']
  · have hvalue := mt exists_lists.mpr (not_exists.mpr hnone)
    have herror : ∀ x, (Except.error (.decode ("readDirectory response: " ++ d.message)) : Except FsError Value) ≠
        .ok x := by
      intro x h
      cases h
    rw [hresult]
    refine ⟨?_, ⟨fun ⟨x, h⟩ => absurd h (herror x), fun h => absurd h hvalue⟩, fun _ => ⟨d, rfl⟩, result_entries u⟩
    intro es
    exact ⟨fun h => absurd h (herror _), fun h => absurd h (hnone es)⟩

/-- Equal names are kept, and a link is a link whatever else its number says. -/
example (u : Url) :
    result ⟨.readDirectory, u⟩ (.ok (.array [.array [.string "a", .ofNat 65], .array [.string "a", .ofNat 1]])) =
      .ok (.listing [⟨"a", .symbolicLink⟩, ⟨"a", .file⟩]) :=
  rfl

end Read

end IndexFs

import IndexFs.Proofs.FileSystem.Listing
import IndexFs.Proofs.Json.Record

/-!
# Metadata

Which values are metadata, and what they say (`FileStat.Tells`). The kind must be given, the times and the size are
zero if they are not; each name of a field and its older form are two names of one thing, so that only one of them may
be given. What is written is read again, and so is what is written of what was read (`FileStat.ofJson_stat`).
-/

namespace IndexFs.FileStat

open Json.Decoder

/-- The times and the size are words of 64 bits. -/
structure Fits (s : FileStat) : Prop where
  createdAt : s.createdAt < UInt64.size
  modifiedAt : s.modifiedAt < UInt64.size
  size : s.size < UInt64.size

/-! ## What a value tells -/

/-- What the values given to a number tell: it is zero if there is none. -/
inductive TellsNumber : List Json → Nat → Prop
  | absent : TellsNumber [] 0
  | number {n : Nat} (h : n < UInt64.size) : TellsNumber [.ofNat n] n

/-- What the values given to the kind tell. -/
inductive TellsKind : List Json → FileKind → Prop
  | number {n : Nat} {k : FileKind} (hbound : n < UInt32.size) (hkind : FileKind.Coded n k) : TellsKind [.ofNat n] k

/-- What a value tells: an object by the names of its members, and an array by the order of its items. -/
structure Tells (v : Json) (s : FileStat) : Prop where
  form : IsRecord 4 v
  kind : TellsKind (given ["kind", "type"] 0 v) s.kind
  createdAt : TellsNumber (given ["createdAt", "ctime"] 1 v) s.createdAt
  modifiedAt : TellsNumber (given ["modifiedAt", "mtime"] 2 v) s.modifiedAt
  size : TellsNumber (given ["size"] 3 v) s.size

/-! ## The fields -/

theorem plain_record : record.Plain where
  distinct := by decide
  names := by decide
  default f hf put hput := by
    simp only [record, List.mem_cons, List.not_mem_nil, or_false] at hf
    rcases hf with rfl | rfl | rfl | rfl <;> cases hput <;> rfl

/-- The parts of metadata, in the order of the fields. -/
def parts : List (FieldPart Draft) :=
  [⟨Draft.kind, fun k d => { d with kind := some k }, FileKind.decoder⟩,
    ⟨Draft.createdAt, fun n d => { d with createdAt := some n }, word64⟩,
    ⟨Draft.modifiedAt, fun n d => { d with modifiedAt := some n }, word64⟩,
    ⟨Draft.size, fun n d => { d with size := some n }, word64⟩]

theorem hasParts_record : record.HasParts parts where
  puts := by refine .cons ?_ (.cons ?_ (.cons ?_ (.cons ?_ .nil))) <;> exact ⟨fun _ => rfl, rfl⟩
  empty := by simp [parts, record]
  set := by simp [parts]
  apart := by simp [parts, FieldPart.Spares]

/-- Each field holds its part. -/
theorem holds (i : Nat) (hi : i < 4) : record.Holds record.fields[i] i parts[i].get parts[i].decoder :=
  hasParts_record.holds i hi hi

/-! ## Reading -/

theorem tellsNumber_of_takes {vs : List Json} {part : Option Nat} (h : Takes word64 vs part) :
    TellsNumber vs (part.getD 0) := by
  cases h with
  | absent => exact .absent
  | one hread =>
    obtain ⟨hbound, rfl⟩ := ofJson_unsigned_eq_ok_iff.mp hread
    exact .number hbound

theorem takes_kind_iff {vs : List Json} {k : FileKind} :
    Takes FileKind.decoder vs (some k) ↔ TellsKind vs k := by
  constructor
  · intro h
    cases h with
    | one hread =>
      obtain ⟨n, hbound, rfl, hcoded⟩ := FileKind.ofJson_eq_ok_iff.mp hread
      exact .number hbound hcoded
  · intro h
    cases h with
    | number hbound hcoded => exact .one (FileKind.ofJson_eq_ok_iff.mpr ⟨_, hbound, rfl, hcoded⟩)

/-- Values tell at most one number. -/
theorem TellsNumber.unique {vs : List Json} {m n : Nat} (hm : TellsNumber vs m) (hn : TellsNumber vs n) : m = n := by
  cases hm with
  | absent =>
    cases hn
    rfl
  | number =>
    generalize hvs : [Json.ofNat m] = vs at hn
    cases hn with
    | absent => cases hvs
    | number =>
      have hint : (m : Int) = n := by simpa [Json.ofNat] using hvs
      exact Int.ofNat.inj hint

/-- Two values for one field tell nothing. -/
theorem TellsNumber.length_le {vs : List Json} {n : Nat} (h : TellsNumber vs n) : vs.length ≤ 1 := by
  cases h with
  | absent => exact Nat.zero_le 1
  | number => exact Nat.le_refl 1

theorem TellsKind.length_le {vs : List Json} {k : FileKind} (h : TellsKind vs k) : vs.length ≤ 1 := by
  cases h with
  | number => exact Nat.le_refl 1

/-- What is read is what the value tells. -/
theorem tells_of_ofJson {v : Json} {s : FileStat} (h : decoder.ofJson v = .ok s) : Tells v s := by
  obtain ⟨d, hreads, hfinish⟩ := Record.ofJson_eq_ok_iff.mp h
  have hkind : Takes _ _ d.kind := (holds 0 (by decide)).reads plain_record hreads
  have hcreatedAt := tellsNumber_of_takes ((holds 1 (by decide)).reads plain_record hreads)
  have hmodifiedAt := tellsNumber_of_takes ((holds 2 (by decide)).reads plain_record hreads)
  have hsize := tellsNumber_of_takes ((holds 3 (by decide)).reads plain_record hreads)
  simp only [record] at hfinish
  split at hfinish
  · cases hfinish
  next k hk =>
  cases hfinish
  rw [hk] at hkind
  exact ⟨hreads.isRecord, takes_kind_iff.mp hkind, hcreatedAt, hmodifiedAt, hsize⟩

/-- A number that is told is accepted. -/
theorem TellsNumber.accepts {f : Json.Decoder.Field Draft} {index : Nat} {get : Draft → Option Nat}
    (hholds : record.Holds f index get word64) (hdefault : f.default ≠ none) {v : Json} {n : Nat}
    (h : TellsNumber (given f.names index v) n) : record.Accepts v f index := by
  generalize hvs : given f.names index v = vs at h
  cases h with
  | absent => exact ⟨Nat, get, word64, none, hholds, hvs ▸ .absent, fun hnone => absurd hnone hdefault⟩
  | number hbound =>
    refine ⟨Nat, get, word64, some n, hholds, ?_, fun _ => Option.some_ne_none n⟩
    rw [hvs]
    exact .one (ofJson_unsigned_eq_ok_iff.mpr ⟨hbound, rfl⟩)

/-- A value that tells metadata has a draft that its fields are read into. -/
theorem Tells.exists_reads {v : Json} {s : FileStat} (h : Tells v s) : ∃ d, record.Reads v d := by
  refine Record.exists_reads plain_record h.form ?_
  intro i f hf
  match i, hf with
  | 0, rfl =>
    exact ⟨_, _, _, some s.kind, holds 0 (by decide), takes_kind_iff.mpr h.kind, fun _ => Option.some_ne_none _⟩
  | 1, rfl => exact h.createdAt.accepts (holds 1 (by decide)) (Option.some_ne_none _)
  | 2, rfl => exact h.modifiedAt.accepts (holds 2 (by decide)) (Option.some_ne_none _)
  | 3, rfl => exact h.size.accepts (holds 3 (by decide)) (Option.some_ne_none _)

/-- A value is read as the metadata that it tells. -/
theorem ofJson_eq_ok_iff {v : Json} {s : FileStat} : decoder.ofJson v = .ok s ↔ Tells v s := by
  constructor
  · exact tells_of_ofJson
  · intro h
    obtain ⟨d, hreads⟩ := h.exists_reads
    have hkind : d.kind = some s.kind :=
      ((holds 0 (by decide)).reads plain_record hreads).unique (takes_kind_iff.mpr h.kind)
    have hcreatedAt : d.createdAt.getD 0 = s.createdAt :=
      (tellsNumber_of_takes ((holds 1 (by decide)).reads plain_record hreads)).unique h.createdAt
    have hmodifiedAt : d.modifiedAt.getD 0 = s.modifiedAt :=
      (tellsNumber_of_takes ((holds 2 (by decide)).reads plain_record hreads)).unique h.modifiedAt
    have hsize : d.size.getD 0 = s.size :=
      (tellsNumber_of_takes ((holds 3 (by decide)).reads plain_record hreads)).unique h.size
    refine Record.ofJson_eq_ok_iff.mpr ⟨d, hreads, ?_⟩
    simp only [record, hkind, hcreatedAt, hmodifiedAt, hsize]

/-! ## The values that are metadata -/

/-- The values that are metadata. In an object each field is named at most once, by either of its names, and the kind
is named; an array has the kind and up to three numbers behind it. -/
inductive IsStat : Json → Prop
  | object {ms : List (String × Json)} (hkind : ∃ n < UInt32.size, under ["kind", "type"] ms = [.ofNat n])
      (hnumbers : ∀ names ∈ [["createdAt", "ctime"], ["modifiedAt", "mtime"], ["size"]],
        under names ms = [] ∨ ∃ n < UInt64.size, under names ms = [.ofNat n]) : IsStat (.object ms)
  | array {n : Nat} {ns : List Nat} (hkind : n < UInt32.size) (hnumbers : ∀ m ∈ ns, m < UInt64.size)
      (hlength : ns.length ≤ 3) : IsStat (.array (.ofNat n :: ns.map .ofNat))

theorem exists_tellsNumber {vs : List Json} :
    (∃ n, TellsNumber vs n) ↔ vs = [] ∨ ∃ n < UInt64.size, vs = [.ofNat n] := by
  constructor
  · rintro ⟨n, h⟩
    cases h with
    | absent => exact .inl rfl
    | number hbound => exact .inr ⟨n, hbound, rfl⟩
  · rintro (rfl | ⟨n, hbound, rfl⟩)
    · exact ⟨0, .absent⟩
    · exact ⟨n, .number hbound⟩

theorem exists_tellsKind {vs : List Json} : (∃ k, TellsKind vs k) ↔ ∃ n < UInt32.size, vs = [.ofNat n] := by
  constructor
  · rintro ⟨k, h⟩
    cases h with
    | number hbound => exact ⟨_, hbound, rfl⟩
  · rintro ⟨n, hbound, rfl⟩
    exact ⟨_, .number hbound (FileKind.coded_ofCode n)⟩

/-- The items of an array at these places are numbers, as far as there are any. -/
theorem exists_numbers {items : List Json} (h : ∀ i < items.length, ∃ n, TellsNumber items[i]?.toList n) :
    ∃ ns : List Nat, items = ns.map .ofNat ∧ ∀ n ∈ ns, n < UInt64.size := by
  induction items with
  | nil => exact ⟨[], rfl, fun _ hn => absurd hn List.not_mem_nil⟩
  | cons v items ih =>
    obtain ⟨ns, rfl, hns⟩ := ih fun i hi => h (i + 1) (Nat.succ_lt_succ hi)
    rcases exists_tellsNumber.mp (h 0 (Nat.zero_lt_succ _)) with hnone | ⟨n, hbound, hsome⟩
    · cases hnone
    · cases hsome
      refine ⟨n :: ns, rfl, fun m hm => ?_⟩
      rcases List.mem_cons.mp hm with rfl | hm
      · exact hbound
      · exact hns m hm

theorem tellsNumber_item {ns : List Nat} (h : ∀ n ∈ ns, n < UInt64.size) (i : Nat) :
    ∃ m, TellsNumber (ns.map Json.ofNat)[i]?.toList m := by
  rw [List.getElem?_map]
  cases hi : ns[i]? with
  | none => exact ⟨0, .absent⟩
  | some n => exact ⟨n, .number (h n (List.mem_of_getElem? hi))⟩

/-- Some metadata are told exactly by the values that are well-formed. -/
theorem exists_tells {v : Json} : (∃ s, Tells v s) ↔ IsStat v := by
  constructor
  · rintro ⟨s, hform, hkind, hcreatedAt, hmodifiedAt, hsize⟩
    -- an object tells by its names, and an array by its places
    cases v with
    | object ms =>
      refine .object (exists_tellsKind.mp ⟨_, hkind⟩) fun names hnames => exists_tellsNumber.mp ?_
      simp only [List.mem_cons, List.not_mem_nil, or_false] at hnames
      rcases hnames with rfl | rfl | rfl
      · exact ⟨_, hcreatedAt⟩
      · exact ⟨_, hmodifiedAt⟩
      · exact ⟨_, hsize⟩
    | array items =>
      cases items with
      -- without items, no kind is given
      | nil => cases hkind
      | cons v items =>
        obtain ⟨n, hbound, hv⟩ := exists_tellsKind.mp ⟨_, hkind⟩
        cases hv
        -- behind the kind, each item is at the place of a number
        have hlength : items.length ≤ 3 := Nat.le_of_succ_le_succ hform
        obtain ⟨ns, rfl, hns⟩ : ∃ ns : List Nat, items = ns.map .ofNat ∧ ∀ n ∈ ns, n < UInt64.size := by
          refine exists_numbers fun i hi => ?_
          match i with
          | 0 => exact ⟨_, hcreatedAt⟩
          | 1 => exact ⟨_, hmodifiedAt⟩
          | 2 => exact ⟨_, hsize⟩
          | i + 3 => omega
        rw [List.length_map] at hlength
        exact .array hbound hns hlength
    | _ => exact hform.elim
  · intro h
    cases h with
    | object hkind hnumbers =>
      -- each part is told by what is given under its names
      obtain ⟨kind, hkind⟩ := exists_tellsKind.mpr hkind
      obtain ⟨createdAt, hcreatedAt⟩ := exists_tellsNumber.mpr (hnumbers ["createdAt", "ctime"] (by simp))
      obtain ⟨modifiedAt, hmodifiedAt⟩ := exists_tellsNumber.mpr (hnumbers ["modifiedAt", "mtime"] (by simp))
      obtain ⟨size, hsize⟩ := exists_tellsNumber.mpr (hnumbers ["size"] (by simp))
      exact ⟨⟨kind, createdAt, modifiedAt, size⟩, trivial, hkind, hcreatedAt, hmodifiedAt, hsize⟩
    | @array n ns hkind hnumbers hlength =>
      obtain ⟨createdAt, hcreatedAt⟩ := tellsNumber_item hnumbers 0
      obtain ⟨modifiedAt, hmodifiedAt⟩ := tellsNumber_item hnumbers 1
      obtain ⟨size, hsize⟩ := tellsNumber_item hnumbers 2
      refine ⟨⟨.ofCode n, createdAt, modifiedAt, size⟩, ?_, .number hkind (FileKind.coded_ofCode n), hcreatedAt,
        hmodifiedAt, hsize⟩
      show (Json.ofNat n :: ns.map Json.ofNat).length ≤ 4
      rw [List.length_cons, List.length_map]
      omega

/-! ## Writing -/

/-- The members that are written, in the order of their keys. -/
theorem toJson_eq (s : FileStat) :
    s.toJson = .object
      [("createdAt", .ofNat s.createdAt), ("kind", s.kind.toJson), ("modifiedAt", .ofNat s.modifiedAt),
        ("size", .ofNat s.size)] := by
  have hkind : "createdAt" < "kind" := by decide
  have hmodifiedAt : ¬"modifiedAt" < "createdAt" ∧ ¬"modifiedAt" < "kind" := by decide
  have hsize : ¬"size" < "createdAt" ∧ ¬"size" < "kind" ∧ ¬"size" < "modifiedAt" := by decide
  simp only [toJson, members, Json.ofMembers, Json.sortMembers, List.foldl_cons, List.foldl_nil, Json.insert, hkind,
    hmodifiedAt, hsize, if_true, if_false, String.reduceEq]

/-- Metadata whose numbers fit are told by the value they are written as. -/
theorem tells_toJson {s : FileStat} (h : s.Fits) : Tells s.toJson s := by
  rw [toJson_eq]
  exact ⟨trivial, .number s.kind.code_lt s.kind.coded_code, .number h.createdAt, .number h.modifiedAt, .number h.size⟩

theorem TellsNumber.lt {vs : List Json} {n : Nat} (h : TellsNumber vs n) : n < UInt64.size := by
  cases h with
  | absent => decide
  | number hbound => exact hbound

/-- The numbers that a value tells fit into their fields. -/
theorem Tells.fits {v : Json} {s : FileStat} (h : Tells v s) : s.Fits :=
  ⟨h.createdAt.lt, h.modifiedAt.lt, h.size.lt⟩

/-- A value is read as the metadata that it tells, and nothing else is read. The values that tell something are those
of the form `IsStat`; an object that has both names of a field is not among them. Metadata that was written is read as
it was, and what was read can be written and is read again. -/
theorem ofJson_stat :
    (∀ v s, decoder.ofJson v = .ok s ↔ Tells v s) ∧
      (∀ v, (∃ s, decoder.ofJson v = .ok s) ↔ IsStat v) ∧
      (∀ names ∈ [("kind", "type"), ("createdAt", "ctime"), ("modifiedAt", "mtime")],
        ∀ (ms : List (String × Json)) (x y : Json), (names.1, x) ∈ ms → (names.2, y) ∈ ms →
          ∃ e, decoder.ofJson (.object ms) = .error e) ∧
      (∀ s : FileStat, s.Fits → decoder.ofJson s.toJson = .ok s) ∧
      ∀ v s, decoder.ofJson v = .ok s → s.Fits ∧ decoder.ofJson s.toJson = .ok s := by
  have hwritten : ∀ s : FileStat, s.Fits → decoder.ofJson s.toJson = .ok s :=
    fun s hs => ofJson_eq_ok_iff.mpr (tells_toJson hs)
  refine ⟨fun v s => ofJson_eq_ok_iff, fun v => ?_, ?_, hwritten, fun v s h => ?_⟩
  · rw [← exists_tells]
    exact exists_congr fun s => ofJson_eq_ok_iff
  · intro names hnames ms x y hx hy
    cases hread : decoder.ofJson (.object ms) with
    | error e => exact ⟨e, rfl⟩
    | ok s =>
      -- each field was given at most one value
      have htells := ofJson_eq_ok_iff.mp hread
      have htwo (hne : names.1 ≠ names.2) : ¬(under [names.1, names.2] ms).length ≤ 1 :=
        Nat.not_le.mpr (two_le_length_under (List.mem_pair.mpr (.inl rfl)) (List.mem_pair.mpr (.inr rfl)) hne hx hy)
      simp only [List.mem_cons, List.not_mem_nil, or_false] at hnames
      rcases hnames with rfl | rfl | rfl
      · exact absurd htells.kind.length_le (htwo (by decide))
      · exact absurd htells.createdAt.length_le (htwo (by decide))
      · exact absurd htells.modifiedAt.length_le (htwo (by decide))
  · have hs := (ofJson_eq_ok_iff.mp h).fits
    exact ⟨hs, hwritten s hs⟩

/-- A kind under both of its names. -/
theorem ofJson_stat_both :
    ∃ e, decoder.ofJson (.object [("kind", .ofNat 0), ("size", .ofNat 5), ("type", .ofNat 0)]) = .error e :=
  ofJson_stat.2.2.1 ("kind", "type") List.mem_cons_self _ (.ofNat 0) (.ofNat 0) (by simp) (by simp)

end IndexFs.FileStat

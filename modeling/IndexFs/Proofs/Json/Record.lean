import IndexFs.Proofs.Json.Decoder
import Mathlib.Data.List.Forall2
import Mathlib.Data.List.Nodup
import Mathlib.Data.List.Pairwise

/-!
# Records field by field

The fields of a record are read independently of one another. What a value gives to a field are, in an object, the
values under the names of the field, wherever they stand, and in an array the item at the place of the field
(`given`). A record is read exactly if every field is given at most one value and accepts it, and then each part of
what is read comes from the field that holds it and from no other (`Record.Holds.reads`, `Record.exists_reads`).
-/

namespace IndexFs.Json.Decoder

variable {σ α β : Type}

/-! ## What a value gives to a field -/

/-- The values of the members with one of the names. -/
def under (names : List String) (ms : List (String × Json)) : List Json :=
  (ms.filter fun m => names.contains m.1).map Prod.snd

/-- What a value gives to the field with these names at this place. -/
def given (names : List String) (index : Nat) : Json → List Json
  | .object ms => under names ms
  | .array items => items[index]?.toList
  | _ => []

/-- Whether a value has the form of a record with so many fields. -/
def IsRecord (size : Nat) : Json → Prop
  | .object _ => True
  | .array items => items.length ≤ size
  | _ => False

/-- What a field makes of the values given to it: it takes no more than one. -/
inductive Takes (d : Decoder β) : List Json → Option β → Prop
  | absent : Takes d [] none
  | one {v : Json} {b : β} (h : d.ofJson v = .ok b) : Takes d [v] (some b)

theorem Takes.unique {d : Decoder β} {vs : List Json} {part part' : Option β} (h : Takes d vs part)
    (h' : Takes d vs part') : part = part' := by
  cases h with
  | absent =>
    cases h'
    rfl
  | one hread =>
    cases h' with
    | one hread' => rw [Except.ok.inj (hread.symm.trans hread')]

theorem under_cons_of_mem {names : List String} {k : String} (h : k ∈ names) (v : Json) (ms : List (String × Json)) :
    under names ((k, v) :: ms) = v :: under names ms := by
  simp [under, h]

theorem under_cons_of_notMem {names : List String} {k : String} (h : k ∉ names) (v : Json)
    (ms : List (String × Json)) : under names ((k, v) :: ms) = under names ms := by
  simp [under, h]

/-- The only value under a key that is there at most once. -/
theorem under_of_nodup {ms : List (String × Json)} (h : (ms.map Prod.fst).Nodup) (key : String) :
    under [key] ms = (ms.lookup key).toList := by
  induction ms with
  | nil => rfl
  | cons m ms ih =>
    obtain ⟨k, v⟩ := m
    rw [List.map_cons, List.nodup_cons] at h
    by_cases hk : key = k
    · subst hk
      have hnone : under [key] ms = [] := by
        refine List.map_eq_nil_iff.mpr (List.filter_eq_nil_iff.mpr fun m hm hkey => ?_)
        rw [List.contains_iff_mem, List.mem_singleton] at hkey
        exact h.1 (hkey ▸ List.mem_map.mpr ⟨m, hm, rfl⟩)
      rw [under_cons_of_mem (List.mem_singleton_self key), hnone, List.lookup_cons_self]
      rfl
    · have hbeq : (key == k) = false := beq_false_of_ne hk
      rw [under_cons_of_notMem (fun hmem => hk (List.mem_singleton.mp hmem).symm), ih h.2, List.lookup_cons, hbeq]

/-- Members with different names of one field give it more than one value. -/
theorem two_le_length_under {names : List String} {a b : String} (ha : a ∈ names) (hb : b ∈ names) (hne : a ≠ b)
    {x y : Json} {ms : List (String × Json)} (hx : (a, x) ∈ ms) (hy : (b, y) ∈ ms) : 2 ≤ (under names ms).length := by
  have hx' : (a, x) ∈ ms.filter fun m => names.contains m.1 := List.mem_filter.mpr ⟨hx, List.contains_iff_mem.mpr ha⟩
  have hy' : (b, y) ∈ ms.filter fun m => names.contains m.1 := List.mem_filter.mpr ⟨hy, List.contains_iff_mem.mpr hb⟩
  rw [under, List.length_map]
  by_contra hfew
  match hfilter : ms.filter fun m => names.contains m.1 with
  | [] =>
    rw [hfilter] at hx'
    cases hx'
  | [m] =>
    rw [hfilter] at hx' hy'
    have heq := (List.mem_singleton.mp hx').trans (List.mem_singleton.mp hy').symm
    exact hne (congrArg Prod.fst heq)
  | _ :: _ :: _ =>
    rw [hfilter] at hfew
    simp at hfew

/-! ## Fields that hold parts -/

/-- Reading the field leaves the part alone. -/
def Field.Keeps (g : Field σ) (get : σ → Option β) : Prop :=
  ∀ v put, g.decoder.ofJson v = .ok put → ∀ s, get (put s) = get s

/-- The fields of a record have names of their own, and a field that an array ends before is left as it is. -/
structure Record.Plain (r : Record σ α) : Prop where
  distinct : (r.fields.map Field.names).Nodup
  names : (r.fields.flatMap Field.names).Nodup
  default : ∀ f ∈ r.fields, ∀ put, f.default = some put → put = id

/-- The field at a place of a record holds a part of what is read: the part is there if the field was given, it comes
from the value of the field, and no other field touches it. -/
structure Record.Holds (r : Record σ α) (f : Field σ) (index : Nat) (get : σ → Option β) (d : Decoder β) : Prop where
  place : r.fields[index]? = some f
  empty : get r.empty = none
  isGiven : ∀ s, f.isGiven s = (get s).isSome
  put : ∀ v put, f.decoder.ofJson v = .ok put → ∃ b, d.ofJson v = .ok b ∧ ∀ s, get (put s) = some b
  accepts : ∀ v b, d.ofJson v = .ok b → ∃ put, f.decoder.ofJson v = .ok put
  others : ∀ g ∈ r.fields, g.names ≠ f.names → g.Keeps get

variable {r : Record σ α} {f : Field σ} {index : Nat} {get : σ → Option β} {d : Decoder β}

theorem Record.Holds.mem (h : r.Holds f index get d) : f ∈ r.fields :=
  List.mem_of_getElem? h.place

/-- A part of what is read: how it is looked up and put in, and the decoder of its values. -/
structure FieldPart (σ : Type) where
  {Value : Type}
  get : σ → Option Value
  set : Value → σ → σ
  decoder : Decoder Value

/-- A field puts in the part, and it is given as soon as the part is there. -/
structure Field.Puts (f : Field σ) (p : FieldPart σ) : Prop where
  isGiven : ∀ s, f.isGiven s = (p.get s).isSome
  decoder : f.decoder = p.decoder.map p.set

/-- Putting in a part leaves another one alone. -/
def FieldPart.Spares (p q : FieldPart σ) : Prop :=
  ∀ b s, q.get (p.set b s) = q.get s

/-- Each field of a record puts in one of the parts, which at first are not there, and leaves the other ones alone. -/
structure Record.HasParts (r : Record σ α) (parts : List (FieldPart σ)) : Prop where
  puts : List.Forall₂ Field.Puts r.fields parts
  empty : ∀ p ∈ parts, p.get r.empty = none
  set : ∀ p ∈ parts, ∀ b s, p.get (p.set b s) = some b
  apart : parts.Pairwise fun p q => p.Spares q ∧ q.Spares p

/-- Each field of a record holds the part that it puts in. -/
theorem Record.HasParts.holds {parts : List (FieldPart σ)} (h : r.HasParts parts) (i : Nat) (hi : i < r.fields.length)
    (hp : i < parts.length) : r.Holds r.fields[i] i parts[i].get parts[i].decoder where
  place := List.getElem?_eq_getElem hi
  empty := h.empty _ (List.getElem_mem hp)
  isGiven := (h.puts.get hi hp).isGiven
  put v put hput := by
    have hdecoder : r.fields[i].decoder = _ := (h.puts.get hi hp).decoder
    rw [hdecoder] at hput
    obtain ⟨b, hb, rfl⟩ := ofJson_map_eq_ok_iff.mp hput
    exact ⟨b, hb, h.set _ (List.getElem_mem hp) b⟩
  accepts v b hb := by
    have hdecoder : r.fields[i].decoder = _ := (h.puts.get hi hp).decoder
    exact ⟨_, hdecoder ▸ ofJson_map_eq_ok_iff.mpr ⟨b, hb, rfl⟩⟩
  others g hg hne v put hput := by
    -- the other field puts in the part at its own place
    obtain ⟨j, hj, rfl⟩ := List.getElem_of_mem hg
    have hq : j < parts.length := h.puts.length_eq ▸ hj
    have hdecoder : r.fields[j].decoder = _ := (h.puts.get hj hq).decoder
    rw [hdecoder] at hput
    obtain ⟨c, -, rfl⟩ := ofJson_map_eq_ok_iff.mp hput
    have hspares : parts[j].Spares parts[i] := by
      rcases Nat.lt_trichotomy i j with hlt | rfl | hlt
      · exact (List.pairwise_iff_getElem.mp h.apart i j hp hq hlt).2
      · exact absurd rfl hne
      · exact (List.pairwise_iff_getElem.mp h.apart j i hq hp hlt).1
    exact hspares c

namespace Record

theorem of_field? {key : String} {g : Field σ} (h : r.field? key = some g) : g ∈ r.fields ∧ key ∈ g.names := by
  have hkey := List.find?_some h
  rw [List.contains_iff_mem] at hkey
  exact ⟨List.mem_of_find?_eq_some h, hkey⟩

/-- A key leads to the field that has it as a name. -/
theorem Plain.field? (hplain : r.Plain) {key : String} {g : Field σ} (hg : g ∈ r.fields) (hkey : key ∈ g.names) :
    r.field? key = some g := by
  cases hfield : r.field? key with
  | none =>
    have hnone := List.find?_eq_none.mp hfield g hg
    rw [List.contains_iff_mem] at hnone
    exact absurd hkey hnone
  | some g' =>
    obtain ⟨hg', hkey'⟩ := of_field? hfield
    by_contra hne
    have hapart := (List.nodup_flatMap.mp hplain.names).2
    have : Std.Symm (Function.onFun List.Disjoint Field.names : Field σ → Field σ → Prop) :=
      ⟨fun _ _ h _ hkey hkey' => h hkey' hkey⟩
    exact hapart.forall hg' hg (fun heq => hne (congrArg some heq)) hkey' hkey

/-! ## Objects -/

/-- Reading the members of an object takes what they give to the field, if it was not given before. -/
theorem Holds.ofMembers (h : r.Holds f index get d) (hplain : r.Plain) {s s' : σ} {ms : List (String × Json)}
    (hread : r.ofMembers s ms = .ok s') :
    (∀ b, get s = some b → under f.names ms = [] ∧ get s' = some b) ∧
      (get s = none → Takes d (under f.names ms) (get s')) := by
  induction ms generalizing s with
  | nil =>
    cases hread
    refine ⟨fun b hb => ⟨rfl, hb⟩, fun hnone => ?_⟩
    rw [hnone]
    exact .absent
  | cons m ms ih =>
    obtain ⟨k, v⟩ := m
    rw [Record.ofMembers] at hread
    split at hread
    · next hnone =>
      -- the key is passed over
      have hk : k ∉ f.names := by
        intro hk
        rw [hplain.field? h.mem hk] at hnone
        cases hnone
      rw [under_cons_of_notMem hk]
      exact ih hread
    next g hfield =>
    obtain ⟨hg, hkey⟩ := of_field? hfield
    split at hread
    · cases hread
    next hgiven =>
    obtain ⟨put, hput, hrest⟩ := bind_eq_ok_iff.mp hread
    by_cases hk : k ∈ f.names
    · -- the key is a name of the field, which was not given before
      rw [hplain.field? h.mem hk] at hfield
      cases hfield
      rw [h.isGiven] at hgiven
      obtain ⟨b, hb, hget⟩ := h.put v put hput
      obtain ⟨hnone, hlast⟩ := (ih hrest).1 b (hget s)
      rw [under_cons_of_mem hk, hnone, hlast]
      refine ⟨fun c hc => ?_, fun _ => .one hb⟩
      rw [hc] at hgiven
      exact absurd rfl hgiven
    · have hne : g.names ≠ f.names := fun heq => hk (heq ▸ hkey)
      rw [under_cons_of_notMem hk, ← h.others g hg hne v put hput s]
      exact ih hrest

/-- A field that holds some part of what is read. -/
def IsSlot (r : Record σ α) (f : Field σ) : Prop :=
  ∃ (index : Nat) (β : Type) (get : σ → Option β) (d : Decoder β), r.Holds f index get d

/-- Members are read if no field is given twice, and each accepts what it is given. -/
theorem exists_ofMembers (hplain : r.Plain) (hslots : ∀ f ∈ r.fields, r.IsSlot f) {s : σ}
    {ms : List (String × Json)}
    (honce : ∀ f ∈ r.fields, (f.isGiven s).toNat + (under f.names ms).length ≤ 1)
    (haccept : ∀ f ∈ r.fields, ∀ v ∈ under f.names ms, ∃ put, f.decoder.ofJson v = .ok put) :
    ∃ s', r.ofMembers s ms = .ok s' := by
  induction ms generalizing s with
  | nil => exact ⟨s, rfl⟩
  | cons m ms ih =>
    obtain ⟨k, v⟩ := m
    rw [Record.ofMembers]
    cases hfield : r.field? k with
    | none =>
      have hk : ∀ f ∈ r.fields, k ∉ f.names := by
        intro f hf hk
        rw [hplain.field? hf hk] at hfield
        cases hfield
      refine ih (fun f hf => ?_) fun f hf w hw => ?_
      · have := honce f hf
        rwa [under_cons_of_notMem (hk f hf)] at this
      · refine haccept f hf w ?_
        rwa [under_cons_of_notMem (hk f hf)]
    | some g =>
      obtain ⟨hg, hkey⟩ := of_field? hfield
      have hfirst := honce g hg
      rw [under_cons_of_mem hkey, List.length_cons] at hfirst
      have hgiven : g.isGiven s = false := by
        cases hcase : g.isGiven s with
        | false => rfl
        | true =>
          rw [hcase, Bool.toNat_true] at hfirst
          omega
      obtain ⟨put, hput⟩ := haccept g hg v (by rw [under_cons_of_mem hkey]; exact List.mem_cons_self)
      have hmore : ∃ s', r.ofMembers (put s) ms = .ok s' := by
        refine ih (fun f hf => ?_) fun f hf w hw => ?_
        · obtain ⟨index, γ, get, d, hholds⟩ := hslots f hf
          have hf' := honce f hf
          by_cases hk : k ∈ f.names
          · -- the field of this member is given now, and has no member behind it
            have := (f.isGiven (put s)).toNat_le
            have heq : g = f := by
              rw [hplain.field? hf hk] at hfield
              exact (Option.some.inj hfield).symm
            subst heq
            omega
          · have hne : g.names ≠ f.names := fun heq => hk (heq ▸ hkey)
            rw [hholds.isGiven, hholds.others g hg hne v put hput s, ← hholds.isGiven]
            rwa [under_cons_of_notMem hk] at hf'
        · refine haccept f hf w ?_
          by_cases hk : k ∈ f.names
          · rw [under_cons_of_mem hk]
            exact List.mem_cons_of_mem v hw
          · rwa [under_cons_of_notMem hk]
      obtain ⟨s', hs'⟩ := hmore
      refine ⟨s', ?_⟩
      simp only [hgiven, Bool.false_eq_true, if_false]
      exact bind_eq_ok_iff.mpr ⟨put, hput, hs'⟩

/-! ## Arrays -/

theorem ofItems_cons_eq_ok_iff {s s' : σ} {index : Nat} {g : Field σ} {fs : List (Field σ)} {v : Json}
    {vs rest : List Json} :
    r.ofItems s index (g :: fs) (v :: vs) = .ok (s', rest) ↔
      ∃ put, g.decoder.ofJson v = .ok put ∧ r.ofItems (put s) (index + 1) fs vs = .ok (s', rest) :=
  bind_eq_ok_iff

theorem ofItems_nil_eq_ok_iff (hplain : r.Plain) {s s' : σ} {index : Nat} {g : Field σ} (hg : g ∈ r.fields)
    {fs : List (Field σ)} {rest : List Json} :
    r.ofItems s index (g :: fs) [] = .ok (s', rest) ↔
      g.default.isSome ∧ r.ofItems s (index + 1) fs [] = .ok (s', rest) := by
  rw [Record.ofItems]
  cases hdefault : g.default with
  | none => simp
  | some put =>
    obtain rfl := hplain.default g hg put hdefault
    simp

theorem Holds.ofItems_others (h : r.Holds f index get d) (hplain : r.Plain) {fs : List (Field σ)}
    (hfs : ∀ g ∈ fs, g ∈ r.fields ∧ g.names ≠ f.names) {s s' : σ} {k : Nat} {items rest : List Json}
    (hread : r.ofItems s k fs items = .ok (s', rest)) : get s' = get s := by
  induction fs generalizing s k items with
  | nil =>
    cases hread
    rfl
  | cons g fs ih =>
    obtain ⟨hg, hne⟩ := hfs g List.mem_cons_self
    have hfs' : ∀ g ∈ fs, g ∈ r.fields ∧ g.names ≠ f.names := fun g hg => hfs g (List.mem_cons_of_mem _ hg)
    cases items with
    | nil => exact ih hfs' ((ofItems_nil_eq_ok_iff hplain hg).mp hread).2
    | cons v vs =>
      obtain ⟨put, hput, hread⟩ := ofItems_cons_eq_ok_iff.mp hread
      rw [ih hfs' hread, h.others g hg hne v put hput]

/-- Reading the items of an array takes the one at the place of the field. -/
theorem Holds.ofItems (h : r.Holds f index get d) (hplain : r.Plain) {before after : List (Field σ)}
    (hbefore : ∀ g ∈ before, g ∈ r.fields ∧ g.names ≠ f.names)
    (hafter : ∀ g ∈ after, g ∈ r.fields ∧ g.names ≠ f.names) {s s' : σ} {k : Nat} {items rest : List Json}
    (hnone : get s = none) (hread : r.ofItems s k (before ++ f :: after) items = .ok (s', rest)) :
    Takes d items[before.length]?.toList (get s') := by
  -- the items are gone through with the fields, up to the one in question and then behind it
  induction before generalizing s k items with
  | nil =>
    cases items with
    | nil =>
      have hget := h.ofItems_others hplain hafter ((ofItems_nil_eq_ok_iff hplain h.mem).mp hread).2
      rw [hget, hnone]
      exact .absent
    | cons v vs =>
      obtain ⟨put, hput, hread⟩ := ofItems_cons_eq_ok_iff.mp hread
      obtain ⟨b, hb, hget⟩ := h.put v put hput
      rw [h.ofItems_others hplain hafter hread, hget]
      exact .one hb
  | cons g before ih =>
    obtain ⟨hg, hne⟩ := hbefore g List.mem_cons_self
    have hbefore' : ∀ g ∈ before, g ∈ r.fields ∧ g.names ≠ f.names :=
      fun g hg => hbefore g (List.mem_cons_of_mem _ hg)
    cases items with
    | nil => exact ih hbefore' hnone ((ofItems_nil_eq_ok_iff hplain hg).mp hread).2
    | cons v vs =>
      obtain ⟨put, hput, hread⟩ := ofItems_cons_eq_ok_iff.mp hread
      exact ih hbefore' ((h.others g hg hne v put hput s).trans hnone) hread

/-- Items are read if each field accepts its item, and those without one can do without. -/
theorem exists_ofItems (hplain : r.Plain) {fs : List (Field σ)} (hfs : ∀ g ∈ fs, g ∈ r.fields) {items : List Json}
    (hlength : items.length ≤ fs.length)
    (haccept : ∀ (i : Nat) (g : Field σ), fs[i]? = some g → (items[i]? = none → g.default.isSome) ∧
      ∀ v, items[i]? = some v → ∃ put, g.decoder.ofJson v = .ok put) (s : σ) (k : Nat) :
    ∃ s', r.ofItems s k fs items = .ok (s', []) := by
  induction fs generalizing s k items with
  | nil =>
    obtain rfl := List.length_eq_zero_iff.mp (Nat.le_zero.mp hlength)
    exact ⟨s, rfl⟩
  | cons g fs ih =>
    have hg := hfs g List.mem_cons_self
    have hfs' : ∀ g ∈ fs, g ∈ r.fields := fun g hg => hfs g (List.mem_cons_of_mem _ hg)
    cases items with
    -- the items have ended, and what is left are the defaults
    | nil =>
      have hnone : ∀ (i : Nat) (g : Field σ), fs[i]? = some g → (([] : List Json)[i]? = none → g.default.isSome) ∧
          ∀ v, ([] : List Json)[i]? = some v → ∃ put, g.decoder.ofJson v = .ok put := fun i => haccept (i + 1)
      obtain ⟨s', hs'⟩ := ih hfs' (Nat.zero_le _) hnone s (k + 1)
      exact ⟨s', (ofItems_nil_eq_ok_iff hplain hg).mpr ⟨(haccept 0 g rfl).1 rfl, hs'⟩⟩
    | cons v vs =>
      obtain ⟨put, hput⟩ := (haccept 0 g rfl).2 v rfl
      obtain ⟨s', hs'⟩ := ih hfs' (Nat.le_of_succ_le_succ hlength) (fun i => haccept (i + 1)) (put s) (k + 1)
      exact ⟨s', ofItems_cons_eq_ok_iff.mpr ⟨put, hput, hs'⟩⟩

/-! ## Records -/

/-- What has been read of a value when all of it is read. -/
inductive Reads (r : Record σ α) : Json → σ → Prop
  | object {ms : List (String × Json)} {s : σ} (h : r.ofMembers r.empty ms = .ok s) : Reads r (.object ms) s
  | array {items : List Json} {s : σ} (h : r.ofItems r.empty 0 r.fields items = .ok (s, [])) : Reads r (.array items) s

theorem ofJson_eq_ok_iff {v : Json} {a : α} :
    (record r).ofJson v = .ok a ↔ ∃ s, r.Reads v s ∧ r.finish s = .ok a := by
  constructor
  · intro h
    cases v with
    | object ms =>
      obtain ⟨s, hs, hfinish⟩ := bind_eq_ok_iff.mp h
      exact ⟨s, .object hs, hfinish⟩
    | array items =>
      obtain ⟨⟨s, rest⟩, hs, h⟩ := bind_eq_ok_iff.mp h
      obtain ⟨b, hfinish, h⟩ := bind_eq_ok_iff.mp h
      -- no item may be left over
      cases rest with
      | nil =>
        cases h
        exact ⟨s, .array hs, hfinish⟩
      | cons => cases h
    | _ => cases h
  · rintro ⟨s, hreads, hfinish⟩
    cases hreads with
    | object hs => exact bind_eq_ok_iff.mpr ⟨s, hs, hfinish⟩
    | array hs => exact bind_eq_ok_iff.mpr ⟨(s, []), hs, bind_eq_ok_iff.mpr ⟨a, hfinish, rfl⟩⟩

theorem length_of_ofItems {fs : List (Field σ)} {s s' : σ} {k : Nat} {items : List Json}
    (hread : r.ofItems s k fs items = .ok (s', [])) : items.length ≤ fs.length := by
  induction fs generalizing s k items with
  | nil =>
    cases hread
    exact Nat.le_refl 0
  | cons g fs ih =>
    cases items with
    | nil => exact Nat.zero_le _
    | cons v vs =>
      obtain ⟨put, -, hread⟩ := ofItems_cons_eq_ok_iff.mp hread
      exact Nat.succ_le_succ (ih hread)

theorem Reads.isRecord {v : Json} {s : σ} (h : r.Reads v s) : IsRecord r.fields.length v := by
  cases h with
  | object => trivial
  | array h => exact length_of_ofItems h

/-- Where a part of what is read comes from: the value given to the field that holds it. -/
theorem Holds.reads (h : r.Holds f index get d) (hplain : r.Plain) {v : Json} {s : σ} (hreads : r.Reads v s) :
    Takes d (given f.names index v) (get s) := by
  cases hreads with
  | object hread => exact (h.ofMembers hplain hread).2 h.empty
  | array hread =>
    obtain ⟨hlt, hf⟩ := List.getElem?_eq_some_iff.mp h.place
    have hsplit : r.fields = r.fields.take index ++ f :: r.fields.drop (index + 1) := by
      rw [← hf, List.getElem_cons_drop, List.take_append_drop]
    have hnodup := hplain.distinct
    rw [hsplit, List.map_append, List.map_cons, List.nodup_middle, List.nodup_cons, ← List.map_append] at hnodup
    have hothers : ∀ g ∈ r.fields.take index ++ r.fields.drop (index + 1), g ∈ r.fields ∧ g.names ≠ f.names := by
      intro g hg
      refine ⟨?_, fun heq => hnodup.1 (heq ▸ List.mem_map_of_mem hg)⟩
      rcases List.mem_append.mp hg with hg | hg
      · exact List.mem_of_mem_take hg
      · exact List.mem_of_mem_drop hg
    rw [hsplit] at hread
    have htakes := h.ofItems hplain (fun g hg => hothers g (List.mem_append_left _ hg))
      (fun g hg => hothers g (List.mem_append_right _ hg)) h.empty hread
    rwa [List.length_take_of_le (Nat.le_of_lt hlt)] at htakes

/-- What a value gives to a field is accepted: it is at most one value, and there is one if the field needs it. -/
def Accepts (r : Record σ α) (v : Json) (f : Field σ) (index : Nat) : Prop :=
  ∃ (β : Type) (get : σ → Option β) (d : Decoder β) (part : Option β), r.Holds f index get d ∧
    Takes d (given f.names index v) part ∧ (f.default = none → part ≠ none)

theorem Accepts.ofJson {v w : Json} (h : r.Accepts v f index) (hw : w ∈ given f.names index v) :
    ∃ put, f.decoder.ofJson w = .ok put := by
  obtain ⟨β, get, d, part, hholds, htakes, -⟩ := h
  generalize given f.names index v = values at htakes hw
  cases htakes with
  | absent => cases hw
  | one hread =>
    obtain rfl := List.mem_singleton.mp hw
    exact hholds.accepts _ _ hread

theorem Accepts.length_le {v : Json} (h : r.Accepts v f index) : (given f.names index v).length ≤ 1 := by
  obtain ⟨β, get, d, part, -, htakes, -⟩ := h
  generalize given f.names index v = values at htakes
  cases htakes with
  | absent => exact Nat.zero_le 1
  | one => exact Nat.le_refl 1

theorem Accepts.needs {v : Json} (h : r.Accepts v f index) (hdefault : f.default = none) :
    given f.names index v ≠ [] := by
  obtain ⟨β, get, d, part, -, htakes, hneeded⟩ := h
  intro hnone
  rw [hnone] at htakes
  cases htakes
  exact hneeded hdefault rfl

/-- A value in the form of a record is read if what it gives to each field is accepted. -/
theorem exists_reads (hplain : r.Plain) {v : Json} (hform : IsRecord r.fields.length v)
    (haccept : ∀ (i : Nat) (f : Field σ), r.fields[i]? = some f → r.Accepts v f i) : ∃ s, r.Reads v s := by
  cases v with
  | object ms =>
    -- each field is given at most once, and what is given to it is accepted
    have hslots : ∀ f ∈ r.fields, r.IsSlot f := by
      intro f hf
      obtain ⟨i, hi⟩ := List.mem_iff_getElem?.mp hf
      obtain ⟨β, get, d, -, hholds, -⟩ := haccept i f hi
      exact ⟨i, β, get, d, hholds⟩
    have honce : ∀ f ∈ r.fields, (f.isGiven r.empty).toNat + (under f.names ms).length ≤ 1 := by
      intro f hf
      obtain ⟨index, γ, get, d, hholds⟩ := hslots f hf
      obtain ⟨i, hi⟩ := List.mem_iff_getElem?.mp hf
      rw [hholds.isGiven, hholds.empty, Option.isSome_none, Bool.toNat_false, Nat.zero_add]
      exact (haccept i f hi).length_le
    have hread : ∀ f ∈ r.fields, ∀ w ∈ under f.names ms, ∃ put, f.decoder.ofJson w = .ok put := by
      intro f hf w hw
      obtain ⟨i, hi⟩ := List.mem_iff_getElem?.mp hf
      exact (haccept i f hi).ofJson hw
    obtain ⟨s, hs⟩ := exists_ofMembers hplain hslots honce hread
    exact ⟨s, .object hs⟩
  | array items =>
    -- each item is accepted, and a field without one has a default
    have hread : ∀ (i : Nat) (g : Field σ), r.fields[i]? = some g → (items[i]? = none → g.default.isSome) ∧
        ∀ w, items[i]? = some w → ∃ put, g.decoder.ofJson w = .ok put := by
      intro i g hg
      constructor
      · intro hnone
        cases hdefault : g.default with
        | some put => rfl
        | none =>
          have hne := (haccept i g hg).needs hdefault
          rw [given, hnone] at hne
          exact absurd rfl hne
      · intro w hw
        refine (haccept i g hg).ofJson ?_
        rw [given, hw]
        exact List.mem_singleton_self w
    obtain ⟨s, hs⟩ := exists_ofItems hplain (fun _ hg => hg) hform hread r.empty 0
    exact ⟨s, .array hs⟩
  | _ => exact hform.elim

end Record

end IndexFs.Json.Decoder

import IndexFs.Proofs.Json.Decoder
import IndexFs.Proofs.Json.Tree

/-!
# Typed values from text

A decoder reads a value of a type from JSON values and from texts. What it reads from a value it reads from every text
of this value, whatever comes behind it (`Decoder.Faithful`), and so from a whole text (`Decoder.parse_of_spells`). A
record does so if its fields do: the members that it does not know are passed over, of whatever form they are.
-/

namespace IndexFs.Json

namespace Tree

mutual

/-- The value of a tree. Strings and numbers that have none count as `null`, and so do objects with such keys. -/
def json : Tree → Json
  | .null => .null
  | .bool b => .bool b
  | .number (.ok n) => .number n
  | .number (.error _) => .null
  | .string (.ok s) => .string s
  | .string (.error _) => .null
  | .array items => .array (itemsJson items)
  | .object members => (membersJson? members).elim .null .object

def itemsJson : List Tree → List Json
  | [] => []
  | t :: ts => t.json :: itemsJson ts

def membersJson? : List (Except Fault String × Tree) → Option (List (String × Json))
  | [] => some []
  | (.ok key, t) :: ms => (membersJson? ms).map ((key, t.json) :: ·)
  | (.error _, _) :: _ => none

end

/-- Members whose keys are texts. -/
def named (ms : List (String × Tree)) : List (Except Fault String × Tree) :=
  ms.map fun m => (.ok m.1, m.2)

theorem named_nil : named [] = [] := rfl

theorem named_cons (key : String) (t : Tree) (ms : List (String × Tree)) :
    named ((key, t) :: ms) = (.ok key, t) :: named ms := rfl

theorem membersJson?_eq_some {members : List (Except Fault String × Tree)} {ms : List (String × Json)}
    (h : membersJson? members = some ms) :
    ∃ texts, members = named texts ∧ ms = texts.map fun m => (m.1, m.2.json) := by
  induction members generalizing ms with
  | nil =>
    rw [membersJson?] at h
    cases h
    exact ⟨[], rfl, rfl⟩
  | cons m members ih =>
    obtain ⟨key, t⟩ := m
    cases key with
    | error f => simp [membersJson?] at h
    | ok key =>
      rw [membersJson?, Option.map_eq_some_iff] at h
      obtain ⟨ms', hms', rfl⟩ := h
      obtain ⟨texts, rfl, rfl⟩ := ih hms'
      exact ⟨(key, t) :: texts, rfl, rfl⟩

/-- An object has the value of its members, or none. -/
theorem json_object_cases (members : List (Except Fault String × Tree)) :
    (object members).json = .null ∨ ∃ ms, membersJson? members = some ms ∧ (object members).json = .object ms := by
  rw [json]
  cases membersJson? members with
  | none => exact .inl rfl
  | some ms => exact .inr ⟨ms, rfl, rfl⟩

/-- The trees of an object. -/
theorem json_eq_object {t : Tree} {ms : List (String × Json)} (h : t.json = .object ms) :
    ∃ texts, t = .object (named texts) ∧ ms = texts.map fun m => (m.1, m.2.json) := by
  cases t with
  | object members =>
    rcases json_object_cases members with hnull | ⟨ms', hms', hobject⟩
    · cases hnull.symm.trans h
    · cases hobject.symm.trans h
      obtain ⟨texts, rfl, rfl⟩ := membersJson?_eq_some hms'
      exact ⟨texts, rfl, rfl⟩
  | number value => cases value <;> simp [json] at h
  | string value => cases value <;> simp [json] at h
  | _ => simp [json] at h

/-- The trees of an array. -/
theorem json_eq_array {t : Tree} {items : List Json} (h : t.json = .array items) :
    ∃ trees, t = .array trees ∧ items = itemsJson trees := by
  cases t with
  | array trees =>
    rw [json] at h
    cases h
    exact ⟨trees, rfl, rfl⟩
  | number value => cases value <;> simp [json] at h
  | string value => cases value <;> simp [json] at h
  | object members =>
    rcases json_object_cases members with hnull | ⟨ms, -, hobject⟩
    · cases hnull.symm.trans h
    · cases hobject.symm.trans h
  | _ => simp [json] at h

end Tree

namespace Decoder

variable {α β σ : Type}

/-- A decoder reads from the tokens of a value what it reads from the value. -/
def Faithful (d : Decoder α) : Prop :=
  ∀ (t : Tree) (a : α), d.ofJson t.json = .ok a → ∀ ts rest : List Token, ts.map Token.kind = t.kinds →
    d.ofTokens (ts ++ rest) = .ok (a, rest)

/-- What is read from the value of a text is read from the text. -/
theorem Faithful.parse {d : Decoder α} (hd : d.Faithful) {bytes : List UInt8} {t : Tree} (hspells : Spells bytes t)
    {a : α} (h : d.ofJson t.json = .ok a) : d.parse bytes = .ok a := by
  obtain ⟨ts, rest, htokens, hts, hend⟩ := hspells
  rw [Decoder.parse, htokens, hd t a h ts rest hts]
  show (do expectEnd rest; return a) = Except.ok a
  rw [hend]
  rfl

theorem Faithful.map {d : Decoder α} (hd : d.Faithful) (f : α → β) : (d.map f).Faithful := by
  intro t b h ts rest hts
  obtain ⟨a, ha, rfl⟩ := ofJson_map_eq_ok_iff.mp h
  show (fun r : α × List Token => (f r.1, r.2)) <$> d.ofTokens (ts ++ rest) = .ok (f a, rest)
  rw [hd t a ha ts rest hts]
  rfl

/-- Single values are read from their tokens, if `null` is not among them. -/
theorem faithful_scalar {f : Json → Except Mismatch α} (hnull : ∀ a, f .null ≠ .ok a)
    (harray : ∀ items a, f (.array items) ≠ .ok a) (hobject : ∀ ms a, f (.object ms) ≠ .ok a) :
    (scalar f).Faithful := by
  intro t a h ts rest hts
  replace h : f t.json = .ok a := h
  -- a value of one token is read from it, and any other value is refused
  cases t with
  | null =>
    rw [Tree.json] at h
    exact absurd h (hnull a)
  | bool b =>
    rw [Tree.kinds] at hts
    rw [Tree.json] at h
    obtain ⟨start, stop, rfl⟩ := exists_only_token hts
    simp [scalar, scalar?, h, Except.mapError, Except.map]
  | number value =>
    rw [Tree.kinds] at hts
    obtain ⟨start, stop, rfl⟩ := exists_only_token hts
    cases value with
    | ok n =>
      rw [Tree.json] at h
      simp [scalar, scalar?, h, Except.mapError, Except.map]
    | error e =>
      rw [Tree.json] at h
      exact absurd h (hnull a)
  | string value =>
    rw [Tree.kinds] at hts
    obtain ⟨start, stop, rfl⟩ := exists_only_token hts
    cases value with
    | ok n =>
      rw [Tree.json] at h
      simp [scalar, scalar?, h, Except.mapError, Except.map]
    | error e =>
      rw [Tree.json] at h
      exact absurd h (hnull a)
  | array items =>
    rw [Tree.json] at h
    exact absurd h (harray _ a)
  | object members =>
    rcases Tree.json_object_cases members with hvalue | ⟨ms, -, hvalue⟩
    · rw [hvalue] at h
      exact absurd h (hnull a)
    · rw [hvalue] at h
      exact absurd h (hobject ms a)

theorem faithful_string : string.Faithful := by
  refine faithful_scalar ?_ ?_ ?_ <;> intros <;> rintro ⟨⟩

theorem faithful_bool : bool.Faithful := by
  refine faithful_scalar ?_ ?_ ?_ <;> intros <;> rintro ⟨⟩

/-! ## Members -/

/-- What taking a member does: nothing if its key is not known, and otherwise its value is put in for the first time. -/
theorem ofMembers_cons_eq_ok_iff {r : Record σ α} {s s' : σ} {key : String} {v : Json} {ms : List (String × Json)} :
    r.ofMembers s ((key, v) :: ms) = .ok s' ↔
      (r.field? key = none ∧ r.ofMembers s ms = .ok s') ∨
        ∃ f put, r.field? key = some f ∧ f.isGiven s = false ∧ f.decoder.ofJson v = .ok put ∧
          r.ofMembers (put s) ms = .ok s' := by
  rw [Record.ofMembers]
  cases hfield : r.field? key with
  | none => simp
  | some f => cases hgiven : f.isGiven s <;> simp [hgiven, bind_eq_ok_iff]

section

variable {r : Record σ α} (hr : ∀ f ∈ r.fields, f.decoder.Faithful)
include hr

/-- Taking the tokens of a member does what taking the member does. -/
theorem ofMemberTokens_member {first : Bool} {s s' : σ} {key : String} {t : Tree} {ms : List (String × Json)}
    (hread : r.ofMembers s ((key, t.json) :: ms) = .ok s') {us vs ts : List Token} (hus : us.map Token.kind = t.kinds)
    {p q p' q' : Pos}
    (hnext : nextMember? first ts = .ok (some (⟨.string (.ok key), p, q⟩ :: ⟨.colon, p', q'⟩ :: (us ++ vs)))) :
    ∃ s₁, r.ofMembers s₁ ms = .ok s' ∧
      ∀ fuel, r.ofMemberTokens first s ts (fuel + 1) = r.ofMemberTokens false s₁ vs fuel := by
  have hkey : string.ofTokens (⟨.string (.ok key), p, q⟩ :: ⟨.colon, p', q'⟩ :: (us ++ vs)) =
      .ok (key, ⟨.colon, p', q'⟩ :: (us ++ vs)) := rfl
  have hcolon : variant.colon (⟨.colon, p', q'⟩ :: (us ++ vs)) = .ok (us ++ vs) := rfl
  rcases ofMembers_cons_eq_ok_iff.mp hread with ⟨hfield, hrest⟩ | ⟨f, put, hfield, hgiven, hput, hrest⟩
  · refine ⟨s, hrest, fun fuel => ?_⟩
    have hskip : skip (us ++ vs) = .ok vs := skip_eq_ok_iff.mpr ⟨t, us, rfl, hus⟩
    simp only [Record.ofMemberTokens, hnext, liftText, Except.mapError, bind, Except.bind, hkey, hfield, hcolon, hskip]
  · refine ⟨put s, hrest, fun fuel => ?_⟩
    have hvalue : f.decoder.ofTokens (us ++ vs) = .ok (put, vs) :=
      hr f (List.mem_of_find?_eq_some hfield) t put hput us vs hus
    simp only [Record.ofMemberTokens, hnext, liftText, Except.mapError, bind, Except.bind, hkey, hfield, hgiven, hcolon,
      hvalue, Bool.false_eq_true, if_false]

/-- The members after the first one, up to the end of the object. -/
theorem ofMemberTokens_more {texts : List (String × Tree)} {s s' : σ}
    (hread : r.ofMembers s (texts.map fun m => (m.1, m.2.json)) = .ok s') {ts : List Token}
    (hts : ts.map Token.kind = Tree.moreMemberKinds (Tree.named texts)) (rest : List Token) {fuel : Nat}
    (hfuel : texts.length ≤ fuel) :
    ∃ p q, r.ofMemberTokens false s (ts ++ rest) fuel = .ok (s', ⟨.closeBrace, p, q⟩ :: rest) := by
  induction texts generalizing s ts fuel with
  | nil =>
    rw [Tree.named_nil, Tree.moreMemberKinds] at hts
    obtain ⟨p, q, rfl⟩ := exists_only_token hts
    cases hread
    refine ⟨p, q, ?_⟩
    cases fuel <;> rfl
  | cons m texts ih =>
    obtain ⟨key, t⟩ := m
    rw [Tree.named_cons, Tree.moreMemberKinds] at hts
    obtain ⟨p, q, ts', rfl, hts'⟩ := exists_token hts
    obtain ⟨a, b, c, d, us, vs, rfl, hus, hvs⟩ := exists_member_tokens hts'
    -- the next member starts behind a comma
    have hnext :
        nextMember? false (⟨.comma, p, q⟩ :: ⟨.string (.ok key), a, b⟩ :: ⟨.colon, c, d⟩ :: (us ++ vs) ++ rest) =
        .ok (some (⟨.string (.ok key), a, b⟩ :: ⟨.colon, c, d⟩ :: (us ++ (vs ++ rest)))) := by
      rw [← List.append_assoc]
      rfl
    obtain ⟨s₁, hrest, hmember⟩ := ofMemberTokens_member hr hread hus hnext
    obtain ⟨fuel, rfl⟩ := Nat.exists_eq_add_of_lt hfuel
    rw [hmember]
    exact ih hrest hvs (Nat.le_add_right texts.length fuel)

omit hr in
theorem length_le_moreMemberKinds (members : List (Except Fault String × Tree)) :
    members.length ≤ (Tree.moreMemberKinds members).length := by
  induction members with
  | nil => exact Nat.zero_le _
  | cons m members ih =>
    rw [Tree.moreMemberKinds]
    simp only [List.length_cons, List.length_append]
    omega

/-- Taking the tokens of the members of an object does what taking the members does. -/
theorem ofMemberTokens_object {texts : List (String × Tree)} {s s' : σ}
    (hread : r.ofMembers s (texts.map fun m => (m.1, m.2.json)) = .ok s') {ts : List Token}
    (hts : ts.map Token.kind = (Tree.object (Tree.named texts)).kinds) (rest : List Token) :
    ∃ start stop ts' p q, ts = ⟨.openBrace, start, stop⟩ :: ts' ∧
      r.ofMemberTokens true s (ts' ++ rest) (ts' ++ rest).length = .ok (s', ⟨.closeBrace, p, q⟩ :: rest) := by
  cases texts with
  | nil =>
    rw [Tree.named_nil, Tree.kinds] at hts
    obtain ⟨start, stop, ts', rfl, hts'⟩ := exists_token hts
    obtain ⟨p, q, rfl⟩ := exists_only_token hts'
    cases hread
    exact ⟨start, stop, _, p, q, rfl, rfl⟩
  | cons m texts =>
    obtain ⟨key, t⟩ := m
    rw [Tree.named_cons, Tree.kinds] at hts
    obtain ⟨start, stop, ts', rfl, hts'⟩ := exists_token hts
    obtain ⟨a, b, c, d, us, vs, rfl, hus, hvs⟩ := exists_member_tokens hts'
    have hnext : nextMember? true (⟨.string (.ok key), a, b⟩ :: ⟨.colon, c, d⟩ :: (us ++ vs) ++ rest) =
        .ok (some (⟨.string (.ok key), a, b⟩ :: ⟨.colon, c, d⟩ :: (us ++ (vs ++ rest)))) := by
      rw [← List.append_assoc]
      rfl
    obtain ⟨s₁, hrest, hmember⟩ := ofMemberTokens_member hr hread hus hnext
    -- there is a token for each member at least, and so enough fuel
    have hlength : texts.length ≤ vs.length := by
      have := length_le_moreMemberKinds (Tree.named texts)
      rwa [← hvs, List.length_map, Tree.named, List.length_map] at this
    obtain ⟨p, q, hmore⟩ := ofMemberTokens_more hr hrest hvs rest
      (show texts.length ≤ (⟨.colon, c, d⟩ :: (us ++ vs) ++ rest).length by
        simp only [List.length_cons, List.length_append]
        omega)
    exact ⟨start, stop, _, p, q, rfl, (hmember _).trans hmore⟩

end

/-! ## Items -/

variable {r : Record σ α}

/-- A value does not begin with the end of an array or of the text. -/
theorem exists_first_token {t : Tree} {us : List Token} (hus : us.map Token.kind = t.kinds) :
    ∃ u us', us = u :: us' ∧ u.kind ≠ .closeBracket ∧ u.kind ≠ .finish := by
  have hkinds : ∃ kind kinds, t.kinds = kind :: kinds ∧ kind ≠ .closeBracket ∧ kind ≠ .finish := by
    cases t with
    | array items => cases items <;> simp [Tree.kinds]
    | object members => cases members <;> simp [Tree.kinds]
    | _ => simp [Tree.kinds]
  obtain ⟨kind, kinds, ht, hbracket, hfinish⟩ := hkinds
  rw [ht] at hus
  obtain ⟨p, q, us', rfl, -⟩ := exists_token hus
  exact ⟨_, us', rfl, hbracket, hfinish⟩

/-- The first item begins right away. -/
theorem nextItem?_first {t : Tree} {us : List Token} (hus : us.map Token.kind = t.kinds) (rest : List Token) :
    nextItem? true (us ++ rest) = .ok (some (us ++ rest)) := by
  obtain ⟨⟨kind, p, q⟩, us', rfl, hbracket, hfinish⟩ := exists_first_token hus
  cases kind with
  | closeBracket => exact absurd rfl hbracket
  | finish => exact absurd rfl hfinish
  | _ => rfl

/-- The next item begins behind a comma. -/
theorem nextItem?_comma {t : Tree} {us : List Token} (hus : us.map Token.kind = t.kinds) (p q : Pos)
    (rest : List Token) : nextItem? false (⟨.comma, p, q⟩ :: (us ++ rest)) = .ok (some (us ++ rest)) := by
  obtain ⟨⟨kind, p', q'⟩, us', rfl, hbracket, hfinish⟩ := exists_first_token hus
  cases kind with
  | closeBracket => exact absurd rfl hbracket
  | finish => exact absurd rfl hfinish
  | _ => rfl

/-- What taking an item does: it is put in by the next field. -/
theorem ofItemTokens_item {fs : List (Field σ)} {f : Field σ} (hf : f.decoder.Faithful) {first : Bool} {s s' : σ}
    {index : Nat} {t : Tree} {items : List Json} (hread : r.ofItems s index (f :: fs) (t.json :: items) = .ok (s', []))
    {us vs ts : List Token} (hus : us.map Token.kind = t.kinds) (hnext : nextItem? first ts = .ok (some (us ++ vs))) :
    ∃ s₁, r.ofItems s₁ (index + 1) fs items = .ok (s', []) ∧
      r.ofItemTokens first s index ts (f :: fs) = r.ofItemTokens false s₁ (index + 1) vs fs := by
  obtain ⟨put, hput, hrest⟩ := bind_eq_ok_iff.mp hread
  refine ⟨put s, hrest, ?_⟩
  have hvalue : f.decoder.ofTokens (us ++ vs) = .ok (put, vs) := hf t put hput us vs hus
  simp only [Record.ofItemTokens, hnext, liftText, Except.mapError, bind, Except.bind, hvalue]

/-- Behind the last item the fields take what stands for them. -/
theorem ofItemTokens_nil {fs : List (Field σ)} {first : Bool} {s s' : σ} {index : Nat}
    (hread : r.ofItems s index fs [] = .ok (s', [])) (p q : Pos) (rest : List Token) :
    r.ofItemTokens first s index (⟨.closeBracket, p, q⟩ :: rest) fs = .ok (s', ⟨.closeBracket, p, q⟩ :: rest) := by
  induction fs generalizing s index with
  | nil =>
    cases hread
    rfl
  | cons f fs ih =>
    rw [Record.ofItems] at hread
    rw [Record.ofItemTokens]
    cases hdefault : f.default with
    | none =>
      rw [hdefault] at hread
      cases hread
    | some put =>
      rw [hdefault] at hread
      exact ih hread

theorem ofItemTokens_more {fs : List (Field σ)} (hfs : ∀ f ∈ fs, f.decoder.Faithful) {items : List Tree} {s s' : σ}
    {index : Nat} (hread : r.ofItems s index fs (Tree.itemsJson items) = .ok (s', [])) {ts : List Token}
    (hts : ts.map Token.kind = Tree.moreItemKinds items) (rest : List Token) :
    ∃ p q, r.ofItemTokens false s index (ts ++ rest) fs = .ok (s', ⟨.closeBracket, p, q⟩ :: rest) := by
  induction items generalizing s ts index fs with
  | nil =>
    rw [Tree.moreItemKinds] at hts
    obtain ⟨p, q, rfl⟩ := exists_only_token hts
    exact ⟨p, q, ofItemTokens_nil hread p q rest⟩
  | cons t items ih =>
    rw [Tree.moreItemKinds] at hts
    obtain ⟨p, q, ts', rfl, hts'⟩ := exists_token hts
    obtain ⟨us, vs, rfl, hus, hvs⟩ := exists_tokens hts'
    rw [Tree.itemsJson] at hread
    cases fs with
    | nil => cases hread
    | cons f fs =>
      obtain ⟨s₁, hrest, hitem⟩ :=
        ofItemTokens_item (hfs f List.mem_cons_self) hread hus (nextItem?_comma hus p q (vs ++ rest))
      rw [List.cons_append, List.append_assoc, hitem]
      exact ih (fun g hg => hfs g (List.mem_cons_of_mem f hg)) hrest hvs

/-- Taking the tokens of the items of an array does what taking the items does. -/
theorem ofItemTokens_array (hr : ∀ f ∈ r.fields, f.decoder.Faithful) {items : List Tree} {s' : σ}
    (hread : r.ofItems r.empty 0 r.fields (Tree.itemsJson items) = .ok (s', [])) {ts : List Token}
    (hts : ts.map Token.kind = (Tree.array items).kinds) (rest : List Token) :
    ∃ start stop ts' p q, ts = ⟨.openBracket, start, stop⟩ :: ts' ∧
      r.ofItemTokens true r.empty 0 (ts' ++ rest) r.fields = .ok (s', ⟨.closeBracket, p, q⟩ :: rest) := by
  cases items with
  | nil =>
    rw [Tree.kinds] at hts
    obtain ⟨start, stop, ts', rfl, hts'⟩ := exists_token hts
    obtain ⟨p, q, rfl⟩ := exists_only_token hts'
    exact ⟨start, stop, _, p, q, rfl, ofItemTokens_nil hread p q rest⟩
  | cons t items =>
    rw [Tree.kinds] at hts
    obtain ⟨start, stop, ts', rfl, hts'⟩ := exists_token hts
    obtain ⟨us, vs, rfl, hus, hvs⟩ := exists_tokens hts'
    rw [Tree.itemsJson] at hread
    -- the fields are gone through together with the items
    generalize r.fields = fs at hr hread ⊢
    cases fs with
    | nil => cases hread
    | cons f fs =>
      obtain ⟨s₁, hrest, hitem⟩ :=
        ofItemTokens_item (hr f List.mem_cons_self) hread hus (nextItem?_first hus (vs ++ rest))
      obtain ⟨p, q, hmore⟩ := ofItemTokens_more (fun g hg => hr g (List.mem_cons_of_mem f hg)) hrest hvs rest
      rw [← List.append_assoc] at hitem
      exact ⟨start, stop, us ++ vs, p, q, rfl, hitem.trans hmore⟩

/-- A record is read from its tokens if its fields are. -/
theorem faithful_record (hr : ∀ f ∈ r.fields, f.decoder.Faithful) : (record r).Faithful := by
  intro t a h ts rest hts
  -- an object is read by its names, and an array by its places
  cases hv : t.json with
  | object ms =>
    obtain ⟨texts, rfl, rfl⟩ := Tree.json_eq_object hv
    rw [hv] at h
    obtain ⟨s, hs, hfinish⟩ := bind_eq_ok_iff.mp h
    obtain ⟨_, _, ts', p, q, rfl, hmembers⟩ := ofMemberTokens_object hr hs hts rest
    show finishContainer endObject
      (do r.complete (← r.ofMemberTokens true r.empty (ts' ++ rest) (ts' ++ rest).length)) = _
    rw [hmembers]
    show finishContainer endObject (r.complete (s, ⟨.closeBrace, p, q⟩ :: rest)) = _
    rw [Record.complete, hfinish]
    rfl
  | array items =>
    obtain ⟨trees, rfl, rfl⟩ := Tree.json_eq_array hv
    rw [hv] at h
    obtain ⟨⟨s, left⟩, hs, h⟩ := bind_eq_ok_iff.mp h
    obtain ⟨b, hfinish, h⟩ := bind_eq_ok_iff.mp h
    cases left with
    | cons => cases h
    | nil =>
      cases h
      obtain ⟨_, _, ts', p, q, rfl, hitems⟩ := ofItemTokens_array hr hs hts rest
      show finishContainer endArray (do r.complete (← r.ofItemTokens true r.empty 0 (ts' ++ rest) r.fields)) = _
      rw [hitems]
      show finishContainer endArray (r.complete (s, ⟨.closeBracket, p, q⟩ :: rest)) = _
      rw [Record.complete, hfinish]
      rfl
  | _ =>
    rw [hv] at h
    cases h

end Decoder

end IndexFs.Json

import IndexFs.Json.Decoder

/-!
# Shapes of JSON values

A shape says which JSON values are accepted, and what is kept of them: `Shape.keep` leaves out what the
shape does not name, and members that are absent or `null` where they may be. Large records of options
are described by shapes, since nothing is done with them but to keep them.
-/

namespace IndexFs

/-- Whether a field must be given, may be absent, or may be absent and is kept as `null` then. -/
inductive Presence where
  | required
  | optional
  | nullable
deriving DecidableEq, Repr

/-- A field of a record. If `inlined` holds, it belongs to a smaller record that is written in place. -/
structure FieldOf (α : Type) where
  name : String
  shape : α
  presence : Presence
  inlined : Bool

inductive Shape where
  | any
  | bool
  | string
  | int32
  | list (item : Shape)
  /-- A record; one with fields of a smaller record in place is not read from an array. -/
  | record (name : String) (fields : List (FieldOf Shape)) (inlined : Bool)
  /-- The first alternative that accepts the value. -/
  | choice (name : String) (alternatives : List Shape)

namespace Shape

open Json (Mismatch found)

/-- What became of one field: whether it was given, and what is kept of it. -/
structure Kept where
  name : String
  inlined : Bool
  given : Bool
  value : Except Mismatch (Option Json)

/-- What is kept of a field without a value. -/
def Presence.kept (name : String) : Presence → Except Mismatch (Option Json)
  | .required => .error (.missingField name)
  | .optional => .ok none
  | .nullable => .ok (some .null)

/-- What is kept of a field with the value `null`, where that stands for no value. -/
def Presence.keptNull? : Presence → Option (Option Json)
  | .required => none
  | .optional => some none
  | .nullable => some (some .null)

/-- The members that are kept, in the order of the fields. -/
def keptMembers (fields : List Kept) : Except Mismatch (List (String × Json)) := do
  let kept ← fields.mapM fun f => do return (← f.value).map fun v => (f.name, v)
  return kept.filterMap id

/-- Puts together what is kept of an object. Of several mismatches the first one in the order of the
members counts, then the missing fields, and then the fields of smaller records. -/
def assemble (members : List (String × Json)) (fields : List Kept) : Except Mismatch Json := do
  members.forM fun m =>
    match fields.find? fun f => f.name = m.1 && !f.inlined with
    | some f => discard f.value
    | none => .ok ()
  let own ← keptMembers (fields.filter (!·.inlined))
  let others ← keptMembers (fields.filter (·.inlined))
  return .ofMembers (own ++ others)

/-- Puts together what is kept of an array. -/
def assembleItems (items : List Json) (fields : List Kept) : Except Mismatch Json := do
  let kept ← keptMembers fields
  if fields.length < items.length then throw (.length items.length "fewer elements in array")
  return .ofMembers kept

/-- What a record with too few items should have been. -/
def expectedItems (name : String) (count : Nat) : String :=
  s!"struct {name} with {count} element" ++ (if count = 1 then "" else "s")

mutual

/-- What is kept of a value. -/
def keep : Shape → Json → Except Mismatch Json
  | .any, v => .ok v
  | .bool, v => Json.bool <$> Json.Decoder.bool.ofJson v
  | .string, v => Json.string <$> Json.Decoder.string.ofJson v
  | .int32, v => Json.ofInt <$> (Json.Decoder.signed 0x80000000 "i32").ofJson v
  | .list item, v =>
    match v with
    | .array items => Json.array <$> items.mapM fun w => keep item w
    | v => .error (.kind (found v) "a sequence")
  | .record name fields inlined, v =>
    match v, inlined with
    | .object members, _ => assemble members (keepFields fields members)
    | .array items, false =>
      assembleItems items (keepItems (expectedItems name fields.length) fields 0 items)
    | v, _ => .error (.kind (found v) ("struct " ++ name))
  | .choice name alternatives, v => keepFirst name alternatives v

/-- What the first alternative that accepts the value keeps of it. -/
def keepFirst (name : String) : List Shape → Json → Except Mismatch Json
  | [], _ => .error (.noAlternative name)
  | s :: rest, v =>
    match keep s v with
    | .ok w => .ok w
    | .error _ => keepFirst name rest v

/-- What becomes of each field of a record that is read from an object. -/
def keepFields : List (FieldOf Shape) → List (String × Json) → List Kept
  | [], _ => []
  | ⟨name, shape, presence, inlined⟩ :: rest, members =>
    (match members.lookup name with
      | none => ⟨name, inlined, false, Presence.kept name presence⟩
      | some v =>
        match v, Presence.keptNull? presence with
        | .null, some w => ⟨name, inlined, true, .ok w⟩
        | v, _ => ⟨name, inlined, true, some <$> keep shape v⟩) :: keepFields rest members

/-- What becomes of each field of a record that is read from an array; none may be left out. -/
def keepItems (expected : String) :
    List (FieldOf Shape) → Nat → List Json → List Kept
  | [], _, _ => []
  | ⟨name, shape, presence, inlined⟩ :: rest, index, items =>
    (match items with
      | [] => ⟨name, inlined, false, .error (.length index expected)⟩
      | v :: _ =>
        match v, Presence.keptNull? presence with
        | .null, some w => ⟨name, inlined, true, .ok w⟩
        | v, _ => ⟨name, inlined, true, some <$> keep shape v⟩) ::
      keepItems expected rest (index + 1) (items.drop 1)

end

end Shape

end IndexFs

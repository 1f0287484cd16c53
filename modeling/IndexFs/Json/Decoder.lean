import IndexFs.Json.Reader

/-!
# Typed values from JSON

A `Decoder` reads a value of a type in two ways: from a JSON value, or from the tokens of a text. Both
accept the same values and give the same causes; the second one goes through the text once, so of two
faults it reports the one that comes first, and it knows the place.

Records are read from an object, by the names of their fields, or from an array, field by field in
their order.
-/

namespace IndexFs.Json

structure Decoder (α : Type) where
  ofJson : Json → Except Mismatch α
  ofTokens : List Token → Except Fault (α × List Token)

namespace Decoder

variable {α β : Type}

/-- The value of a whole text. -/
def parse (d : Decoder α) (bytes : List UInt8) : Except Fault α := do
  let (v, rest) ← d.ofTokens (tokens bytes)
  expectEnd rest
  return v

def map (f : α → β) (d : Decoder α) : Decoder β where
  ofJson v := f <$> d.ofJson v
  ofTokens ts := (fun r => (f r.1, r.2)) <$> d.ofTokens ts

/-! ## Single values -/

/-- A value that is no container. The place of a mismatch is the end of the value; a container is not
entered, so there it is the place before it. -/
def scalar (ofJson : Json → Except Mismatch α) : Decoder α where
  ofJson := ofJson
  ofTokens
    | [] => .error ⟨.endInValue, .start⟩
    | t :: ts =>
      match t.kind with
      | .openBrace => (ofJson (.object [])).mapError (⟨.mismatch ·, t.start⟩) |>.map (·, ts)
      | .openBracket => (ofJson (.array [])).mapError (⟨.mismatch ·, t.start⟩) |>.map (·, ts)
      | _ =>
        match scalar? .wanted t with
        | .error f => .error f
        | .ok (some v) => (ofJson v).mapError (⟨.mismatch ·, t.stop⟩) |>.map (·, ts)
        | .ok none => .error (valueFault .wanted .value t)

def kindMismatch (v : Json) (expected : String) : Except Mismatch α :=
  .error (.kind (found v) expected)

/-- An integer from zero to below `bound`. -/
def unsigned (bound : Nat) (expected : String) : Decoder Nat :=
  scalar fun v =>
    match v with
    | .number (.integer n) =>
      if 0 ≤ n && n < bound then .ok n.toNat else .error (.value (.integer n) expected)
    | v => kindMismatch v expected

/-- An integer from `-bound` to below `bound`. -/
def signed (bound : Nat) (expected : String) : Decoder Int :=
  scalar fun v =>
    match v with
    | .number (.integer n) =>
      if -bound ≤ n && n < bound then .ok n else .error (.value (.integer n) expected)
    | v => kindMismatch v expected

def word32 : Decoder Nat :=
  unsigned UInt32.size "u32"

def word64 : Decoder Nat :=
  unsigned UInt64.size "u64"

def string : Decoder String :=
  scalar fun v =>
    match v with
    | .string s => .ok s
    | v => kindMismatch v "a string"

def bool : Decoder Bool :=
  scalar fun v =>
    match v with
    | .bool b => .ok b
    | v => kindMismatch v "a boolean"

def unit : Decoder Unit :=
  scalar fun v =>
    match v with
    | .null => .ok ()
    | v => kindMismatch v "unit"

/-! ## Containers in a text -/

/-- The tokens of the next item of an array, `none` before its end. -/
def nextItem? (first : Bool) (ts : List Token) : Except Fault (Option (List Token)) :=
  match ts with
  | [] => .ok none
  | t :: rest =>
    match t.kind with
    | .finish => .error ⟨.endInList, t.peek⟩
    | .closeBracket => .ok none
    | .comma =>
      if first then .ok (some ts)
      else match rest with
        | [] => .ok none
        | u :: _ =>
          match u.kind with
          | .closeBracket => .error ⟨.trailingComma, u.peek⟩
          | .finish => .error ⟨.endInValue, u.peek⟩
          | _ => .ok (some rest)
    | _ => if first then .ok (some ts) else .error ⟨.listSeparatorExpected, t.peek⟩

/-- The tokens of the next member of an object, from its key on; `none` before its end. -/
def nextMember? (first : Bool) (ts : List Token) : Except Fault (Option (List Token)) :=
  match ts with
  | [] => .ok none
  | t :: rest =>
    match t.kind, first with
    | .finish, _ => .error ⟨.endInObject, t.peek⟩
    | .closeBrace, _ => .ok none
    | .comma, false =>
      match rest with
      | [] => .ok none
      | u :: _ =>
        match u.kind with
        | .string _ => .ok (some rest)
        | .broken _ _ true => .ok (some rest)
        | _ => .error (keyFault .wanted .nextKey u)
    | _, false => .error ⟨.objectSeparatorExpected, t.peek⟩
    | .string _, true => .ok (some ts)
    | .broken _ _ true, true => .ok (some ts)
    | _, true => .error ⟨.keyExpected, t.peek⟩

/-- Takes the end of an array: the tokens after it, or the fault and the place up to which the text
was read. -/
def endArray : List Token → Except (Fault × Pos) (List Token × Pos)
  | [] => .error (⟨.endInList, .start⟩, .start)
  | t :: rest =>
    match t.kind with
    | .closeBracket => .ok (rest, t.stop)
    | .comma =>
      match rest with
      | [] => .error (⟨.trailingCharacters, t.peek⟩, t.stop)
      | u :: _ =>
        match u.kind with
        | .closeBracket => .error (⟨.trailingComma, u.peek⟩, u.start)
        | _ => .error (⟨.trailingCharacters, u.peek⟩, u.start)
    | .finish => .error (⟨.endInList, t.peek⟩, t.start)
    | _ => .error (⟨.trailingCharacters, t.peek⟩, t.start)

/-- Takes the end of an object, as `endArray` does. -/
def endObject : List Token → Except (Fault × Pos) (List Token × Pos)
  | [] => .error (⟨.endInObject, .start⟩, .start)
  | t :: rest =>
    match t.kind with
    | .closeBrace => .ok (rest, t.stop)
    | .comma => .error (⟨.trailingComma, t.peek⟩, t.start)
    | .finish => .error (⟨.endInObject, t.peek⟩, t.start)
    | _ => .error (⟨.trailingCharacters, t.peek⟩, t.start)

/-- The place up to which the text is read when its end was taken or tried. -/
def endPlace : Except (Fault × Pos) (List Token × Pos) → Pos
  | .ok (_, p) => p
  | .error (_, p) => p

/-- Why the content of a container does not fit: the text is at fault, or the content is, and then the
place is found when the end of the container has been taken. -/
inductive Trouble where
  | text (f : Fault)
  | content (m : Mismatch) (rest : List Token)

/-- Finishes a container after its content. -/
def finishContainer (ending : List Token → Except (Fault × Pos) (List Token × Pos)) :
    Except Trouble (α × List Token) → Except Fault (α × List Token)
  | .error (.text f) => .error f
  | .error (.content m rest) => .error ⟨.mismatch m, endPlace (ending rest)⟩
  | .ok (v, rest) =>
    match ending rest with
    | .ok (rest, _) => .ok (v, rest)
    | .error (f, _) => .error f

def liftText {γ : Type} (r : Except Fault γ) : Except Trouble γ :=
  r.mapError .text

/-! ## Pairs -/

/-- An array of exactly two items. -/
def pair (first : Decoder α) (second : Decoder β) : Decoder (α × β) where
  ofJson
    | .array [] => .error (.length 0 "a tuple of size 2")
    | .array [a] => do
      let _ ← first.ofJson a
      throw (.length 1 "a tuple of size 2")
    | .array (a :: b :: rest) => do
      let a ← first.ofJson a
      let b ← second.ofJson b
      if rest.isEmpty then return (a, b)
      throw (.length (rest.length + 2) "fewer elements in array")
    | v => kindMismatch v "a tuple of size 2"
  ofTokens
    | [] => .error ⟨.endInValue, .start⟩
    | t :: ts =>
      match t.kind with
      | .openBracket => finishContainer endArray do
        let some ts' ← liftText (nextItem? true ts)
          | throw (.content (.length 0 "a tuple of size 2") ts)
        let (a, ts) ← liftText (first.ofTokens ts')
        let some ts' ← liftText (nextItem? false ts)
          | throw (.content (.length 1 "a tuple of size 2") ts)
        let (b, ts) ← liftText (second.ofTokens ts')
        return ((a, b), ts)
      | _ => (scalar fun v => kindMismatch v "a tuple of size 2").ofTokens (t :: ts)

/-! ## Names -/

/-- A choice among names, written as a string, or as an object with the name as its only key and
`null` as its value. -/
def variant (known : List (String × α)) : Decoder α where
  ofJson
    | .string s => named s
    | .object [(k, v)] => do
      let a ← named k
      unit.ofJson v
      return a
    | .object _ => .error (.value .map "map with a single key")
    | v => kindMismatch v "string or map"
  ofTokens
    | [] => .error ⟨.endInValue, .start⟩
    | t :: ts =>
      match t.kind with
      | .string _ => (scalar fun v => namedValue v).ofTokens (t :: ts)
      | .broken wanted _ true => .error wanted
      | .finish => .error ⟨.endInValue, t.peek⟩
      | .openBrace => do
        let (a, ts) ← (scalar fun v => namedValue v).ofTokens ts
        let ts ← colon ts
        let (_, ts) ← unit.ofTokens ts
        match ts with
        | [] => .error ⟨.endInObject, .start⟩
        | u :: rest =>
          match u.kind with
          | .closeBrace => return (a, rest)
          | .finish => throw ⟨.endInObject, u.peek⟩
          | _ => throw ⟨.valueExpected, u.start⟩
      | _ => .error ⟨.valueExpected, t.peek⟩
where
  named (s : String) : Except Mismatch α :=
    match known.lookup s with
    | some a => .ok a
    | none => .error (.unknownVariant s (known.map (·.1)))
  namedValue : Json → Except Mismatch α
    | .string s => named s
    | v => kindMismatch v "variant identifier"
  colon : List Token → Except Fault (List Token)
    | [] => .error ⟨.endInObject, .start⟩
    | u :: rest =>
      match u.kind with
      | .colon => .ok rest
      | .finish => .error ⟨.endInObject, u.peek⟩
      | _ => .error ⟨.colonExpected, u.peek⟩

/-! ## Records -/

/-- A field of a record that is being read as `σ`: its names, whether it has been given, how its value
is put in, and what stands for it where an array ends before it. -/
structure Field (σ : Type) where
  names : List String
  isGiven : σ → Bool
  decoder : Decoder (σ → σ)
  default : Option (σ → σ)

/-- How a record is read: what its fields have been given so far is a `σ`, at first `empty`. -/
structure Record (σ α : Type) where
  name : String
  fields : List (Field σ)
  empty : σ
  finish : σ → Except Mismatch α

variable {σ : Type}

/-- The first name of a field. -/
def Field.name (f : Field σ) : String :=
  f.names.headD ""

def Record.expected (r : Record σ α) : String :=
  "struct " ++ r.name

/-- What an array with too few items should have been. -/
def Record.expectedItems (r : Record σ α) : String :=
  let n := r.fields.length
  s!"struct {r.name} with {n} element" ++ (if n = 1 then "" else "s")

def Record.field? (r : Record σ α) (key : String) : Option (Field σ) :=
  r.fields.find? fun f => f.names.contains key

/-- Takes the members of an object in their order; unknown keys are passed over. -/
def Record.ofMembers (r : Record σ α) (s : σ) : List (String × Json) → Except Mismatch σ
  | [] => .ok s
  | (k, v) :: ms =>
    match r.field? k with
    | none => r.ofMembers s ms
    | some f =>
      if f.isGiven s then .error (.duplicateField f.name)
      else do
        let put ← f.decoder.ofJson v
        r.ofMembers (put s) ms

/-- Takes the items of an array, field by field; `index` counts the fields before. -/
def Record.ofItems (r : Record σ α) (s : σ) (index : Nat) :
    List (Field σ) → List Json → Except Mismatch (σ × List Json)
  | [], items => .ok (s, items)
  | f :: fs, [] =>
    match f.default with
    | some put => r.ofItems (put s) (index + 1) fs []
    | none => .error (.length index r.expectedItems)
  | f :: fs, v :: vs => do
    let put ← f.decoder.ofJson v
    r.ofItems (put s) (index + 1) fs vs

/-- Takes the members of an object off a text; each step takes at least one of `fuel` tokens. -/
def Record.ofMemberTokens (r : Record σ α) (first : Bool) (s : σ) (ts : List Token) :
    Nat → Except Trouble (σ × List Token)
  | 0 => .ok (s, ts)
  | fuel + 1 => do
    match ← liftText (nextMember? first ts) with
    | none => return (s, ts)
    | some [] => return (s, ts)
    | some (t :: rest) =>
      let (key, rest) ← liftText (string.ofTokens (t :: rest))
      match r.field? key with
      | none =>
        let rest ← liftText (do skip (← variant.colon rest))
        r.ofMemberTokens false s rest fuel
      | some f =>
        if f.isGiven s then throw (.content (.duplicateField f.name) rest)
        let (put, rest) ← liftText (do f.decoder.ofTokens (← variant.colon rest))
        r.ofMemberTokens false (put s) rest fuel

/-- Takes the items of an array off a text, field by field. -/
def Record.ofItemTokens (r : Record σ α) (first : Bool) (s : σ) (index : Nat) (ts : List Token) :
    List (Field σ) → Except Trouble (σ × List Token)
  | [] => .ok (s, ts)
  | f :: fs => do
    match ← liftText (nextItem? first ts) with
    | none =>
      match f.default with
      | some put => r.ofItemTokens first (put s) (index + 1) ts fs
      | none => throw (.content (.length index r.expectedItems) ts)
    | some ts =>
      let (put, ts) ← liftText (f.decoder.ofTokens ts)
      r.ofItemTokens false (put s) (index + 1) ts fs

/-- Completes a record whose content was read. -/
def Record.complete (r : Record σ α) (result : σ × List Token) :
    Except Trouble (α × List Token) :=
  match r.finish result.1 with
  | .ok a => .ok (a, result.2)
  | .error m => .error (.content m result.2)

/-- The decoder of a record. -/
def record (r : Record σ α) : Decoder α where
  ofJson
    | .object ms => do r.finish (← r.ofMembers r.empty ms)
    | .array items => do
      let (s, rest) ← r.ofItems r.empty 0 r.fields items
      let a ← r.finish s
      if rest.isEmpty then return a
      throw (.length items.length "fewer elements in array")
    | v => kindMismatch v r.expected
  ofTokens
    | [] => .error ⟨.endInValue, .start⟩
    | t :: ts =>
      match t.kind with
      | .openBrace => finishContainer endObject do
        r.complete (← r.ofMemberTokens true r.empty ts ts.length)
      | .openBracket => finishContainer endArray do
        r.complete (← r.ofItemTokens true r.empty 0 ts r.fields)
      | _ => (scalar fun v => kindMismatch v r.expected).ofTokens (t :: ts)

/-! ## Values that may be absent -/

/-- A decoder for which `null` stands for no value. Only read from a JSON value. -/
def optionalOfJson (d : Json → Except Mismatch α) : Json → Except Mismatch (Option α)
  | .null => .ok none
  | v => some <$> d v

/-- Every item of an array. Only read from a JSON value. -/
def listOfJson (d : Json → Except Mismatch α) : Json → Except Mismatch (List α)
  | .array items => items.mapM d
  | v => kindMismatch v "a sequence"

end Decoder

end IndexFs.Json

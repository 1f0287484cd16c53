import IndexFs.Json.Number

/-!
# JSON values

The members of an object are a list of pairs. Values that were read, and values built with
`Json.ofMembers`, have them in ascending order of their keys, each key once; a value that is written
with a fixed order of fields lists them in that order.
-/

namespace IndexFs

inductive Json where
  | null
  | bool (b : Bool)
  | number (n : Number)
  | string (s : String)
  | array (items : List Json)
  | object (members : List (String × Json))

namespace Json

instance : Inhabited Json := ⟨.null⟩

/-- Puts a member into an ordered list, in place of one with the same key. -/
def insert (key : String) (value : Json) : List (String × Json) → List (String × Json)
  | [] => [(key, value)]
  | (k, v) :: rest =>
    if key < k then (key, value) :: (k, v) :: rest
    else if key = k then (key, value) :: rest
    else (k, v) :: insert key value rest

/-- The members in the order of their keys; the last of several with one key counts. -/
def sortMembers (members : List (String × Json)) : List (String × Json) :=
  members.foldl (fun acc m => insert m.1 m.2 acc) []

/-- The object with these members. -/
def ofMembers (members : List (String × Json)) : Json :=
  .object (sortMembers members)

def ofInt (n : Int) : Json :=
  .number (.integer n)

def ofNat (n : Nat) : Json :=
  .number (.integer n)

/-- The member of an object with the given key. -/
def get? (key : String) : Json → Option Json
  | .object members => members.lookup key
  | _ => none

def string? : Json → Option String
  | .string s => some s
  | _ => none

/-- The value as an integer of 64 bits with a sign. -/
def signed? : Json → Option Int
  | .number n => n.signed?
  | _ => none

/-- The keys of an object's members, each less than the next. -/
def KeysAscend (members : List (String × Json)) : Prop :=
  members.Pairwise fun a b => a.1 < b.1

mutual

/-- How many containers are nested in one another. -/
def depth : Json → Nat
  | .array items => itemsDepth items + 1
  | .object members => membersDepth members + 1
  | _ => 0

def itemsDepth : List Json → Nat
  | [] => 0
  | v :: vs => max v.depth (itemsDepth vs)

def membersDepth : List (String × Json) → Nat
  | [] => 0
  | (_, v) :: ms => max v.depth (membersDepth ms)

end

mutual

/-- Every number in the value is an integer of 64 bits, and every object has its keys in order. -/
def Regular : Json → Prop
  | .number n => n.IsInteger
  | .array items => ItemsRegular items
  | .object members => KeysAscend members ∧ MembersRegular members
  | _ => True

def ItemsRegular : List Json → Prop
  | [] => True
  | v :: vs => v.Regular ∧ ItemsRegular vs

def MembersRegular : List (String × Json) → Prop
  | [] => True
  | (_, v) :: ms => v.Regular ∧ MembersRegular ms

end

end Json

end IndexFs

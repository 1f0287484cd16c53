import IndexFs.Json.Token

/-!
# JSON values from text

`read` takes one value off a list of tokens. It keeps the containers that are still open on a stack
and looks at every token once. A value that is passed over is read in the same way, but its strings
and numbers are not looked into, its depth has no limit, and the end of an open container after a
comma is reported in other words.
-/

namespace IndexFs.Json

/-- Whether the value that is read is wanted, or only passed over. -/
inductive Demand where
  | wanted
  | skipped
deriving DecidableEq

/-- A container that is still open, its latest item or member first. -/
inductive Open where
  | array (items : List Json)
  | object (members : List (String × Json))
  /-- An object whose last key still has no value. -/
  | member (members : List (String × Json)) (key : String)

/-- What may come next. -/
inductive Slot where
  /-- A value: the whole text, or after a colon. -/
  | value
  /-- The first item, or the end of the array. -/
  | firstItem
  /-- The item after a comma. -/
  | nextItem
  /-- The first key, or the end of the object. -/
  | firstKey
  /-- The key after a comma. -/
  | nextKey
  /-- The colon after a key. -/
  | colon
  /-- A comma, or the end of the container. -/
  | separator
deriving DecidableEq

/-- Where reading goes on after a value: outside all containers it is done. -/
inductive Progress where
  | done (value : Json)
  | more (stack : List Open)

/-- Puts a value into the innermost container. -/
def place (value : Json) : List Open → Progress
  | [] => .done value
  | .array items :: rest => .more (.array (value :: items) :: rest)
  | .member members key :: rest => .more (.object ((key, value) :: members) :: rest)
  | .object members :: rest => .more (.object members :: rest)

/-- The value of the innermost container, and the containers around it. -/
def close : List Open → Json × List Open
  | .array items :: rest => (.array items.reverse, rest)
  | .object members :: rest => (ofMembers members.reverse, rest)
  | .member members _ :: rest => (ofMembers members.reverse, rest)
  | [] => (.null, [])

/-- The greatest number of containers nested in one another. -/
def maxDepth : Nat := 127

/-- The fault when a value should start with the token. -/
def valueFault (demand : Demand) (slot : Slot) (t : Token) : Fault :=
  match t.kind with
  | .broken wanted skipped _ => if demand = .wanted then wanted else skipped
  | .finish => ⟨if slot = .firstItem then .endInList else .endInValue, t.peek⟩
  | .closeBracket =>
    ⟨if slot = .nextItem && demand = .wanted then .trailingComma else .valueExpected, t.peek⟩
  | _ => ⟨.valueExpected, t.peek⟩

/-- The fault when a key should start with the token. -/
def keyFault (demand : Demand) (slot : Slot) (t : Token) : Fault :=
  let afterComma := slot = .nextKey && demand = .wanted
  match t.kind with
  | .broken wanted skipped true => if demand = .wanted then wanted else skipped
  | .finish => ⟨if afterComma then .endInValue else .endInObject, t.peek⟩
  | .closeBrace => ⟨if afterComma then .trailingComma else .keyExpected, t.peek⟩
  | _ => ⟨.keyExpected, t.peek⟩

/-- The fault when the token does not go on with the container on top of the stack. -/
def separatorFault (stack : List Open) (t : Token) : Fault :=
  let inArray := match stack with
    | .array _ :: _ => true
    | _ => false
  match t.kind with
  | .finish => ⟨if inArray then .endInList else .endInObject, t.peek⟩
  | _ => ⟨if inArray then .listSeparatorExpected else .objectSeparatorExpected, t.peek⟩

/-- The key of a member; a key that is passed over has no text. -/
def keyText (demand : Demand) (key : Except Fault String) : Except Fault String :=
  match demand with
  | .wanted => key
  | .skipped => .ok ""

/-- The value of a token that is a whole value, `none` for every other token. -/
def scalar? (demand : Demand) (t : Token) : Except Fault (Option Json) :=
  match t.kind, demand with
  | .null, _ => .ok (some .null)
  | .bool b, _ => .ok (some (.bool b))
  | .number (.ok n), _ => .ok (some (.number n))
  | .number (.error f), .wanted => .error f
  | .number (.error _), .skipped => .ok (some .null)
  | .string (.ok s), _ => .ok (some (.string s))
  | .string (.error f), .wanted => .error f
  | .string (.error _), .skipped => .ok (some .null)
  | _, _ => .ok none

/-- What one token does: the value is complete, or reading goes on. -/
inductive Move where
  | done (value : Json)
  | more (slot : Slot) (stack : List Open)

/-- Goes on after a complete value. -/
def Move.ofValue (value : Json) (stack : List Open) : Move :=
  match place value stack with
  | .done v => .done v
  | .more stack => .more .separator stack

/-- Opens a container, unless too many are open. -/
def openContainer (demand : Demand) (container : Open) (slot : Slot) (stack : List Open) (t : Token) :
    Except Fault Move :=
  if demand = .wanted && maxDepth ≤ stack.length then .error ⟨.nestedTooDeep, t.peek⟩
  else .ok (.more slot (container :: stack))

/-- Ends the innermost container. -/
def endContainer (stack : List Open) : Move :=
  let (value, stack) := close stack
  .ofValue value stack

/-- Takes a token as the start of a value. -/
def startValue (demand : Demand) (slot : Slot) (stack : List Open) (t : Token) :
    Except Fault Move :=
  match t.kind with
  | .openBrace => openContainer demand (.object []) .firstKey stack t
  | .openBracket => openContainer demand (.array []) .firstItem stack t
  | _ =>
    match scalar? demand t with
    | .error f => .error f
    | .ok (some v) => .ok (.ofValue v stack)
    | .ok none => .error (valueFault demand slot t)

/-- Takes a token as a key. -/
def startKey (demand : Demand) (slot : Slot) (stack : List Open) (t : Token) : Except Fault Move :=
  match t.kind, stack with
  | .string key, .object members :: rest =>
    match keyText demand key with
    | .ok k => .ok (.more .colon (.member members k :: rest))
    | .error f => .error f
  | _, _ => .error (keyFault demand slot t)

/-- Takes one token. -/
def move (demand : Demand) (slot : Slot) (stack : List Open) (t : Token) : Except Fault Move :=
  match slot, t.kind, stack with
  | .firstItem, .closeBracket, _ => .ok (endContainer stack)
  | .firstKey, .closeBrace, _ => .ok (endContainer stack)
  | .separator, .closeBracket, .array _ :: _ => .ok (endContainer stack)
  | .separator, .closeBrace, .object _ :: _ => .ok (endContainer stack)
  | .separator, .comma, .array _ :: _ => .ok (.more .nextItem stack)
  | .separator, .comma, .object _ :: _ => .ok (.more .nextKey stack)
  | .separator, _, _ => .error (separatorFault stack t)
  | .colon, .colon, _ => .ok (.more .value stack)
  | .colon, .finish, _ => .error ⟨.endInObject, t.peek⟩
  | .colon, _, _ => .error ⟨.colonExpected, t.peek⟩
  | .firstKey, _, _ => startKey demand slot stack t
  | .nextKey, _, _ => startKey demand slot stack t
  | _, _, _ => startValue demand slot stack t

/-- Takes tokens up to the end of the value, and gives the tokens after it. -/
def readFrom (demand : Demand) (slot : Slot) (stack : List Open) :
    List Token → Except Fault (Json × List Token)
  | [] => .error ⟨.endInValue, .start⟩
  | t :: ts =>
    match move demand slot stack t with
    | .error f => .error f
    | .ok (.done v) => .ok (v, ts)
    | .ok (.more slot stack) => readFrom demand slot stack ts

/-- The value that the tokens start with, and the tokens after it. -/
def read (ts : List Token) : Except Fault (Json × List Token) :=
  readFrom .wanted .value [] ts

/-- The tokens after a value that is not wanted. -/
def skip (ts : List Token) : Except Fault (List Token) :=
  (·.2) <$> readFrom .skipped .value [] ts

/-- Fails unless the text is at its end. -/
def expectEnd : List Token → Except Fault Unit
  | [] => .ok ()
  | t :: _ =>
    match t.kind with
    | .finish => .ok ()
    | _ => .error ⟨.trailingCharacters, t.peek⟩

/-- The value of a whole text. -/
def parse (bytes : List UInt8) : Except Fault Json := do
  let (v, rest) ← read (tokens bytes)
  expectEnd rest
  return v

end IndexFs.Json

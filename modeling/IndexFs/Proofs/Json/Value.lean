import IndexFs.Json.Reader
import IndexFs.Proofs.Json.Members
import IndexFs.Proofs.Json.Token

/-!
# Values of JSON read back

The compact text of a value is parsed to this value, if its numbers are integers of 64 bits and it is not
nested deeper than the parser allows.
-/

namespace IndexFs.Json

/-- Reading goes on after a value that stands in the innermost of the open containers. -/
def readAfter (v : Json) (stack : List Open) (ts : List Token) : Except Fault (Json × List Token) :=
  match Move.ofValue v stack with
  | .done v => .ok (v, ts)
  | .more slot stack => readFrom .wanted slot stack ts

/-- The slots that a value may take. -/
def Slot.TakesValue (slot : Slot) : Prop :=
  slot = .value ∨ slot = .firstItem ∨ slot = .nextItem

/-- A token that completes no value moves on to the next one. -/
theorem readFrom_more {slot : Slot} {stack : List Open} {t : Token} (slot' : Slot)
    (stack' : List Open)
    (h : move .wanted slot stack t = .ok (.more slot' stack')) (ts : List Token) :
    readFrom .wanted slot stack (t :: ts) = readFrom .wanted slot' stack' ts := by
  rw [readFrom, h]

/-- A token that is a value of its own completes it. -/
theorem readFrom_value {slot : Slot} {stack : List Open} {t : Token} (v : Json)
    (stack' : List Open)
    (h : move .wanted slot stack t = .ok (.ofValue v stack')) (ts : List Token) :
    readFrom .wanted slot stack (t :: ts) = readAfter v stack' ts := by
  rw [readFrom, h, readAfter]
  cases Move.ofValue v stack' <;> rfl

/-! ## The bytes of brackets -/

theorem encode_openBracket (cs : List Char) : Utf8.encode ('[' :: cs) = 0x5B :: Utf8.encode cs := rfl

theorem encode_closeBracket (cs : List Char) : Utf8.encode (']' :: cs) = 0x5D :: Utf8.encode cs := rfl

theorem encode_openBrace (cs : List Char) : Utf8.encode ('{' :: cs) = 0x7B :: Utf8.encode cs := rfl

theorem encode_closeBrace (cs : List Char) : Utf8.encode ('}' :: cs) = 0x7D :: Utf8.encode cs := rfl

theorem encode_comma (cs : List Char) : Utf8.encode (',' :: cs) = 0x2C :: Utf8.encode cs := rfl

theorem encode_colon (cs : List Char) : Utf8.encode (':' :: cs) = 0x3A :: Utf8.encode cs := rfl

/-- Behind an item, no numeral goes on. -/
theorem ends_moreItems (vs : List Json) (rest : List UInt8) :
    Numeral.Ends (Utf8.encode (moreItems vs) ++ rest) := by
  intro b hb
  cases vs with
  | nil =>
    rw [moreItems, encode_closeBracket] at hb
    cases hb
    decide
  | cons v vs =>
    rw [moreItems, List.cons_append, encode_comma] at hb
    cases hb
    decide

/-- Behind a member, no numeral goes on. -/
theorem ends_moreMembers (ms : List (String × Json)) (rest : List UInt8) :
    Numeral.Ends (Utf8.encode (moreMembers ms) ++ rest) := by
  intro b hb
  cases ms with
  | nil =>
    rw [moreMembers, encode_closeBrace] at hb
    cases hb
    decide
  | cons m ms =>
    obtain ⟨k, v⟩ := m
    rw [moreMembers, List.append_assoc, List.cons_append, encode_comma] at hb
    cases hb
    decide

/-! ## Moves -/

section

variable {slot : Slot} (h : slot.TakesValue) (stack : List Open) (start stop : Pos)
include h

theorem move_null :
    move .wanted slot stack ⟨.null, start, stop⟩ = .ok (.ofValue .null stack) := by
  rcases h with rfl | rfl | rfl <;> rfl

theorem move_bool (b : Bool) :
    move .wanted slot stack ⟨.bool b, start, stop⟩ = .ok (.ofValue (.bool b) stack) := by
  rcases h with rfl | rfl | rfl <;> rfl

theorem move_number (n : Number) :
    move .wanted slot stack ⟨.number (.ok n), start, stop⟩ = .ok (.ofValue (.number n) stack) := by
  rcases h with rfl | rfl | rfl <;> rfl

theorem move_string (s : String) :
    move .wanted slot stack ⟨.string (.ok s), start, stop⟩ = .ok (.ofValue (.string s) stack) := by
  rcases h with rfl | rfl | rfl <;> rfl

/-- An array is opened as long as there are not too many levels. -/
theorem move_openBracket (hdepth : stack.length < maxDepth) :
    move .wanted slot stack ⟨.openBracket, start, stop⟩ =
      .ok (.more .firstItem (.array [] :: stack)) := by
  have hfits : ¬maxDepth ≤ stack.length := by omega
  rcases h with rfl | rfl | rfl <;> simp [move, startValue, openContainer, hfits]

/-- An object is opened as long as there are not too many levels. -/
theorem move_openBrace (hdepth : stack.length < maxDepth) :
    move .wanted slot stack ⟨.openBrace, start, stop⟩ =
      .ok (.more .firstKey (.object [] :: stack)) := by
  have hfits : ¬maxDepth ≤ stack.length := by omega
  rcases h with rfl | rfl | rfl <;> simp [move, startValue, openContainer, hfits]

end

/-! ## Values -/

/-- A position moves across bytes in any portions. -/
theorem across_cons_append (p : Pos) (b : UInt8) (bs cs : List UInt8) :
    p.across (b :: (bs ++ cs)) = ((p.across [b]).across bs).across cs :=
  List.foldl_append

/-- The bytes of an array that is not empty. -/
theorem encode_array (v : Json) (vs : List Json) :
    Utf8.encode (chars (.array (v :: vs))) =
      0x5B :: (Utf8.encode v.chars ++ Utf8.encode (moreItems vs)) := by
  rw [chars, List.cons_append, encode_openBracket, Utf8.encode_append]

/-- Every further item stands behind a comma. -/
theorem encode_moreItems (v : Json) (vs : List Json) :
    Utf8.encode (moreItems (v :: vs)) =
      0x2C :: (Utf8.encode v.chars ++ Utf8.encode (moreItems vs)) := by
  rw [moreItems, List.cons_append, encode_comma, Utf8.encode_append]

/-- The bytes of an object that is not empty. -/
theorem encode_object (k : String) (v : Json) (ms : List (String × Json)) :
    Utf8.encode (chars (.object ((k, v) :: ms))) =
      0x7B :: (Utf8.encode (stringChars k) ++
        0x3A :: (Utf8.encode v.chars ++ Utf8.encode (moreMembers ms))) := by
  rw [chars, List.append_assoc, List.cons_append, encode_openBrace, Utf8.encode_append,
    List.cons_append, encode_colon, Utf8.encode_append]

/-- Every further member stands behind a comma, with a colon between key and value. -/
theorem encode_moreMembers (k : String) (v : Json) (ms : List (String × Json)) :
    Utf8.encode (moreMembers ((k, v) :: ms)) =
      0x2C :: (Utf8.encode (stringChars k) ++
        0x3A :: (Utf8.encode v.chars ++ Utf8.encode (moreMembers ms))) := by
  rw [moreMembers, List.append_assoc, List.cons_append, encode_comma, Utf8.encode_append,
    List.cons_append, encode_colon, Utf8.encode_append]

mutual

/-- The text of a value is read as this value, at every place where a value may stand. -/
theorem readFrom_chars : ∀ (v : Json), v.Regular → ∀ (slot : Slot), slot.TakesValue →
    ∀ (stack : List Open), stack.length + v.depth ≤ maxDepth → ∀ {rest : List UInt8},
    Numeral.Ends rest → ∀ p : Pos, readFrom .wanted slot stack
      (tokensFrom p 0 (Utf8.encode v.chars ++ rest)) =
        readAfter v stack (tokensFrom (p.across (Utf8.encode v.chars)) 0 rest)
  | .null, _, _, hslot, stack, _, rest, _, p => by
    rw [tokensFrom_null, readFrom_value _ _ (move_null hslot stack _ _)]
  | .bool b, _, _, hslot, stack, _, rest, _, p => by
    rw [tokensFrom_bool, readFrom_value _ _ (move_bool hslot stack _ _ b)]
  | .number (.integer n), hv, _, hslot, stack, _, rest, hrest, p => by
    have hn : (Number.integer n).IsInteger := by
      rw [Regular] at hv
      exact hv
    rw [chars, Number.chars, tokensFrom_integerChars hn hrest,
      readFrom_value _ _ (move_number hslot stack _ _ _)]
  | .number (.float x), hv, _, _, _, _, _, _, _ => by
    rw [Regular] at hv
    exact hv.elim
  | .string s, _, _, hslot, stack, _, rest, _, p => by
    rw [chars, tokensFrom_stringChars, readFrom_value _ _ (move_string hslot stack _ _ s)]
  | .array [], _, _, hslot, stack, hdepth, rest, _, p => by
    rw [depth, itemsDepth] at hdepth
    have hbytes : Utf8.encode (chars (.array [])) ++ rest = 0x5B :: 0x5D :: rest := by
      rw [chars]
      rfl
    rw [hbytes, tokensFrom_mark (by decide) _ rfl,
      readFrom_more _ _ (move_openBracket hslot stack _ _ (by omega)),
      tokensFrom_mark (by decide) _ rfl, readFrom_value (.array []) stack rfl, chars]
    rfl
  | .array (v :: vs), hv, _, hslot, stack, hdepth, rest, _, p => by
    rw [Regular, ItemsRegular] at hv
    rw [depth, itemsDepth] at hdepth
    have hfirst := readFrom_chars v hv.1 .firstItem (.inr (.inl rfl))
      (.array [] :: stack) (by rw [List.length_cons]; omega) (ends_moreItems vs rest)
    have hmore := readFrom_moreItems vs hv.2 [v] stack (by omega) rest
    -- the bracket, the first item, and then the items behind it
    rw [encode_array, List.cons_append, tokensFrom_mark (by decide) _ rfl,
      readFrom_more _ _ (move_openBracket hslot stack _ _ (by omega)), List.append_assoc, hfirst,
      across_cons_append]
    exact hmore _
  | .object [], _, _, hslot, stack, hdepth, rest, _, p => by
    rw [depth, membersDepth] at hdepth
    have hbytes : Utf8.encode (chars (.object [])) ++ rest = 0x7B :: 0x7D :: rest := by
      rw [chars]
      rfl
    rw [hbytes, tokensFrom_mark (by decide) _ rfl,
      readFrom_more _ _ (move_openBrace hslot stack _ _ (by omega)),
      tokensFrom_mark (by decide) _ rfl, readFrom_value (.object []) stack rfl, chars]
    rfl
  | .object ((k, v) :: ms), hv, _, hslot, stack, hdepth, rest, _, p => by
    rw [Regular, MembersRegular] at hv
    rw [depth, membersDepth] at hdepth
    have hfirst := readFrom_chars v hv.2.1 .value (.inl rfl)
      (.member [] k :: stack) (by rw [List.length_cons]; omega) (ends_moreMembers ms rest)
    have hmore := readFrom_moreMembers ms hv.2.2 [(k, v)] hv.1 stack (by omega) rest
    -- the brace, the first key with its colon and its value, and then the members behind it
    rw [encode_object, List.cons_append, tokensFrom_mark (by decide) _ rfl,
      readFrom_more _ _ (move_openBrace hslot stack _ _ (by omega)), List.append_assoc,
      tokensFrom_stringChars, readFrom_more .colon (.member [] k :: stack) rfl,
      List.cons_append, tokensFrom_mark (by decide) _ rfl,
      readFrom_more .value (.member [] k :: stack) rfl, List.append_assoc,
      hfirst, across_cons_append, across_cons_append]
    exact hmore _

/-- The items after some that were read already. -/
theorem readFrom_moreItems : ∀ (vs : List Json), ItemsRegular vs → ∀ (acc : List Json)
    (stack : List Open), stack.length + 1 + itemsDepth vs ≤ maxDepth → ∀ (rest : List UInt8) (p : Pos),
    readFrom .wanted .separator (.array acc :: stack)
      (tokensFrom p 0 (Utf8.encode (moreItems vs) ++ rest)) =
        readAfter (.array (acc.reverse ++ vs)) stack
          (tokensFrom (p.across (Utf8.encode (moreItems vs))) 0 rest)
  | [], _, acc, stack, _, rest, p => by
    have hbytes : Utf8.encode (moreItems []) = [0x5D] := by
      rw [moreItems]
      rfl
    rw [hbytes, List.singleton_append, tokensFrom_mark (by decide) _ rfl,
      readFrom_value (.array acc.reverse) stack rfl, List.append_nil]
  | v :: vs, hvs, acc, stack, hdepth, rest, p => by
    rw [ItemsRegular] at hvs
    rw [itemsDepth] at hdepth
    -- the item at the front, and then the others behind it
    have hfirst := readFrom_chars v hvs.1 .nextItem (.inr (.inr rfl))
      (.array acc :: stack) (by rw [List.length_cons]; omega) (ends_moreItems vs rest)
    have hmore := readFrom_moreItems vs hvs.2 (v :: acc) stack (by omega) rest
    rw [List.reverse_cons, List.append_assoc, List.singleton_append] at hmore
    rw [encode_moreItems, List.cons_append, tokensFrom_mark (by decide) _ rfl,
      readFrom_more .nextItem (.array acc :: stack) rfl, List.append_assoc,
      hfirst, across_cons_append]
    exact hmore _

/-- The members after some that were read already. -/
theorem readFrom_moreMembers : ∀ (ms : List (String × Json)), MembersRegular ms →
    ∀ (acc : List (String × Json)), KeysAscend (acc.reverse ++ ms) → ∀ (stack : List Open),
    stack.length + 1 + membersDepth ms ≤ maxDepth → ∀ (rest : List UInt8) (p : Pos),
    readFrom .wanted .separator (.object acc :: stack)
      (tokensFrom p 0 (Utf8.encode (moreMembers ms) ++ rest)) =
        readAfter (.object (acc.reverse ++ ms)) stack
          (tokensFrom (p.across (Utf8.encode (moreMembers ms))) 0 rest)
  | [], _, acc, hkeys, stack, _, rest, p => by
    have hbytes : Utf8.encode (moreMembers []) = [0x7D] := by
      rw [moreMembers]
      rfl
    rw [List.append_nil] at hkeys
    rw [hbytes, List.singleton_append, tokensFrom_mark (by decide) _ rfl,
      readFrom_value (ofMembers acc.reverse) stack rfl, ofMembers_of_ascend hkeys,
      List.append_nil]
  | (k, v) :: ms, hms, acc, hkeys, stack, hdepth, rest, p => by
    rw [MembersRegular] at hms
    rw [membersDepth] at hdepth
    have hassoc : ((k, v) :: acc).reverse ++ ms = acc.reverse ++ (k, v) :: ms := by simp
    -- the value at the front, and then the other members behind it
    have hfirst := readFrom_chars v hms.1 .value (.inl rfl)
      (.member acc k :: stack) (by rw [List.length_cons]; omega) (ends_moreMembers ms rest)
    have hmore := readFrom_moreMembers ms hms.2 ((k, v) :: acc) (hassoc ▸ hkeys) stack (by omega) rest
    rw [hassoc] at hmore
    rw [encode_moreMembers, List.cons_append, tokensFrom_mark (by decide) _ rfl,
      readFrom_more .nextKey (.object acc :: stack) rfl, List.append_assoc,
      tokensFrom_stringChars, readFrom_more .colon (.member acc k :: stack) rfl,
      List.cons_append, tokensFrom_mark (by decide) _ rfl,
      readFrom_more .value (.member acc k :: stack) rfl, List.append_assoc,
      hfirst, across_cons_append, across_cons_append]
    exact hmore _

end

/-- The compact text of a value is parsed to this value. -/
theorem parse_bytes {v : Json} (hv : v.Regular) (hdepth : v.depth ≤ maxDepth) :
    parse v.bytes = .ok v := by
  have hread := readFrom_chars v hv .value (.inl rfl) [] (by simpa using hdepth)
    Numeral.ends_nil .start
  rw [List.append_nil] at hread
  rw [parse, tokens, read, bytes, hread]
  rfl

end IndexFs.Json

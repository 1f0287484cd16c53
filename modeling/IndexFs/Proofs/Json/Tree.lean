import IndexFs.Proofs.Json.Value

/-!
# Syntax trees

What a text of JSON is made of. A tree has the members of an object in the order of the text, repeated ones too, and
the strings and numbers as their tokens have them, with the fault of those that have no value. The texts that can be
passed over are those of the trees (`exists_spells_iff`); there is no limit on the depth.
-/

namespace IndexFs.Json

/-- A value as it is written. -/
inductive Tree where
  | null
  | bool (b : Bool)
  | number (value : Except Fault Number)
  | string (value : Except Fault String)
  | array (items : List Tree)
  | object (members : List (Except Fault String × Tree))

namespace Tree

mutual

/-- The tokens of a value. -/
def kinds : Tree → List TokenKind
  | .null => [.null]
  | .bool b => [.bool b]
  | .number value => [.number value]
  | .string value => [.string value]
  | .array [] => [.openBracket, .closeBracket]
  | .array (t :: ts) => .openBracket :: (kinds t ++ moreItemKinds ts)
  | .object [] => [.openBrace, .closeBrace]
  | .object ((key, t) :: ms) => .openBrace :: .string key :: .colon :: (kinds t ++ moreMemberKinds ms)

/-- The tokens of the items after the first one, up to the end of the array. -/
def moreItemKinds : List Tree → List TokenKind
  | [] => [.closeBracket]
  | t :: ts => .comma :: (kinds t ++ moreItemKinds ts)

/-- The tokens of the members after the first one, up to the end of the object. -/
def moreMemberKinds : List (Except Fault String × Tree) → List TokenKind
  | [] => [.closeBrace]
  | (key, t) :: ms => .comma :: .string key :: .colon :: (kinds t ++ moreMemberKinds ms)

end

end Tree

/-- A text is that of a tree: its tokens are those of the tree, and then it ends. -/
def Spells (bytes : List UInt8) (t : Tree) : Prop :=
  ∃ ts rest, tokens bytes = ts ++ rest ∧ ts.map Token.kind = t.kinds ∧ expectEnd rest = .ok ()

/-! ## The texts of trees are passed over -/

/-- Passing over goes on after a value that stands in the innermost of the open containers. -/
def skipAfter (v : Json) (stack : List Open) (ts : List Token) : Except Fault (Json × List Token) :=
  match Move.ofValue v stack with
  | .done v => .ok (v, ts)
  | .more slot stack => readFrom .skipped slot stack ts

theorem skip_more {slot : Slot} {stack : List Open} {t : Token} (slot' : Slot) (stack' : List Open)
    (h : move .skipped slot stack t = .ok (.more slot' stack')) (ts : List Token) :
    readFrom .skipped slot stack (t :: ts) = readFrom .skipped slot' stack' ts := by
  rw [readFrom, h]

theorem skip_value {slot : Slot} {stack : List Open} {t : Token} (v : Json) (stack' : List Open)
    (h : move .skipped slot stack t = .ok (.ofValue v stack')) (ts : List Token) :
    readFrom .skipped slot stack (t :: ts) = skipAfter v stack' ts := by
  rw [readFrom, h, skipAfter]
  cases Move.ofValue v stack' <;> rfl

/-- The first token, whose kind is known, and the tokens behind it. -/
theorem exists_token {ts : List Token} {kind : TokenKind} {kinds : List TokenKind}
    (h : ts.map Token.kind = kind :: kinds) :
    ∃ start stop ts', ts = ⟨kind, start, stop⟩ :: ts' ∧ ts'.map Token.kind = kinds := by
  obtain ⟨⟨kind', start, stop⟩, ts', rfl, rfl, hts'⟩ := List.map_eq_cons_iff.mp h
  exact ⟨start, stop, ts', rfl, hts'⟩

/-- The only token, whose kind is known. -/
theorem exists_only_token {ts : List Token} {kind : TokenKind} (h : ts.map Token.kind = [kind]) :
    ∃ start stop, ts = [⟨kind, start, stop⟩] := by
  obtain ⟨start, stop, ts', rfl, hts'⟩ := exists_token h
  obtain rfl := List.map_eq_nil_iff.mp hts'
  exact ⟨start, stop, rfl⟩

/-- The tokens of two parts. -/
theorem exists_tokens {ts : List Token} {kinds more : List TokenKind} (h : ts.map Token.kind = kinds ++ more) :
    ∃ us vs, ts = us ++ vs ∧ us.map Token.kind = kinds ∧ vs.map Token.kind = more :=
  List.map_eq_append_iff.mp h

/-- The tokens of a member, and those behind it. -/
theorem exists_member_tokens {ts : List Token} {key : Except Fault String} {kinds more : List TokenKind}
    (h : ts.map Token.kind = .string key :: .colon :: (kinds ++ more)) :
    ∃ p q p' q' us vs, ts = ⟨.string key, p, q⟩ :: ⟨.colon, p', q'⟩ :: (us ++ vs) ∧ us.map Token.kind = kinds ∧
      vs.map Token.kind = more := by
  obtain ⟨p, q, ts', rfl, hts'⟩ := exists_token h
  obtain ⟨p', q', ts'', rfl, hts''⟩ := exists_token hts'
  obtain ⟨us, vs, rfl, hus, hvs⟩ := exists_tokens hts''
  exact ⟨p, q, p', q', us, vs, rfl, hus, hvs⟩

section

variable {slot : Slot} (h : slot.TakesValue) (stack : List Open) (start stop : Pos)
include h

theorem skip_openBracket (ts : List Token) :
    readFrom .skipped slot stack (⟨.openBracket, start, stop⟩ :: ts) =
      readFrom .skipped .firstItem (.array [] :: stack) ts := by
  rcases h with rfl | rfl | rfl <;> rfl

theorem skip_openBrace (ts : List Token) :
    readFrom .skipped slot stack (⟨.openBrace, start, stop⟩ :: ts) =
      readFrom .skipped .firstKey (.object [] :: stack) ts := by
  rcases h with rfl | rfl | rfl <;> rfl

end

mutual

/-- The tokens of a value are passed over, at every place where a value may stand. -/
theorem skip_kinds : ∀ (t : Tree) {slot : Slot}, slot.TakesValue →
    ∀ (stack : List Open) {ts : List Token}, ts.map Token.kind = t.kinds → ∀ rest : List Token,
    ∃ v, readFrom .skipped slot stack (ts ++ rest) = skipAfter v stack rest
  | .null, slot, hslot, stack, ts, hts, rest => by
    rw [Tree.kinds] at hts
    obtain ⟨start, stop, rfl⟩ := exists_only_token hts
    rcases hslot with rfl | rfl | rfl <;> exact ⟨_, skip_value .null stack rfl rest⟩
  | .bool b, slot, hslot, stack, ts, hts, rest => by
    rw [Tree.kinds] at hts
    obtain ⟨start, stop, rfl⟩ := exists_only_token hts
    rcases hslot with rfl | rfl | rfl <;> exact ⟨_, skip_value (.bool b) stack rfl rest⟩
  | .number value, slot, hslot, stack, ts, hts, rest => by
    rw [Tree.kinds] at hts
    obtain ⟨start, stop, rfl⟩ := exists_only_token hts
    cases value <;> rcases hslot with rfl | rfl | rfl <;> exact ⟨_, skip_value _ stack rfl rest⟩
  | .string value, slot, hslot, stack, ts, hts, rest => by
    rw [Tree.kinds] at hts
    obtain ⟨start, stop, rfl⟩ := exists_only_token hts
    cases value <;> rcases hslot with rfl | rfl | rfl <;> exact ⟨_, skip_value _ stack rfl rest⟩
  | .array [], slot, hslot, stack, ts, hts, rest => by
    rw [Tree.kinds] at hts
    obtain ⟨start, stop, us, rfl, hus⟩ := exists_token hts
    obtain ⟨start', stop', rfl⟩ := exists_only_token hus
    rw [List.cons_append, skip_openBracket hslot]
    exact ⟨_, skip_value (.array []) stack rfl rest⟩
  | .array (t :: items), slot, hslot, stack, ts, hts, rest => by
    rw [Tree.kinds] at hts
    obtain ⟨start, stop, us, rfl, hus⟩ := exists_token hts
    obtain ⟨us, vs, rfl, hus, hvs⟩ := exists_tokens hus
    rw [List.cons_append, skip_openBracket hslot, List.append_assoc]
    -- the first item, and then the others up to the bracket
    obtain ⟨v, hv⟩ := skip_kinds t (.inr (.inl rfl)) (.array [] :: stack) hus (vs ++ rest)
    rw [hv]
    exact skip_moreItemKinds items [v] stack hvs rest
  | .object [], slot, hslot, stack, ts, hts, rest => by
    rw [Tree.kinds] at hts
    obtain ⟨start, stop, us, rfl, hus⟩ := exists_token hts
    obtain ⟨start', stop', rfl⟩ := exists_only_token hus
    rw [List.cons_append, skip_openBrace hslot]
    exact ⟨_, skip_value (.object []) stack rfl rest⟩
  | .object ((key, t) :: members), slot, hslot, stack, ts, hts, rest => by
    rw [Tree.kinds] at hts
    obtain ⟨_, _, ts', rfl, hts'⟩ := exists_token hts
    -- the key, the colon and the first value, and then the other members up to the brace
    obtain ⟨_, _, _, _, us, vs, rfl, hus, hvs⟩ := exists_member_tokens hts'
    rw [List.cons_append, skip_openBrace hslot, List.cons_append, List.cons_append,
      skip_more .colon (.member [] "" :: stack) rfl, skip_more .value (.member [] "" :: stack) rfl, List.append_assoc]
    obtain ⟨v, hv⟩ := skip_kinds t (.inl rfl) (.member [] "" :: stack) hus (vs ++ rest)
    rw [hv]
    exact skip_moreMemberKinds members [("", v)] stack hvs rest

/-- The items after some that were passed over already. -/
theorem skip_moreItemKinds : ∀ (items : List Tree) (acc : List Json) (stack : List Open) {ts : List Token},
    ts.map Token.kind = Tree.moreItemKinds items → ∀ rest : List Token,
    ∃ v, readFrom .skipped .separator (.array acc :: stack) (ts ++ rest) = skipAfter v stack rest
  | [], acc, stack, ts, hts, rest => by
    rw [Tree.moreItemKinds] at hts
    obtain ⟨_, _, rfl⟩ := exists_only_token hts
    exact ⟨_, skip_value (.array acc.reverse) stack rfl rest⟩
  | t :: items, acc, stack, ts, hts, rest => by
    rw [Tree.moreItemKinds] at hts
    obtain ⟨_, _, us, rfl, hus⟩ := exists_token hts
    obtain ⟨us, vs, rfl, hus, hvs⟩ := exists_tokens hus
    rw [List.cons_append, skip_more .nextItem (.array acc :: stack) rfl, List.append_assoc]
    obtain ⟨v, hv⟩ := skip_kinds t (.inr (.inr rfl)) (.array acc :: stack) hus (vs ++ rest)
    rw [hv]
    exact skip_moreItemKinds items (v :: acc) stack hvs rest

/-- The members after some that were passed over already. -/
theorem skip_moreMemberKinds : ∀ (members : List (Except Fault String × Tree)) (acc : List (String × Json))
    (stack : List Open) {ts : List Token}, ts.map Token.kind = Tree.moreMemberKinds members → ∀ rest : List Token,
    ∃ v, readFrom .skipped .separator (.object acc :: stack) (ts ++ rest) = skipAfter v stack rest
  | [], acc, stack, ts, hts, rest => by
    rw [Tree.moreMemberKinds] at hts
    obtain ⟨_, _, rfl⟩ := exists_only_token hts
    exact ⟨_, skip_value (ofMembers acc.reverse) stack rfl rest⟩
  | (key, t) :: members, acc, stack, ts, hts, rest => by
    rw [Tree.moreMemberKinds] at hts
    obtain ⟨_, _, ts', rfl, hts'⟩ := exists_token hts
    obtain ⟨_, _, _, _, us, vs, rfl, hus, hvs⟩ := exists_member_tokens hts'
    rw [List.cons_append, List.cons_append, List.cons_append, skip_more .nextKey (.object acc :: stack) rfl,
      skip_more .colon (.member acc "" :: stack) rfl, skip_more .value (.member acc "" :: stack) rfl,
      List.append_assoc]
    obtain ⟨v, hv⟩ := skip_kinds t (.inl rfl) (.member acc "" :: stack) hus (vs ++ rest)
    rw [hv]
    exact skip_moreMemberKinds members (("", v) :: acc) stack hvs rest

end

/-! ## What is passed over is the text of a tree -/

/-- The tokens that may follow a value in the innermost of the open containers, up to the end of the outermost. -/
def Closes : List Open → List TokenKind → Prop
  | [], kinds => kinds = []
  | .array _ :: stack, kinds => ∃ items more, kinds = Tree.moreItemKinds items ++ more ∧ Closes stack more
  | .object _ :: stack, kinds => ∃ members more, kinds = Tree.moreMemberKinds members ++ more ∧ Closes stack more
  | .member _ _ :: stack, kinds => ∃ members more, kinds = Tree.moreMemberKinds members ++ more ∧ Closes stack more

/-- The tokens that may come in a slot. -/
def Slot.Completes : Slot → List Open → List TokenKind → Prop
  | .value, stack, kinds => ∃ t more, kinds = Tree.kinds t ++ more ∧ Closes stack more
  | .nextItem, stack, kinds => ∃ t more, kinds = Tree.kinds t ++ more ∧ Closes stack more
  | .firstItem, stack, kinds =>
    (∃ more, kinds = .closeBracket :: more ∧ Closes stack.tail more) ∨
      ∃ t more, kinds = Tree.kinds t ++ more ∧ Closes stack more
  | .nextKey, stack, kinds => ∃ key t more, kinds = .string key :: .colon :: (Tree.kinds t ++ more) ∧ Closes stack more
  | .firstKey, stack, kinds =>
    (∃ more, kinds = .closeBrace :: more ∧ Closes stack.tail more) ∨
      ∃ key t more, kinds = .string key :: .colon :: (Tree.kinds t ++ more) ∧ Closes stack more
  | .colon, stack, kinds => ∃ t more, kinds = .colon :: (Tree.kinds t ++ more) ∧ Closes stack more
  | .separator, stack, kinds => Closes stack kinds

/-- What remains to be read after a move. -/
def Move.Completes : Move → List TokenKind → Prop
  | .done _, kinds => kinds = []
  | .more slot stack, kinds => slot.Completes stack kinds

theorem closes_of_ofValue {v : Json} {stack : List Open} {kinds : List TokenKind}
    (h : (Move.ofValue v stack).Completes kinds) : Closes stack kinds := by
  match stack with
  | [] => exact h
  | .array _ :: _ => exact h
  | .object _ :: _ => exact h
  | .member _ _ :: _ => exact h

theorem closes_of_endContainer {stack : List Open} {kinds : List TokenKind}
    (h : (endContainer stack).Completes kinds) : Closes stack.tail kinds := by
  match stack with
  | [] => exact h
  | .array _ :: _ => exact closes_of_ofValue h
  | .object _ :: _ => exact closes_of_ofValue h
  | .member _ _ :: _ => exact closes_of_ofValue h

/-- A token that starts a value: the rest of the value comes behind it. -/
theorem startValue_completes {slot : Slot} {stack : List Open} {t : Token} {m : Move}
    (hmove : startValue .skipped slot stack t = .ok m) {kinds : List TokenKind} (h : m.Completes kinds) :
    ∃ tree more, t.kind :: kinds = Tree.kinds tree ++ more ∧ Closes stack more := by
  obtain ⟨kind, start, stop⟩ := t
  -- the first token says what is completed: a value of its own, or a container that it opens
  match kind, hmove with
  | .openBrace, hmove =>
    cases hmove
    rcases h with ⟨more, rfl, hmore⟩ | ⟨key, tree, _, rfl, members, more, rfl, hmore⟩
    · exact ⟨.object [], more, by simp [Tree.kinds], hmore⟩
    · exact ⟨.object ((key, tree) :: members), more, by simp [Tree.kinds], hmore⟩
  | .openBracket, hmove =>
    cases hmove
    rcases h with ⟨more, rfl, hmore⟩ | ⟨tree, _, rfl, items, more, rfl, hmore⟩
    · exact ⟨.array [], more, by simp [Tree.kinds], hmore⟩
    · exact ⟨.array (tree :: items), more, by simp [Tree.kinds], hmore⟩
  | .null, hmove =>
    cases hmove
    exact ⟨.null, kinds, by simp [Tree.kinds], closes_of_ofValue h⟩
  | .bool b, hmove =>
    cases hmove
    exact ⟨.bool b, kinds, by simp [Tree.kinds], closes_of_ofValue h⟩
  | .number (.ok n), hmove =>
    cases hmove
    exact ⟨.number (.ok n), kinds, by simp [Tree.kinds], closes_of_ofValue h⟩
  | .number (.error f), hmove =>
    cases hmove
    exact ⟨.number (.error f), kinds, by simp [Tree.kinds], closes_of_ofValue h⟩
  | .string (.ok s), hmove =>
    cases hmove
    exact ⟨.string (.ok s), kinds, by simp [Tree.kinds], closes_of_ofValue h⟩
  | .string (.error f), hmove =>
    cases hmove
    exact ⟨.string (.error f), kinds, by simp [Tree.kinds], closes_of_ofValue h⟩
  | .closeBrace, hmove => cases hmove
  | .closeBracket, hmove => cases hmove
  | .colon, hmove => cases hmove
  | .comma, hmove => cases hmove
  | .broken _ _ _, hmove => cases hmove
  | .finish, hmove => cases hmove

/-- A token that starts a member: the rest of the member comes behind it. -/
theorem startKey_completes {slot : Slot} {stack : List Open} {t : Token} {m : Move}
    (hmove : startKey .skipped slot stack t = .ok m) {kinds : List TokenKind} (h : m.Completes kinds) :
    ∃ key tree more, t.kind :: kinds = .string key :: .colon :: (Tree.kinds tree ++ more) ∧ Closes stack more := by
  obtain ⟨kind, start, stop⟩ := t
  unfold startKey at hmove
  split at hmove
  · next key members stack' hkind =>
    cases hmove
    obtain ⟨tree, more, rfl, hmore⟩ := h
    exact ⟨key, tree, more, by rw [hkind], hmore⟩
  · cases hmove

theorem completes_of_value {slot : Slot} (hseparator : slot ≠ .separator) (hcolon : slot ≠ .colon)
    (hfirstKey : slot ≠ .firstKey) (hnextKey : slot ≠ .nextKey) {stack : List Open} {kinds : List TokenKind}
    (h : ∃ tree more, kinds = Tree.kinds tree ++ more ∧ Closes stack more) : slot.Completes stack kinds := by
  cases slot with
  | value => exact h
  | nextItem => exact h
  | firstItem => exact .inr h
  | separator => exact absurd rfl hseparator
  | colon => exact absurd rfl hcolon
  | firstKey => exact absurd rfl hfirstKey
  | nextKey => exact absurd rfl hnextKey

/-- What a move leaves to be read, the token of the move before it, is what was to be read before the move. -/
theorem move_completes {slot : Slot} {stack : List Open} {t : Token} {m : Move}
    (hmove : move .skipped slot stack t = .ok m) {kinds : List TokenKind} (h : m.Completes kinds) :
    slot.Completes stack (t.kind :: kinds) := by
  unfold move at hmove
  split at hmove
  -- the innermost container ends
  · next hkind =>
    cases hmove
    exact .inl ⟨kinds, by rw [hkind], closes_of_endContainer h⟩
  · next hkind =>
    cases hmove
    exact .inl ⟨kinds, by rw [hkind], closes_of_endContainer h⟩
  · next hkind =>
    cases hmove
    exact ⟨[], kinds, by simp [hkind, Tree.moreItemKinds], closes_of_endContainer h⟩
  · next hkind =>
    cases hmove
    exact ⟨[], kinds, by simp [hkind, Tree.moreMemberKinds], closes_of_endContainer h⟩
  -- it goes on behind a comma
  · next hkind =>
    cases hmove
    obtain ⟨tree, _, rfl, items, more, rfl, hmore⟩ := h
    exact ⟨tree :: items, more, by simp [hkind, Tree.moreItemKinds], hmore⟩
  · next hkind =>
    cases hmove
    obtain ⟨key, tree, _, rfl, members, more, rfl, hmore⟩ := h
    exact ⟨(key, tree) :: members, more, by simp [hkind, Tree.moreMemberKinds], hmore⟩
  · cases hmove
  -- a key is over
  · next hkind =>
    cases hmove
    obtain ⟨tree, more, rfl, hmore⟩ := h
    exact ⟨tree, more, by rw [hkind], hmore⟩
  · cases hmove
  · cases hmove
  -- a key or a value begins
  · exact .inr (startKey_completes hmove h)
  · exact startKey_completes hmove h
  · exact completes_of_value ‹_› ‹_› ‹_› ‹_› (startValue_completes hmove h)

theorem readFrom_completes {slot : Slot} {stack : List Open} {ts rest : List Token} {v : Json}
    (h : readFrom .skipped slot stack ts = .ok (v, rest)) :
    ∃ us, ts = us ++ rest ∧ slot.Completes stack (us.map Token.kind) := by
  induction ts generalizing slot stack with
  | nil => cases h
  | cons t ts ih =>
    rw [readFrom] at h
    split at h
    · cases h
    · next w hmove =>
      cases h
      exact ⟨[t], rfl, move_completes hmove rfl⟩
    · next slot' stack' hmove =>
      obtain ⟨us, rfl, hus⟩ := ih h
      exact ⟨t :: us, rfl, move_completes hmove hus⟩

/-- The texts that are passed over are those of the trees. -/
theorem skip_eq_ok_iff {ts rest : List Token} :
    skip ts = .ok rest ↔ ∃ (t : Tree) (us : List Token), ts = us ++ rest ∧ us.map Token.kind = t.kinds := by
  constructor
  · intro h
    rw [skip] at h
    cases hread : readFrom .skipped .value [] ts with
    | error f =>
      rw [hread] at h
      cases h
    | ok result =>
      rw [hread] at h
      cases h
      obtain ⟨us, hts, t, more, hus, rfl⟩ := readFrom_completes hread
      exact ⟨t, us, hts, by rw [hus, List.append_nil]⟩
  · rintro ⟨t, us, rfl, hus⟩
    obtain ⟨v, hv⟩ := skip_kinds t (.inl rfl) [] hus rest
    rw [skip, hv]
    rfl

/-- A text is that of a tree exactly if it can be passed over as a whole. -/
theorem exists_spells_iff {bytes : List UInt8} :
    (∃ t, Spells bytes t) ↔ ∃ rest, skip (tokens bytes) = .ok rest ∧ expectEnd rest = .ok () := by
  constructor
  · rintro ⟨t, ts, rest, htokens, hts, hend⟩
    exact ⟨rest, skip_eq_ok_iff.mpr ⟨t, ts, htokens, hts⟩, hend⟩
  · rintro ⟨rest, hskip, hend⟩
    obtain ⟨t, ts, htokens, hts⟩ := skip_eq_ok_iff.mp hskip
    exact ⟨t, ts, rest, htokens, hts, hend⟩

end IndexFs.Json

import IndexFs.Proofs.Json.Numeral
import IndexFs.Proofs.Json.Value

/-!
# The members of a printed object

Not every value is read back from its text: a number may come back as another one, a value may be nested
too deep, an object may have two members with one key. But if its text is read at all, then an object comes
back as an object, made of members with the same keys and with the same strings (`members_of_parse`).
-/

namespace IndexFs.Json

/-! ## Keys -/

/-- A value has no key that is not among the given ones. -/
def KeysAmong (w : Json) (keys : List String) : Prop :=
  ∀ key v, w.get? key = some v → key ∈ keys

theorem mem_insert {key : String} {v : Json} {m : String × Json} {members : List (String × Json)}
    (h : m ∈ insert key v members) : m = (key, v) ∨ m ∈ members := by
  induction members with
  | nil => exact .inl (List.mem_singleton.mp h)
  | cons first members ih =>
    obtain ⟨k, w⟩ := first
    rw [insert] at h
    split_ifs at h
    · exact List.mem_cons.mp h
    · exact (List.mem_cons.mp h).imp_right (List.mem_cons_of_mem _)
    · rcases List.mem_cons.mp h with rfl | h
      · exact .inr List.mem_cons_self
      · exact (ih h).imp_right (List.mem_cons_of_mem _)

theorem mem_sortMembers {m : String × Json} {members : List (String × Json)}
    (h : m ∈ sortMembers members) : m ∈ members := by
  have hfold : ∀ (acc : List (String × Json)),
      m ∈ members.foldl (fun acc m => insert m.1 m.2 acc) acc → m ∈ acc ∨ m ∈ members := by
    clear h
    induction members with
    | nil => exact fun acc h => .inl h
    | cons first members ih =>
      intro acc h
      rcases ih _ h with h | h
      · rcases mem_insert h with rfl | h
        · exact .inr List.mem_cons_self
        · exact .inl h
      · exact .inr (List.mem_cons_of_mem _ h)
  exact (hfold [] h).resolve_left List.not_mem_nil

/-- An object has only keys of members that it was made of. -/
theorem keysAmong_ofMembers {members : List (String × Json)} {keys : List String}
    (h : ∀ m ∈ members, m.1 ∈ keys) : (ofMembers members).KeysAmong keys := by
  intro key v hget
  obtain ⟨before, after, heq, -⟩ := List.lookup_eq_some_iff.mp hget
  have hmem : (key, v) ∈ sortMembers members := by
    rw [heq]
    exact List.mem_append_right _ List.mem_cons_self
  exact h _ (mem_sortMembers hmem)

/-! ## Members -/

/-- A member that was read, and the one that was printed: with the same key, and a string is the same. -/
structure MemberRead (m m' : String × Json) : Prop where
  key : m.1 = m'.1
  text : ∀ s, m.2 = .string s → m'.2 = .string s

/-- A value as it may be read from the text of another one. -/
def ReadAs : Json → Json → Prop
  | .string s, w => w = .string s
  | .object members, w => ∃ members', w = ofMembers members' ∧ List.Forall₂ MemberRead members members'
  | _, _ => True

theorem memberRead_of_readAs {k : String} {v w : Json} (h : ReadAs v w) : MemberRead (k, v) (k, w) := by
  refine ⟨rfl, fun s hs => ?_⟩
  cases hs
  exact h

theorem exists_of_membersRead_cons {k : String} {v : Json} {members members' : List (String × Json)}
    (h : List.Forall₂ MemberRead ((k, v) :: members) members') :
    ∃ w rest, members' = (k, w) :: rest ∧ (∀ s, v = .string s → w = .string s) ∧
      List.Forall₂ MemberRead members rest := by
  cases h with
  | @cons _ m _ rest hm hrest =>
    obtain ⟨k', w⟩ := m
    cases hm.key
    exact ⟨w, rest, rfl, hm.text, hrest⟩

theorem keys_of_membersRead {members members' : List (String × Json)}
    (h : List.Forall₂ MemberRead members members') : members.map (·.1) = members'.map (·.1) := by
  induction h with
  | nil => rfl
  | cons hm _ ih => rw [List.map_cons, List.map_cons, hm.key, ih]

/-! ## Numbers -/

/-- Reading fails, or goes on after a value with the given property. -/
def Reads (P : Json → Prop) (stack : List Open) (result : Except Fault (Json × List Token))
    (ts : List Token) : Prop :=
  (∃ e, result = .error e) ∨ ∃ w, P w ∧ result = readAfter w stack ts

theorem isSpace_part {b : UInt8} (h : Numeral.isPart b = true) : isSpace b = false := by
  by_contra hspace
  simp only [Bool.not_eq_false, isSpace, Bool.or_eq_true, decide_eq_true_eq] at hspace
  rcases hspace with ((rfl | rfl) | rfl) | rfl <;> revert h <;> decide

/-- A byte of a numeral starts a number, or no token at all. -/
theorem lexeme_part {b : UInt8} (hb : Numeral.isPart b = true) (bs : List UInt8) :
    (∃ t, Numeral.scan (b :: bs) = .ok t ∧ lexeme b bs = .number t.value t.length) ∨
      ∃ wanted skipped isString, lexeme b bs = .broken wanted skipped isString := by
  by_cases hfirst : (b = 0x2D || Numeral.isDigit b) = true
  · have hquote : b ≠ 0x22 := by
      rintro rfl
      revert hb
      decide
    rw [lexeme, if_neg hquote, if_pos hfirst, numberLexeme]
    cases hscan : Numeral.scan (b :: bs) with
    | ok t => exact .inl ⟨t, rfl, rfl⟩
    | error f =>
      obtain ⟨flaw, k⟩ := f
      cases flaw <;> exact .inr ⟨_, _, _, rfl⟩
  · -- a plus sign, a point or the letter of an exponent
    rw [Bool.not_eq_true, Bool.or_eq_false_iff, decide_eq_false_iff_not] at hfirst
    simp only [Numeral.isPart, hfirst.2, hfirst.1, decide_false, Bool.or_false, Bool.false_or,
      Bool.or_eq_true, decide_eq_true_eq] at hb
    refine .inr ⟨(.valueExpected, 1), (.valueExpected, 1), false, ?_⟩
    rcases hb with ((rfl | rfl) | rfl) | rfl <;> rfl

/-- The first token of bytes that go on with a byte of a numeral. -/
theorem tokensFrom_part {b : UInt8} (hb : Numeral.isPart b = true) (bs : List UInt8) (p : Pos) :
    (∃ used rest value start stop, b :: bs = used ++ rest ∧ used ≠ [] ∧
      (∀ b ∈ used, Numeral.isPart b = true) ∧
      tokensFrom p 0 (b :: bs) =
        ⟨.number value, start, stop⟩ :: tokensFrom (p.across used) 0 rest) ∨
    ∃ wanted skipped isString start stop,
      tokensFrom p 0 (b :: bs) = [⟨.broken wanted skipped isString, start, stop⟩] := by
  rcases lexeme_part hb bs with ⟨t, hscan, hlexeme⟩ | ⟨wanted, skipped, isString, hlexeme⟩
  · obtain ⟨⟨rest, used, hused, hlength, hpart⟩, hpos⟩ := Numeral.scan_taken hscan
    rw [Nat.zero_add] at hlength
    -- the numeral takes at least the byte that it starts with
    cases used with
    | nil =>
      rw [hlength] at hpos
      exact absurd hpos (Nat.lt_irrefl 0)
    | cons b' used =>
      rw [List.cons_append, List.cons.injEq] at hused
      obtain ⟨rfl, rfl⟩ := hused
      have htokens : ∃ value start stop, tokensFrom p 0 (b :: (used ++ rest)) =
          ⟨.number value, start, stop⟩ :: tokensFrom (p.across (b :: used)) 0 rest := by
        simp only [tokensFrom, isSpace_part hb, Bool.false_eq_true, if_false, hlexeme, hlength,
          List.length_cons, Nat.add_sub_cancel, tokensFrom_skip]
        exact ⟨_, _, _, rfl⟩
      obtain ⟨value, start, stop, htokens⟩ := htokens
      exact .inl ⟨b :: used, rest, value, start, stop, rfl, List.cons_ne_nil _ _, hpart, htokens⟩
  · -- what starts like a numeral and is none breaks the text off
    right
    simp only [tokensFrom, isSpace_part hb, Bool.false_eq_true, if_false, hlexeme]
    exact ⟨_, _, _, _, _, rfl⟩

/-- After a value in a container no further one may follow at once. -/
theorem readAfter_part {stack : List Open} (hstack : stack ≠ []) (w : Json) {b : UInt8}
    (hb : Numeral.isPart b = true) (bs : List UInt8) (p : Pos) :
    ∃ e, readAfter w stack (tokensFrom p 0 (b :: bs)) = .error e := by
  obtain ⟨stack', hmove⟩ : ∃ stack', Move.ofValue w stack = .more .separator stack' := by
    cases stack with
    | nil => exact absurd rfl hstack
    | cons top stack => cases top <;> exact ⟨_, rfl⟩
  rw [readAfter, hmove]
  rcases tokensFrom_part hb bs p with ⟨used, rest, value, start, stop, -, -, -, heq⟩ |
    ⟨wanted, skipped, isString, start, stop, heq⟩
  all_goals
    rw [heq]
    -- after a value stands a comma or an end, and this is neither
    rcases stack' with _ | ⟨_ | _ | _, stack'⟩ <;> exact ⟨_, rfl⟩

/-- What was taken of bytes of numerals ends where these end, or before. -/
theorem prefix_of_part {used left text rest : List UInt8} {b : UInt8}
    (hused : ∀ b ∈ used, Numeral.isPart b = true) (hb : Numeral.isPart b = false)
    (h : text ++ b :: rest = used ++ left) :
    ∃ more, text = used ++ more ∧ left = more ++ b :: rest := by
  rcases List.append_eq_append_iff.mp h with ⟨more, hmore, hleft⟩ | ⟨more, hmore, hleft⟩
  · cases more with
    | nil => exact ⟨[], by rw [hmore, List.append_nil, List.append_nil], hleft.symm⟩
    | cons b' more =>
      rw [List.cons_append, List.cons.injEq] at hleft
      have hmem : b ∈ used := by
        rw [hmore, hleft.1]
        exact List.mem_append_right _ List.mem_cons_self
      rw [hused b hmem] at hb
      cases hb
  · exact ⟨more, hmore, hleft⟩

/-- Bytes of numerals are read as one number, unless reading fails. -/
theorem reads_number {text : List UInt8} (htext : ∀ b ∈ text, Numeral.isPart b = true)
    (hne : text ≠ []) {b : UInt8} (hb : Numeral.isPart b = false) (rest : List UInt8) {slot : Slot}
    (hslot : slot.TakesValue) {stack : List Open} (hstack : stack ≠ []) (p : Pos) :
    Reads (fun _ => True) stack (readFrom .wanted slot stack (tokensFrom p 0 (text ++ b :: rest)))
      (tokensFrom (p.across text) 0 (b :: rest)) := by
  obtain ⟨first, text', rfl⟩ := List.exists_cons_of_ne_nil hne
  have hfirst := htext first List.mem_cons_self
  rcases tokensFrom_part hfirst (text' ++ b :: rest) p with
    ⟨used, left, value, start, stop, heq, -, hused, htokens⟩ |
    ⟨wanted, skipped, isString, start, stop, htokens⟩
  · rw [List.cons_append, htokens]
    rcases value with e | n
    · refine .inl ⟨e, ?_⟩
      rcases hslot with rfl | rfl | rfl <;> rfl
    · rw [readFrom_value _ _ (move_number hslot stack start stop n)]
      rw [← List.cons_append] at heq
      -- the number is the whole text, or something follows it that no comma announces
      obtain ⟨more, hmore, rfl⟩ := prefix_of_part hused hb heq
      rw [hmore]
      cases more with
      | nil =>
        rw [List.append_nil]
        exact .inr ⟨.number n, trivial, rfl⟩
      | cons b' more =>
        have hb' : Numeral.isPart b' = true := by
          refine htext b' ?_
          rw [hmore]
          exact List.mem_append_right _ List.mem_cons_self
        exact .inl (readAfter_part hstack _ hb' _ _)
  · refine .inl ⟨wanted, ?_⟩
    rw [List.cons_append, htokens]
    rcases hslot with rfl | rfl | rfl <;> rfl

/-! ## Values -/

/-- Where the text of the value ends is seen by what comes next, if it can not be seen by the text. -/
def Delimited (v : Json) (stack : List Open) (rest : List UInt8) : Prop :=
  (∀ n, v ≠ .number n) ∨
    stack ≠ [] ∧ ∃ b bs, rest = b :: bs ∧ Numeral.isPart b = false

theorem delimited_moreItems (v : Json) (top : Open) (stack : List Open) (vs : List Json)
    (rest : List UInt8) :
    Delimited v (top :: stack) (Utf8.encode (moreItems vs) ++ rest) := by
  refine .inr ⟨List.cons_ne_nil _ _, ?_⟩
  cases vs with
  | nil =>
    rw [moreItems, encode_closeBracket, List.cons_append]
    exact ⟨0x5D, _, rfl, by decide⟩
  | cons v vs =>
    rw [encode_moreItems, List.cons_append]
    exact ⟨0x2C, _, rfl, by decide⟩

theorem delimited_moreMembers (v : Json) (top : Open) (stack : List Open)
    (ms : List (String × Json)) (rest : List UInt8) :
    Delimited v (top :: stack) (Utf8.encode (moreMembers ms) ++ rest) := by
  refine .inr ⟨List.cons_ne_nil _ _, ?_⟩
  cases ms with
  | nil =>
    rw [moreMembers, encode_closeBrace, List.cons_append]
    exact ⟨0x7D, _, rfl, by decide⟩
  | cons m ms =>
    obtain ⟨k, v⟩ := m
    rw [encode_moreMembers, List.cons_append]
    exact ⟨0x2C, _, rfl, by decide⟩

/-- A container is opened, or there are too many around it. -/
theorem reads_open {slot : Slot} (hslot : slot.TakesValue) {stack : List Open} {t : Token}
    (ht : t.kind = .openBrace ∨ t.kind = .openBracket) {P : Json → Prop} {ts ts' : List Token}
    (h : stack.length < maxDepth → Reads P stack (readFrom .wanted slot stack (t :: ts)) ts') :
    Reads P stack (readFrom .wanted slot stack (t :: ts)) ts' := by
  by_cases hdepth : stack.length < maxDepth
  · exact h hdepth
  · have hfull : maxDepth ≤ stack.length := Nat.le_of_not_lt hdepth
    refine .inl ⟨⟨.nestedTooDeep, t.peek⟩, ?_⟩
    obtain ⟨kind, start, stop⟩ := t
    have hmove : move .wanted slot stack ⟨kind, start, stop⟩ =
        .error ⟨.nestedTooDeep, Token.peek ⟨kind, start, stop⟩⟩ := by
      rcases ht with rfl | rfl <;>
        rcases hslot with rfl | rfl | rfl <;> simp [move, startValue, openContainer, hfull]
    rw [readFrom, hmove]

mutual

/-- The text of a value is read as some value that is like it, unless reading fails. -/
theorem reads_chars : ∀ (v : Json) (slot : Slot), slot.TakesValue → ∀ (stack : List Open)
    (rest : List UInt8), Delimited v stack rest → ∀ p : Pos,
    Reads v.ReadAs stack (readFrom .wanted slot stack (tokensFrom p 0 (Utf8.encode v.chars ++ rest)))
      (tokensFrom (p.across (Utf8.encode v.chars)) 0 rest)
  | .null, _, hslot, stack, rest, _, p => by
    rw [tokensFrom_null, readFrom_value _ _ (move_null hslot stack _ _)]
    exact .inr ⟨.null, trivial, rfl⟩
  | .bool b, _, hslot, stack, rest, _, p => by
    rw [tokensFrom_bool, readFrom_value _ _ (move_bool hslot stack _ _ b)]
    exact .inr ⟨.bool b, trivial, rfl⟩
  | .number n, _, hslot, stack, rest, hrest, p => by
    obtain ⟨htext, hne⟩ := Numeral.isPart_chars n
    obtain ⟨hstack, b, bs, rfl, hb⟩ := hrest.resolve_left fun h => h n rfl
    rw [chars]
    exact reads_number htext hne hb bs hslot hstack p
  | .string s, _, hslot, stack, rest, _, p => by
    rw [chars, tokensFrom_stringChars, readFrom_value _ _ (move_string hslot stack _ _ s)]
    exact .inr ⟨.string s, rfl, rfl⟩
  | .array [], _, hslot, stack, rest, _, p => by
    have hbytes : Utf8.encode (chars (.array [])) ++ rest = 0x5B :: 0x5D :: rest := by
      rw [chars]
      rfl
    rw [hbytes, tokensFrom_mark (by decide) _ rfl]
    refine reads_open hslot (.inr rfl) fun hdepth => ?_
    rw [readFrom_more _ _ (move_openBracket hslot stack _ _ hdepth),
      tokensFrom_mark (by decide) _ rfl, readFrom_value (.array []) stack rfl, chars]
    exact .inr ⟨.array [], trivial, rfl⟩
  | .array (v :: vs), _, hslot, stack, rest, _, p => by
    -- the first item, with the others and the bracket behind it
    have hfirst := reads_chars v .firstItem (.inr (.inl rfl)) (.array [] :: stack) _
      (delimited_moreItems v _ stack vs rest)
    rw [encode_array, List.cons_append, tokensFrom_mark (by decide) _ rfl]
    refine reads_open hslot (.inr rfl) fun hdepth => ?_
    rw [readFrom_more _ _ (move_openBracket hslot stack _ _ hdepth), List.append_assoc,
      across_cons_append]
    rcases hfirst (p.across [0x5B]) with ⟨e, he⟩ | ⟨w, -, hw⟩
    · exact .inl ⟨e, he⟩
    · rw [hw]
      exact reads_moreItems vs [w] stack rest _
  | .object [], _, hslot, stack, rest, _, p => by
    have hbytes : Utf8.encode (chars (.object [])) ++ rest = 0x7B :: 0x7D :: rest := by
      rw [chars]
      rfl
    rw [hbytes, tokensFrom_mark (by decide) _ rfl]
    refine reads_open hslot (.inl rfl) fun hdepth => ?_
    rw [readFrom_more _ _ (move_openBrace hslot stack _ _ hdepth),
      tokensFrom_mark (by decide) _ rfl, readFrom_value (.object []) stack rfl, chars]
    exact .inr ⟨.object [], ⟨[], rfl, .nil⟩, rfl⟩
  | .object ((k, v) :: ms), _, hslot, stack, rest, _, p => by
    -- the first value, with the other members and the brace behind it
    have hfirst := reads_chars v .value (.inl rfl) (.member [] k :: stack) _
      (delimited_moreMembers v _ stack ms rest)
    rw [encode_object, List.cons_append, tokensFrom_mark (by decide) _ rfl]
    refine reads_open hslot (.inl rfl) fun hdepth => ?_
    rw [readFrom_more _ _ (move_openBrace hslot stack _ _ hdepth), List.append_assoc,
      tokensFrom_stringChars, readFrom_more .colon (.member [] k :: stack) rfl,
      List.cons_append, tokensFrom_mark (by decide) _ rfl,
      readFrom_more .value (.member [] k :: stack) rfl, List.append_assoc,
      across_cons_append, across_cons_append]
    rcases hfirst _ with ⟨e, he⟩ | ⟨w, hlike, hw⟩
    · exact .inl ⟨e, he⟩
    · rw [hw]
      rcases reads_moreMembers ms [(k, w)] stack rest _ with ⟨e, he⟩ | ⟨o, ⟨members, ho, hmembers⟩, hread⟩
      · exact .inl ⟨e, he⟩
      · exact .inr ⟨o, ⟨(k, w) :: members, ho, .cons (memberRead_of_readAs hlike) hmembers⟩, hread⟩

/-- The items after some that were read already. -/
theorem reads_moreItems : ∀ (vs acc : List Json) (stack : List Open) (rest : List UInt8) (p : Pos),
    Reads (fun _ => True) stack (readFrom .wanted .separator (.array acc :: stack)
      (tokensFrom p 0 (Utf8.encode (moreItems vs) ++ rest)))
      (tokensFrom (p.across (Utf8.encode (moreItems vs))) 0 rest)
  | [], acc, stack, rest, p => by
    have hbytes : Utf8.encode (moreItems []) = [0x5D] := by
      rw [moreItems]
      rfl
    rw [hbytes, List.singleton_append, tokensFrom_mark (by decide) _ rfl,
      readFrom_value (.array acc.reverse) stack rfl]
    exact .inr ⟨.array acc.reverse, trivial, rfl⟩
  | v :: vs, acc, stack, rest, p => by
    have hfirst := reads_chars v .nextItem (.inr (.inr rfl)) (.array acc :: stack) _
      (delimited_moreItems v _ stack vs rest)
    rw [encode_moreItems, List.cons_append, tokensFrom_mark (by decide) _ rfl,
      readFrom_more .nextItem (.array acc :: stack) rfl, List.append_assoc, across_cons_append]
    rcases hfirst _ with ⟨e, he⟩ | ⟨w, -, hw⟩
    · exact .inl ⟨e, he⟩
    · rw [hw]
      exact reads_moreItems vs (w :: acc) stack rest _

/-- The members after some that were read already. -/
theorem reads_moreMembers : ∀ (ms acc : List (String × Json)) (stack : List Open)
    (rest : List UInt8) (p : Pos),
    Reads (fun w => ∃ ms', w = ofMembers (acc.reverse ++ ms') ∧ List.Forall₂ MemberRead ms ms') stack
      (readFrom .wanted .separator (.object acc :: stack)
        (tokensFrom p 0 (Utf8.encode (moreMembers ms) ++ rest)))
      (tokensFrom (p.across (Utf8.encode (moreMembers ms))) 0 rest)
  | [], acc, stack, rest, p => by
    have hbytes : Utf8.encode (moreMembers []) = [0x7D] := by
      rw [moreMembers]
      rfl
    rw [hbytes, List.singleton_append, tokensFrom_mark (by decide) _ rfl,
      readFrom_value (ofMembers acc.reverse) stack rfl]
    exact .inr ⟨ofMembers acc.reverse, ⟨[], by rw [List.append_nil], .nil⟩, rfl⟩
  | (k, v) :: ms, acc, stack, rest, p => by
    have hfirst := reads_chars v .value (.inl rfl) (.member acc k :: stack) _
      (delimited_moreMembers v _ stack ms rest)
    rw [encode_moreMembers, List.cons_append, tokensFrom_mark (by decide) _ rfl,
      readFrom_more .nextKey (.object acc :: stack) rfl, List.append_assoc,
      tokensFrom_stringChars, readFrom_more .colon (.member acc k :: stack) rfl,
      List.cons_append, tokensFrom_mark (by decide) _ rfl,
      readFrom_more .value (.member acc k :: stack) rfl, List.append_assoc,
      across_cons_append, across_cons_append]
    rcases hfirst _ with ⟨e, he⟩ | ⟨w, hlike, hw⟩
    · exact .inl ⟨e, he⟩
    · rw [hw]
      rcases reads_moreMembers ms ((k, w) :: acc) stack rest _ with
        ⟨e, he⟩ | ⟨o, ⟨members, ho, hmembers⟩, hread⟩
      · exact .inl ⟨e, he⟩
      · -- members are gathered in the order opposite to theirs
        rw [List.reverse_cons, List.append_assoc] at ho
        exact .inr ⟨o, ⟨(k, w) :: members, ho, .cons (memberRead_of_readAs hlike) hmembers⟩, hread⟩

end

/-- An object whose text is read is made of the same members, but for their numbers and what is inside of
them. -/
theorem members_of_parse {members : List (String × Json)} {w : Json}
    (h : parse (Json.object members).bytes = .ok w) :
    ∃ members', w = ofMembers members' ∧ List.Forall₂ MemberRead members members' := by
  have hread := reads_chars (.object members) .value (.inl rfl) [] [] (.inl fun _ h => nomatch h) .start
  rw [List.append_nil] at hread
  rw [parse, tokens, read, bytes] at h
  rcases hread with ⟨e, he⟩ | ⟨w', hw', hread⟩
  · rw [he] at h
    cases h
  · rw [hread] at h
    have hw : w' = w := by
      simpa [readAfter, Move.ofValue, place, tokensFrom, bind, Except.bind, expectEnd, pure,
        Except.pure] using h
    exact hw ▸ hw'

/-- An object whose text is read has no further keys. -/
theorem keys_of_parse {members : List (String × Json)} {w : Json}
    (h : parse (Json.object members).bytes = .ok w) : w.KeysAmong (members.map (·.1)) := by
  obtain ⟨members', rfl, hread⟩ := members_of_parse h
  rw [keys_of_membersRead hread]
  exact keysAmong_ofMembers fun m hm => List.mem_map_of_mem hm

end IndexFs.Json

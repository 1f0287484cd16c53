import IndexFs.Proofs.Url.Host

/-!
# Authorities in their normal form

An authority that was read is in its normal form (`isNormal_of_parseAuthority`), and the text of an authority in
its normal form is read as the same authority (`parseAuthority_text`).
-/

namespace IndexFs.Url

theorem ok_of_bind {ε α β : Type} {x : Except ε α} {f : α → Except ε β} {b : β} (h : x.bind f = .ok b) :
    ∃ a, x = .ok a ∧ f a = .ok b := by
  cases x with
  | error e => cases h
  | ok a => exact ⟨a, rfl, h⟩

/-! ## The steps of reading -/

/-- Refuses a text in some case. -/
def refuse (c : Bool) (e : ParseError) : Except ParseError Unit :=
  if c then .error e else .ok ()

theorem refuse_eq_ok {c : Bool} {e : ParseError} {u : Unit} (h : refuse c e = .ok u) : c = false := by
  cases c with
  | true => cases h
  | false => rfl

/-- The host, by the rules of the scheme. -/
def readHost (special : Bool) (cs : List Char) : Except ParseError (List Char) :=
  if special then specialHost cs else plainHost cs

/-- The port, if there is one, and what follows it. -/
def readPort (cs : List Char) : Except ParseError (Option Nat × List Char) :=
  match cs with
  | ':' :: digits => parsePort digits
  | _ => .ok (none, [])

theorem readPort_of_ne {cs : List Char} (h : ∀ digits, cs = ':' :: digits → False) :
    readPort cs = .ok (none, []) := by
  unfold readPort
  split
  · next digits => exact absurd rfl (h digits)
  · rfl

/-- Host and port are read step by step, and each step may refuse the text. -/
theorem parseHostAndPort_eq (scheme : String) (cs : List Char) :
    parseHostAndPort scheme cs =
      (refuse ((SchemeKind.of scheme).isSpecial && (splitHost false cs).1.isEmpty) .emptyHost).bind fun _ =>
      (readHost (SchemeKind.of scheme).isSpecial (splitHost false cs).1).bind fun host =>
      (refuse (host.isEmpty && !(splitHost false cs).2.isEmpty) .emptyHost).bind fun _ =>
      (readPort (splitHost false cs).2).bind fun p =>
      .ok ⟨host, if p.1 = defaultPort? scheme then none else p.1, p.2⟩ := by
  unfold parseHostAndPort
  generalize splitHost false cs = parts
  obtain ⟨host, rest⟩ := parts
  dsimp only
  cases ((SchemeKind.of scheme).isSpecial && host.isEmpty) with
  | true => rfl
  | false =>
    rw [if_neg Bool.false_ne_true]
    cases (SchemeKind.of scheme).isSpecial
    -- the two kinds of schemes differ in how the host is read, and in nothing after that
    all_goals
      refine congrArg (Except.bind _) (funext fun h => ?_)
      cases h.isEmpty && !rest.isEmpty with
      | true => rfl
      | false =>
        rw [if_neg Bool.false_ne_true]
        show _ = (readPort rest).bind _
        split
        · rfl
        · next hnone =>
          rw [readPort_of_ne hnone]
          rfl

/-- User name, password, host and port are read step by step. -/
theorem parseAuthority_eq (scheme : String) (cs : List Char) (atEnd : Bool) :
    parseAuthority scheme cs atEnd =
      (refuse (((splitLastAt cs).getD ([], cs)).1.isEmpty && ((splitLastAt cs).getD ([], cs)).2.isEmpty &&
        !atEnd && cs.contains '@') .emptyHost).bind fun _ =>
      (parseHostAndPort scheme ((splitLastAt cs).getD ([], cs)).2).bind fun r =>
      (refuse (r.host.isEmpty && ((splitUserinfo ((splitLastAt cs).getD ([], cs)).1).1 ≠ "" ||
        (splitUserinfo ((splitLastAt cs).getD ([], cs)).1).2 ≠ "")) .emptyHost).bind fun _ =>
      .ok (⟨(splitUserinfo ((splitLastAt cs).getD ([], cs)).1).1,
        (splitUserinfo ((splitLastAt cs).getD ([], cs)).1).2, String.ofList r.host, r.port⟩, r.rest) := by
  unfold parseAuthority
  generalize (splitLastAt cs).getD ([], cs) = parts
  obtain ⟨userinfo, rest⟩ := parts
  dsimp only
  generalize splitUserinfo userinfo = names
  obtain ⟨username, password⟩ := names
  dsimp only
  -- the two checks are the only places where it can fail by itself
  cases userinfo.isEmpty && rest.isEmpty && !atEnd && cs.contains '@' with
  | true => rfl
  | false =>
    simp only [Bool.false_eq_true, if_false]
    show (parseHostAndPort scheme rest).bind _ = (parseHostAndPort scheme rest).bind _
    refine congrArg _ (funext fun r => ?_)
    cases r.host.isEmpty && (decide (username ≠ "") || decide (password ≠ "")) <;> rfl

/-! ## Normal forms -/

/-- A text that is kept as a user name or a password. -/
def IsUserinfo (text : String) : Prop :=
  ∀ c ∈ text.toList, c.toNat < 0x80 ∧ userinfoSet c = false

/-- An authority in its normal form, by the rules of its scheme. -/
structure Authority.IsNormal (scheme : String) (a : Authority) : Prop where
  username : IsUserinfo a.username
  password : IsUserinfo a.password
  host : IsHost (SchemeKind.of scheme).isSpecial a.host.toList
  filled : (SchemeKind.of scheme).isSpecial = true → a.host ≠ ""
  named : a.host = "" → a.username = "" ∧ a.password = ""
  unreached : a.host = "" → a.port = none
  small : ∀ n, a.port = some n → n < UInt16.size
  written : a.port ≠ none → a.port ≠ defaultPort? scheme

theorem isUserinfo_encode (cs : List Char) : IsUserinfo (String.ofList (encode userinfoSet cs)) := by
  intro c hc
  rw [String.toList_ofList] at hc
  exact stands_of_mem_encode sparesEscapes_userinfoSet hc

theorem lt_of_parsePort {cs rest : List Char} {port : Option Nat} (h : parsePort cs = .ok (port, rest)) :
    ∀ n, port = some n → n < UInt16.size := by
  unfold parsePort at h
  dsimp only at h
  split at h
  · cases h
  · split at h
    · cases h
      exact nofun
    · split at h
      · cases h
        rintro n ⟨⟩
        assumption
      · cases h

theorem lt_of_readPort {cs rest : List Char} {port : Option Nat} (h : readPort cs = .ok (port, rest)) :
    (∀ n, port = some n → n < UInt16.size) ∧ (cs = [] → port = none) := by
  unfold readPort at h
  split at h
  · exact ⟨lt_of_parsePort h, nofun⟩
  · cases h
    exact ⟨nofun, fun _ => rfl⟩

theorem isHost_of_readHost {special : Bool} {cs host : List Char} (h : readHost special cs = .ok host) :
    IsHost special host ∧ (special = true → host ≠ []) := by
  cases special with
  | true =>
    obtain ⟨hhost, hne⟩ := isHost_of_specialHost h
    exact ⟨hhost, fun _ => hne⟩
  | false => exact ⟨isHost_of_plainHost h, nofun⟩

/-- An authority that was read is in its normal form. -/
theorem isNormal_of_parseAuthority {scheme : String} {cs rest : List Char} {atEnd : Bool} {a : Authority}
    (h : parseAuthority scheme cs atEnd = .ok (a, rest)) : a.IsNormal scheme := by
  -- every step has succeeded, and each of them says something about the parts
  rw [parseAuthority_eq] at h
  obtain ⟨_, -, h⟩ := ok_of_bind h
  obtain ⟨r, hr, h⟩ := ok_of_bind h
  obtain ⟨_, hnamed, h⟩ := ok_of_bind h
  cases h
  rw [parseHostAndPort_eq] at hr
  obtain ⟨_, -, hr⟩ := ok_of_bind hr
  obtain ⟨host, hhost, hr⟩ := ok_of_bind hr
  obtain ⟨_, hempty, hr⟩ := ok_of_bind hr
  obtain ⟨⟨port, rest⟩, hport, hr⟩ := ok_of_bind hr
  cases hr
  obtain ⟨hnormal, hfilled⟩ := isHost_of_readHost hhost
  obtain ⟨hsmall, hnone⟩ := lt_of_readPort hport
  -- the host is empty as a text only if it is so as characters
  have hnil : String.ofList host = "" → host = [] := fun hhost => by
    rw [← String.toList_ofList (l := host), hhost]
    rfl
  have hnamed' := refuse_eq_ok hnamed
  have hempty' := refuse_eq_ok hempty
  exact {
    username := isUserinfo_encode _
    password := isUserinfo_encode _
    host := by rwa [String.toList_ofList]
    filled := fun hspecial hhost => hfilled hspecial (hnil hhost)
    named := fun hhost => by
      rw [hnil hhost] at hnamed'
      simpa using hnamed'
    unreached := fun hhost => by
      rw [hnil hhost, List.isEmpty_nil, Bool.true_and, Bool.not_eq_false', List.isEmpty_iff] at hempty'
      rw [hnone hempty']
      dsimp only
      split <;> rfl
    small := fun n hn => by
      split at hn
      · cases hn
      · exact hsmall n hn
    written := fun hsome => by
      split at hsome
      · exact absurd rfl hsome
      · next hother => rwa [if_neg hother] }

/-! ## The text of an authority -/

namespace Authority

variable {scheme : String} {a : Authority}

theorem portText_some {n : Nat} (h : a.port = some n) : a.portText.toList = ':' :: Nat.toDigits 10 n := by
  unfold portText
  rw [h]
  show (":" ++ Nat.repr n).toList = _
  rw [String.toList_append, Nat.toList_repr]
  rfl

theorem portText_none (h : a.port = none) : a.portText.toList = [] := by
  unfold portText
  rw [h]
  rfl

theorem mem_portText {c : Char} (h : c ∈ a.portText.toList) : c = ':' ∨ 0x30 ≤ c.toNat ∧ c.toNat ≤ 0x39 := by
  cases hport : a.port with
  | none =>
    rw [portText_none hport] at h
    cases h
  | some n =>
    rw [portText_some hport] at h
    rcases List.mem_cons.mp h with rfl | h
    · exact .inl rfl
    · exact .inr (Decimal.toNat_digit_of_mem h)

theorem head_portText : ∀ c ∈ a.portText.toList.head?, c = ':' := by
  cases hport : a.port with
  | none =>
    rw [portText_none hport]
    exact fun _ hc => nomatch hc
  | some n =>
    rw [portText_some hport]
    intro c hc
    exact (Option.some.inj hc).symm

/-- A port is read as it was written. -/
theorem readPort_portText (hsmall : ∀ n, a.port = some n → n < UInt16.size) :
    readPort a.portText.toList = .ok (a.port, []) := by
  cases hport : a.port with
  | none =>
    rw [portText_none hport]
    rfl
  | some n =>
    have hdigits : ∀ c ∈ Nat.toDigits 10 n, (decide (c ≠ '\\')) = true := fun c hc => by
      have hdigit := Decimal.toNat_digit_of_mem hc
      refine decide_eq_true ?_
      rintro rfl
      exact absurd hdigit.2 (by decide)
    have hfilled : (Nat.toDigits 10 n).isEmpty = false := List.isEmpty_eq_false_iff.mpr Nat.toDigits_ne_nil
    rw [portText_some hport]
    show parsePort (Nat.toDigits 10 n) = _
    unfold parsePort
    rw [takeWhile_eq_self hdigits, dropWhile_eq_nil hdigits]
    dsimp only
    rw [digitsValue?_toDigits (by decide) (by decide) n]
    dsimp only
    rw [hfilled, if_neg Bool.false_ne_true, if_pos (hsmall n hport)]

/-- Host and port are read as they were written. -/
theorem parseHostAndPort_text (h : a.IsNormal scheme) :
    parseHostAndPort scheme (a.host.toList ++ a.portText.toList) = .ok ⟨a.host.toList, a.port, []⟩ := by
  have hnil : a.host.toList = [] → a.host = "" := fun hhost => String.toList_inj.mp hhost
  -- the two checks pass: the host is filled where it must be, and a port has a host
  have hfirst : ((SchemeKind.of scheme).isSpecial && a.host.toList.isEmpty) = false := by
    cases hspecial : (SchemeKind.of scheme).isSpecial with
    | false => rfl
    | true =>
      rw [Bool.true_and, List.isEmpty_eq_false_iff]
      exact fun hhost => h.filled hspecial (hnil hhost)
  have hsecond : (a.host.toList.isEmpty && !a.portText.toList.isEmpty) = false := by
    cases hempty : a.host.toList.isEmpty with
    | false => rfl
    | true =>
      rw [portText_none (h.unreached (hnil (List.isEmpty_iff.mp hempty)))]
      rfl
  have hport : (if a.port = defaultPort? scheme then none else a.port) = a.port := by
    split
    · next hdefault =>
      by_contra hsome
      exact h.written (fun hnone => hsome hnone.symm) hdefault
    · rfl
  rw [parseHostAndPort_eq, h.host.split _ head_portText]
  dsimp only
  rw [hfirst]
  show (readHost (SchemeKind.of scheme).isSpecial a.host.toList).bind _ = _
  rw [show readHost (SchemeKind.of scheme).isSpecial a.host.toList = .ok a.host.toList from h.host.parsed]
  show (refuse (a.host.toList.isEmpty && !a.portText.toList.isEmpty) .emptyHost).bind _ = _
  rw [hsecond]
  show (readPort a.portText.toList).bind _ = _
  rw [readPort_portText h.small]
  show Except.ok (HostAndPort.mk _ (if a.port = defaultPort? scheme then none else a.port) []) = _
  rw [hport]

/-! ## User names -/

/-- The user name and the password, without the mark that ends them. -/
def names (a : Authority) : List Char :=
  a.username.toList ++ (if a.password = "" then [] else ':' :: a.password.toList)

theorem text_of_unnamed (husername : a.username = "") (hpassword : a.password = "") :
    a.text.toList = a.host.toList ++ a.portText.toList := by
  unfold text userinfo
  rw [husername, hpassword, String.toList_append, String.toList_append]
  rfl

theorem text_of_named (hnamed : ¬(a.username = "" ∧ a.password = "")) :
    a.text.toList = a.names ++ '@' :: (a.host.toList ++ a.portText.toList) := by
  unfold text userinfo names
  rw [if_neg (by simpa using hnamed)]
  simp only [String.toList_append]
  split <;> simp

theorem splitUserinfo_names (husername : IsUserinfo a.username) (hpassword : IsUserinfo a.password) :
    splitUserinfo a.names = (a.username, a.password) := by
  -- the name ends at the first colon, since it has none of its own
  have hname : ∀ c ∈ a.username.toList, (decide (c ≠ ':')) = true := fun c hc =>
    decide_eq_true (ne_of_spared (husername c hc).2 (by decide))
  have hrest : ∀ c ∈ (if a.password = "" then [] else ':' :: a.password.toList).head?,
      (decide (c ≠ ':')) = false := by
    split
    · exact fun _ hc => nomatch hc
    · intro c hc
      rw [← Option.some.inj hc]
      rfl
  unfold splitUserinfo names
  rw [takeWhile_append_stop hname hrest, dropWhile_append_stop hname hrest]
  have hsecond : ((if a.password = "" then [] else ':' :: a.password.toList).drop 1) = a.password.toList := by
    split
    · next hempty =>
      rw [hempty]
      rfl
    · rfl
  dsimp only
  rw [hsecond, encode_eq_self husername, encode_eq_self hpassword, String.ofList_toList,
    String.ofList_toList]

theorem splitLastAt_of_notMem {cs : List Char} (h : ∀ c ∈ cs, c ≠ '@') : splitLastAt cs = none := by
  unfold splitLastAt
  rw [dropWhile_eq_nil fun c hc => decide_eq_true (h c (List.mem_reverse.mp hc))]

theorem splitLastAt_append (before : List Char) {after : List Char} (h : ∀ c ∈ after, c ≠ '@') :
    splitLastAt (before ++ '@' :: after) = some (before, after) := by
  have hreverse : (before ++ '@' :: after).reverse = after.reverse ++ '@' :: before.reverse := by
    rw [List.reverse_append, List.reverse_cons, List.append_assoc]
    rfl
  have hafter : ∀ c ∈ after.reverse, (decide (c ≠ '@')) = true := fun c hc =>
    decide_eq_true (h c (List.mem_reverse.mp hc))
  have hmark : ∀ c ∈ ('@' :: before.reverse).head?, (decide (c ≠ '@')) = false := fun c hc => by
    rw [← Option.some.inj hc]
    rfl
  unfold splitLastAt
  rw [hreverse, dropWhile_append_stop hafter hmark, takeWhile_append_stop hafter hmark]
  dsimp only
  rw [List.reverse_reverse, List.reverse_reverse]

theorem ne_at_of_mem (h : a.IsNormal scheme) {c : Char} (hc : c ∈ a.host.toList ++ a.portText.toList) :
    c ≠ '@' := by
  rcases List.mem_append.mp hc with hc | hc
  · exact (h.host.chars c hc).at'
  · rcases mem_portText hc with rfl | hdigit
    · decide
    · rintro rfl
      exact absurd hdigit.2 (by decide)

theorem names_ne_nil (hnamed : ¬(a.username = "" ∧ a.password = "")) : a.names ≠ [] := by
  unfold names
  split
  · next hpassword =>
    rw [List.append_nil]
    exact fun hnil => hnamed ⟨String.toList_inj.mp hnil, hpassword⟩
  · exact List.append_ne_nil_of_right_ne_nil _ (List.cons_ne_nil _ _)

/-- What is left to be read after the mark of a user name. -/
theorem parseAuthority_of_split (h : a.IsNormal scheme) {cs : List Char} {atEnd : Bool} (userinfo : List Char)
    (hsplit : (splitLastAt cs).getD ([], cs) = (userinfo, a.host.toList ++ a.portText.toList))
    (hmarked : (userinfo.isEmpty && cs.contains '@') = false)
    (hnames : splitUserinfo userinfo = (a.username, a.password)) :
    parseAuthority scheme cs atEnd = .ok (a, []) := by
  -- an empty user is not marked, and a host that is empty has no user
  have hfirst : (userinfo.isEmpty && (a.host.toList ++ a.portText.toList).isEmpty && !atEnd &&
      cs.contains '@') = false := by
    cases hempty : userinfo.isEmpty with
    | false => rfl
    | true =>
      rw [hempty, Bool.true_and] at hmarked
      rw [hmarked, Bool.and_false]
  have hsecond : (a.host.toList.isEmpty && (a.username ≠ "" || a.password ≠ "")) = false := by
    cases hempty : a.host.toList.isEmpty with
    | false => rfl
    | true =>
      obtain ⟨husername, hpassword⟩ := h.named (String.toList_inj.mp (List.isEmpty_iff.mp hempty))
      rw [husername, hpassword]
      rfl
  rw [parseAuthority_eq, hsplit, hnames]
  dsimp only
  rw [hfirst]
  show (parseHostAndPort scheme (a.host.toList ++ a.portText.toList)).bind _ = _
  rw [parseHostAndPort_text h]
  show (refuse (a.host.toList.isEmpty && (a.username ≠ "" || a.password ≠ "")) .emptyHost).bind _ = _
  rw [hsecond]
  show Except.ok (Authority.mk a.username a.password (String.ofList a.host.toList) a.port, []) = _
  rw [String.ofList_toList]

/-- The text of an authority in its normal form is read as the same authority. -/
theorem parseAuthority_text (h : a.IsNormal scheme) (atEnd : Bool) :
    parseAuthority scheme a.text.toList atEnd = .ok (a, []) := by
  have hplain : ∀ c ∈ a.host.toList ++ a.portText.toList, c ≠ '@' := fun c hc => ne_at_of_mem h hc
  by_cases hnamed : a.username = "" ∧ a.password = ""
  · obtain ⟨husername, hpassword⟩ := hnamed
    rw [text_of_unnamed husername hpassword]
    refine parseAuthority_of_split h [] ?_ ?_ ?_
    · rw [splitLastAt_of_notMem hplain]
      rfl
    · rw [List.contains_eq_mem, decide_eq_false (fun hmem => hplain '@' hmem rfl), Bool.and_false]
    · rw [husername, hpassword]
      rfl
  · rw [text_of_named hnamed]
    refine parseAuthority_of_split h a.names ?_ ?_ ?_
    · rw [splitLastAt_append _ hplain]
      rfl
    · rw [List.isEmpty_eq_false_iff.mpr (names_ne_nil hnamed), Bool.false_and]
    · exact splitUserinfo_names h.username h.password

theorem endsAuthority_eq_false {kind : SchemeKind} {c : Char} (hslash : c ≠ '/') (hbackslash : c ≠ '\\')
    (hquestion : c ≠ '?') (hhash : c ≠ '#') : endsAuthority kind c = false := by
  simp [endsAuthority, SchemeKind.isSlash, isPathEnd, hslash, hbackslash, hquestion, hhash]

/-- No character of a host ends the authority. -/
theorem endsAuthority_of_isHostChar {kind : SchemeKind} {c : Char} (h : IsHostChar c) :
    endsAuthority kind c = false :=
  endsAuthority_eq_false h.slash h.backslash h.question h.hash

/-- What stands in the text of an authority neither ends it nor is left out of it. -/
theorem chars_text (h : a.IsNormal scheme) {c : Char} (hc : c ∈ a.text.toList) :
    0x20 < c.toNat ∧ endsAuthority (.of scheme) c = false := by
  -- whichever part the character is in, it is visible and does not end the authority
  have huserinfo : ∀ text, IsUserinfo text → c ∈ text.toList →
      0x20 < c.toNat ∧ endsAuthority (.of scheme) c = false := by
    intro text htext hmem
    have hset := (htext c hmem).2
    exact ⟨lt_toNat_of_userinfoSet hset, endsAuthority_eq_false (ne_of_spared hset (by decide))
      (ne_of_spared hset (by decide)) (ne_of_spared hset (by decide)) (ne_of_spared hset (by decide))⟩
  have haddress : c ∈ a.host.toList ++ a.portText.toList →
      0x20 < c.toNat ∧ endsAuthority (.of scheme) c = false := by
    intro hmem
    rcases List.mem_append.mp hmem with hmem | hmem
    · have hhost := h.host.chars c hmem
      exact ⟨hhost.visible, endsAuthority_of_isHostChar hhost⟩
    · rcases mem_portText hmem with rfl | hdigit
      · exact ⟨by decide, endsAuthority_eq_false (by decide) (by decide) (by decide) (by decide)⟩
      · refine ⟨by omega, endsAuthority_eq_false ?_ ?_ ?_ ?_⟩ <;> (rintro rfl; revert hdigit; decide)
  by_cases hnamed : a.username = "" ∧ a.password = ""
  · rw [text_of_unnamed hnamed.1 hnamed.2] at hc
    exact haddress hc
  · rw [text_of_named hnamed] at hc
    rcases List.mem_append.mp hc with hc | hc
    · unfold names at hc
      rcases List.mem_append.mp hc with hc | hc
      · exact huserinfo _ h.username hc
      · split at hc
        · cases hc
        · rcases List.mem_cons.mp hc with rfl | hc
          · exact ⟨by decide, endsAuthority_eq_false (by decide) (by decide) (by decide) (by decide)⟩
          · exact huserinfo _ h.password hc
    · rcases List.mem_cons.mp hc with rfl | hc
      · exact ⟨by decide, endsAuthority_eq_false (by decide) (by decide) (by decide) (by decide)⟩
      · exact haddress hc

/-- In a special scheme the text of an authority is not empty. -/
theorem text_ne_nil (h : a.IsNormal scheme) (hspecial : (SchemeKind.of scheme).isSpecial = true) :
    a.text.toList ≠ [] := by
  have hhost : a.host.toList ≠ [] := fun hnil => h.filled hspecial (String.toList_inj.mp hnil)
  by_cases hnamed : a.username = "" ∧ a.password = ""
  · rw [text_of_unnamed hnamed.1 hnamed.2]
    exact List.append_ne_nil_of_left_ne_nil hhost _
  · rw [text_of_named hnamed]
    exact List.append_ne_nil_of_left_ne_nil (names_ne_nil hnamed) _

end Authority

end IndexFs.Url

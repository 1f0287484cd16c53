import IndexFs.Proofs.Decimal
import IndexFs.Proofs.Url.Encode
import IndexFs.Proofs.Url.Ipv6
import IndexFs.Url.Segments

/-!
# Hosts in their normal form

A host that was read is in its normal form: it is read as itself (`isHost_of_specialHost`,
`isHost_of_plainHost`), whatever it was before: an address, a domain, or a text that is kept.
-/

namespace IndexFs.Url

/-! ## ASCII -/

/-- Outside the upper-case letters of ASCII, there is nothing to lower. -/
theorem toLower_of_toNat {c : Char} (h : c.toNat < 65 ∨ 90 < c.toNat) : c.toLower = c := by
  refine dif_neg fun hc => ?_
  rw [ge_iff_le, UInt32.le_iff_toNat_le, UInt32.le_iff_toNat_le] at hc
  have hfirst : ('A').val.toNat = 65 := rfl
  have hlast : ('Z').val.toNat = 90 := rfl
  have hnat : c.toNat = c.val.toNat := rfl
  omega

/-- An upper-case letter of ASCII stands 32 places before its lower-case one. -/
theorem toNat_toLower {c : Char} (h : 65 ≤ c.toNat ∧ c.toNat ≤ 90) : c.toLower.toNat = c.toNat + 32 := by
  have hupper : c.val ≥ 'A'.val ∧ c.val ≤ 'Z'.val := by
    rw [ge_iff_le, UInt32.le_iff_toNat_le, UInt32.le_iff_toNat_le]
    exact h
  have hval : c.toLower.val = c.val + 32 := by
    unfold Char.toLower
    rw [dif_pos hupper]
    rfl
  have hnat : c.toNat = c.val.toNat := rfl
  show c.toLower.val.toNat = _
  rw [hval, UInt32.toNat_add, hnat]
  have hstep : (32 : UInt32).toNat = 32 := rfl
  omega

/-- The upper-case letters of ASCII, by their numbers. -/
theorem isUpper_iff {c : Char} : c.isUpper = true ↔ 65 ≤ c.toNat ∧ c.toNat ≤ 90 := by
  show decide (c.val ≥ 'A'.val ∧ c.val ≤ 'Z'.val) = true ↔ _
  rw [decide_eq_true_iff, ge_iff_le, UInt32.le_iff_toNat_le, UInt32.le_iff_toNat_le]
  exact Iff.rfl

/-- The lower-case letters of ASCII, by their numbers. -/
theorem isLower_iff {c : Char} : c.isLower = true ↔ 97 ≤ c.toNat ∧ c.toNat ≤ 122 := by
  show (decide (c.val ≥ 'a'.val) && decide (c.val ≤ 'z'.val)) = true ↔ _
  rw [Bool.and_eq_true, decide_eq_true_iff, decide_eq_true_iff, ge_iff_le, UInt32.le_iff_toNat_le,
    UInt32.le_iff_toNat_le]
  exact Iff.rfl

/-- A letter is one in lower case, too. -/
theorem isAlpha_toLower {c : Char} (h : c.isAlpha = true) : c.toLower.isAlpha = true := by
  by_cases hupper : 65 ≤ c.toNat ∧ c.toNat ≤ 90
  · have hnat := toNat_toLower hupper
    have hlower : c.toLower.isLower = true := isLower_iff.mpr ⟨by omega, by omega⟩
    exact Bool.or_eq_true_iff.mpr (.inr hlower)
  · rwa [toLower_of_toNat (by omega)]

/-- Only a letter is in lower case after it was in upper case. -/
theorem eq_of_toLower {c d : Char} (h : c.toLower = d) (hd : d.toNat < 97) : c = d := by
  by_cases hupper : 65 ≤ c.toNat ∧ c.toNat ≤ 90
  · have hnat := toNat_toLower hupper
    rw [h] at hnat
    omega
  · rwa [toLower_of_toNat (by omega)] at h

/-- Two letters are the same in lower case. -/
theorem eq_of_toLower_e {c : Char} (h : c.toLower = 'e') : c = 'e' ∨ c = 'E' := by
  by_cases hupper : 65 ≤ c.toNat ∧ c.toNat ≤ 90
  · have hnat := toNat_toLower hupper
    rw [h] at hnat
    have he : ('e').toNat = 101 := rfl
    exact .inr (Char.toNat_inj.mp (show c.toNat = 69 by omega))
  · rw [toLower_of_toNat (by omega)] at h
    exact .inl h

/-- To lower a text twice is to lower it once. -/
theorem lower_lower (cs : List Char) : Text.lower (Text.lower cs) = Text.lower cs := by
  unfold Text.lower
  rw [List.map_map]
  refine List.map_congr_left fun c _ => toLower_of_toNat ?_
  by_cases hupper : 65 ≤ c.toNat ∧ c.toNat ≤ 90
  · rw [toNat_toLower hupper]
    omega
  · rw [toLower_of_toNat (by omega)]
    omega

/-- A text without escapes stands for its own bytes. -/
theorem decode_eq_encode {cs : List Char} (h : ∀ c ∈ cs, c ≠ '%') : decode cs = Utf8.encode cs := by
  induction cs with
  | nil => rfl
  | cons c cs ih =>
    rw [decode, ih fun d hd => h d (List.mem_cons_of_mem c hd)]
    · rfl
    · exact fun _ _ _ hc => absurd hc (h c List.mem_cons_self)

/-! ## What hosts are made of -/

/-- A character that may stand in the host of any URL. -/
structure IsHostChar (c : Char) : Prop where
  visible : 0x20 < c.toNat
  slash : c ≠ '/'
  backslash : c ≠ '\\'
  question : c ≠ '?'
  hash : c ≠ '#'
  at' : c ≠ '@'

/-- A host in its normal form. -/
structure IsHost (special : Bool) (host : List Char) : Prop where
  parsed : (if special then specialHost host else plainHost host) = .ok host
  chars : ∀ c ∈ host, IsHostChar c
  drive : isDriveLetter host = false
  split : ∀ port : List Char, (∀ c ∈ port.head?, c = ':') → splitHost false (host ++ port) = (host, port)

/-- A drive letter has a colon or a bar. -/
theorem isDriveLetter_of_notMem {cs : List Char} (h : ∀ c ∈ cs, c ≠ ':' ∧ c ≠ '|') :
    isDriveLetter cs = false := by
  unfold isDriveLetter startsWithDriveLetter
  split
  · next a b rest =>
    obtain ⟨hcolon, hbar⟩ := h b (List.mem_cons_of_mem _ List.mem_cons_self)
    rw [decide_eq_false hcolon, decide_eq_false hbar, Bool.or_false, Bool.and_false, Bool.false_and,
      Bool.and_false]
  · exact Bool.and_false _

/-- A host goes on with every character but a colon outside brackets. -/
theorem splitHost_cons {inBrackets : Bool} {c : Char} {cs : List Char}
    (h : c = ':' → inBrackets = true) :
    splitHost inBrackets (c :: cs) =
      (c :: (splitHost (if c = '[' then true else if c = ']' then false else inBrackets) cs).1,
        (splitHost (if c = '[' then true else if c = ']' then false else inBrackets) cs).2) := by
  rw [splitHost, if_neg]
  rw [Bool.and_eq_true, decide_eq_true_eq, Bool.not_eq_true']
  rintro ⟨hc, hout⟩
  rw [h hc] at hout
  cases hout

/-- Neither colons nor brackets stand in the part. -/
theorem splitHost_append {inBrackets : Bool} {part : List Char}
    (h : ∀ c ∈ part, (c = ':' → inBrackets = true) ∧ c ≠ '[' ∧ c ≠ ']') (rest : List Char) :
    splitHost inBrackets (part ++ rest) =
      (part ++ (splitHost inBrackets rest).1, (splitHost inBrackets rest).2) := by
  induction part with
  | nil => rfl
  | cons c part ih =>
    obtain ⟨hcolon, hopen, hclose⟩ := h c List.mem_cons_self
    rw [List.cons_append, splitHost_cons hcolon, if_neg hopen, if_neg hclose,
      ih fun d hd => h d (List.mem_cons_of_mem c hd)]
    rfl

/-- A host ends at a colon outside brackets. -/
theorem splitHost_port {port : List Char} (h : ∀ c ∈ port.head?, c = ':') : splitHost false port = ([], port) := by
  cases port with
  | nil => rfl
  | cons c port =>
    cases h c rfl
    rfl

/-- A host without colons and brackets ends where the port starts. -/
theorem split_of_notMem {host : List Char} (h : ∀ c ∈ host, c ≠ ':' ∧ c ≠ '[' ∧ c ≠ ']')
    (port : List Char) (hport : ∀ c ∈ port.head?, c = ':') :
    splitHost false (host ++ port) = (host, port) := by
  rw [splitHost_append fun c hc => ⟨fun hcolon => absurd hcolon (h c hc).1, (h c hc).2⟩,
    splitHost_port hport, List.append_nil]

/-! ## Addresses in brackets -/

/-- An address in brackets is made of characters of a host. -/
theorem isHostChar_bracketed {body : List Char}
    (hbody : ∀ c ∈ body, c = ':' ∨ ∃ d : Fin 16, c = Nat.digitChar d) :
    ∀ c ∈ '[' :: (body ++ [']']), IsHostChar c := by
  have hdigit : ∀ d : Fin 16, 0x20 < (Nat.digitChar d).toNat ∧ Nat.digitChar d ≠ '/' ∧
      Nat.digitChar d ≠ '\\' ∧ Nat.digitChar d ≠ '?' ∧ Nat.digitChar d ≠ '#' ∧ Nat.digitChar d ≠ '@' := by
    decide
  intro c hc
  rw [List.mem_cons, List.mem_append, List.mem_singleton] at hc
  rcases hc with rfl | hc | rfl
  · constructor <;> decide
  · rcases hbody c hc with rfl | ⟨d, rfl⟩
    · constructor <;> decide
    · obtain ⟨hvisible, hslash, hbackslash, hquestion, hhash, hat⟩ := hdigit d
      exact ⟨hvisible, hslash, hbackslash, hquestion, hhash, hat⟩
  · constructor <;> decide

/-- A host in brackets ends behind the closing one, since its colons are inside. -/
theorem split_bracketed {body : List Char}
    (hbody : ∀ c ∈ body, c = ':' ∨ ∃ d : Fin 16, c = Nat.digitChar d) (port : List Char)
    (hport : ∀ c ∈ port.head?, c = ':') :
    splitHost false ('[' :: (body ++ [']']) ++ port) = ('[' :: (body ++ [']']), port) := by
  have hdigit : ∀ d : Fin 16, Nat.digitChar d ≠ '[' ∧ Nat.digitChar d ≠ ']' := by decide
  have hinside : ∀ c ∈ body, (c = ':' → true = true) ∧ c ≠ '[' ∧ c ≠ ']' := fun c hc => by
    rcases hbody c hc with rfl | ⟨d, rfl⟩
    · exact ⟨fun _ => rfl, by decide, by decide⟩
    · exact ⟨fun _ => rfl, hdigit d⟩
  rw [List.cons_append, List.append_assoc, splitHost_cons (c := '[') (fun hc => absurd hc (by decide)),
    if_pos rfl, splitHost_append hinside, List.singleton_append,
    splitHost_cons (c := ']') (fun hc => absurd hc (by decide)), if_neg (by decide), if_pos rfl,
    splitHost_port hport]

/-- An address in brackets that was read is a host in its normal form, in every scheme. -/
theorem isHost_of_bracketedHost (special : Bool) {cs host : List Char} (h : bracketedHost cs = .ok host) :
    IsHost special host ∧ host ≠ [] := by
  obtain ⟨body, rfl, hbody, hread⟩ := bracketedHost_normal h
  have hdrive : isDriveLetter ('[' :: (body ++ [']'])) = false := by
    unfold isDriveLetter startsWithDriveLetter
    split
    · next heq =>
      obtain ⟨rfl, -⟩ := List.cons.inj heq
      rw [show ('[').isAlpha = false by decide, Bool.false_and, Bool.false_and, Bool.and_false]
    · exact Bool.and_false _
  refine ⟨⟨?_, isHostChar_bracketed hbody, hdrive, split_bracketed hbody⟩, List.cons_ne_nil _ _⟩
  cases special <;> exact hread

/-! ## Domains -/

theorem isHostChar_of_domain {c : Char} (h : isForbiddenInDomain c = false) : IsHostChar c where
  visible := by
    simp only [isForbiddenInDomain, Bool.or_eq_false_iff, decide_eq_false_iff_not, Nat.not_le] at h
    exact h.1.1.1.1.1.1.1.1.1.1.1.1.1.1
  slash := ne_of_spared h (by decide)
  backslash := ne_of_spared h (by decide)
  question := ne_of_spared h (by decide)
  hash := ne_of_spared h (by decide)
  at' := ne_of_spared h (by decide)

/-- How a domain in its normal form is read. -/
theorem specialHost_domain {domain : List Char} (hchars : ∀ c ∈ domain, isForbiddenInDomain c = false)
    (hlower : Text.lower domain = domain) (hne : domain ≠ []) :
    specialHost domain = if endsInNumber domain then ipv4Host domain else .ok domain := by
  have hbytes : Utf8.decode (decode domain) = .ok domain := by
    rw [decode_eq_encode fun c hc => ne_of_spared (hchars c hc) (by decide), Utf8.decode_encode]
  have hallowed : domain.any isForbiddenInDomain = false := by
    rw [List.any_eq_false]
    exact fun c hc => Bool.eq_false_iff.mp (hchars c hc)
  have hfilled : domain.isEmpty = false := List.isEmpty_eq_false_iff.mpr hne
  unfold specialHost
  split
  · exact absurd (hchars '[' List.mem_cons_self) (by decide)
  · rw [hbytes]
    dsimp only
    rw [hlower, hallowed, hfilled]
    rfl

/-- A domain is no drive letter. -/
theorem drive_domain {domain : List Char} (hchars : ∀ c ∈ domain, isForbiddenInDomain c = false) :
    isDriveLetter domain = false :=
  isDriveLetter_of_notMem fun c hc =>
    ⟨ne_of_spared (hchars c hc) (by decide), ne_of_spared (hchars c hc) (by decide)⟩

/-- A domain ends where the port starts. -/
theorem split_domain {domain : List Char} (hchars : ∀ c ∈ domain, isForbiddenInDomain c = false)
    (port : List Char) (hport : ∀ c ∈ port.head?, c = ':') :
    splitHost false (domain ++ port) = (domain, port) :=
  split_of_notMem (fun c hc => ⟨ne_of_spared (hchars c hc) (by decide), ne_of_spared (hchars c hc) (by decide),
    ne_of_spared (hchars c hc) (by decide)⟩) port hport

/-! ## IPv4 addresses -/

/-- The four bytes of an IPv4 address. -/
def ipv4Bytes (n : Nat) : List Nat :=
  [n / 0x1000000, n / 0x10000 % 0x100, n / 0x100 % 0x100, n % 0x100]

/-- An address is written as its four bytes with dots between them. -/
theorem ipv4Chars_eq (n : Nat) : ipv4Chars n = ['.'].intercalate ((ipv4Bytes n).map (Nat.toDigits 10)) :=
  rfl

/-- The bytes of an address are bytes. -/
theorem ipv4Bytes_lt {n : Nat} (h : n < 0x100000000) : ∀ b ∈ ipv4Bytes n, b < 0x100 := by
  intro b hb
  simp only [ipv4Bytes, List.mem_cons, List.not_mem_nil, or_false] at hb
  rcases hb with rfl | rfl | rfl | rfl <;> omega

theorem decimal_ne_dot {n : Nat} {c : Char} (h : c ∈ Nat.toDigits 10 n) : (c = '.') = False := by
  rw [eq_iff_iff, iff_false]
  rintro rfl
  have hdigit := Decimal.toNat_digit_of_mem h
  exact absurd hdigit.1 (by decide)

/-- The text of an address is split at its dots into its bytes. -/
theorem splitBy_ipv4Chars (n : Nat) :
    splitBy (· = '.') (ipv4Chars n) = (ipv4Bytes n).map (Nat.toDigits 10) := by
  rw [ipv4Chars_eq]
  refine splitBy_intercalate (by decide) (by simp [ipv4Bytes]) fun part hpart c hc => ?_
  obtain ⟨b, -, rfl⟩ := List.mem_map.mp hpart
  exact decide_eq_false (decimal_ne_dot hc).mp

/-- The labels of an address are its bytes, of which the last one is not empty. -/
theorem labels_ipv4Chars (n : Nat) : labels (ipv4Chars n) = (ipv4Bytes n).map (Nat.toDigits 10) := by
  unfold labels
  rw [splitBy_ipv4Chars]
  refine if_neg fun hlast => ?_
  have hsome : some (Nat.toDigits 10 (n % 0x100)) = some [] := hlast
  exact Nat.toDigits_ne_nil (Option.some.inj hsome)

/-- An address is written with digits and dots. -/
theorem mem_ipv4Chars {n : Nat} {c : Char} (h : c ∈ ipv4Chars n) :
    c = '.' ∨ 0x30 ≤ c.toNat ∧ c.toNat ≤ 0x39 := by
  rcases mem_intercalate h with hdot | ⟨part, hpart, hmem⟩
  · exact .inl hdot
  · obtain ⟨b, -, rfl⟩ := List.mem_map.mp hpart
    exact .inr (Decimal.toNat_digit_of_mem hmem)

/-- A number is read from its digits, which do not start with a zero. -/
theorem ipv4Number?_toDigits (n : Nat) : ipv4Number? (Nat.toDigits 10 n) = some n := by
  have hvalue : digitsValue? 10 (Nat.toDigits 10 n) = some n :=
    digitsValue?_toDigits (by decide) (by decide) n
  rcases Nat.eq_zero_or_pos n with rfl | hpos
  · rfl
  · obtain ⟨d, cs, hd, hd', hdigits⟩ := Decimal.head_digitChars hpos
    have hdigits' : Nat.toDigits 10 n = Nat.digitChar d :: cs := hdigits
    have hzero : Nat.digitChar d ≠ '0' := by
      have h : ∀ d : Fin 10, 0 < d.val → Nat.digitChar d ≠ '0' := by decide
      exact h ⟨d, hd'⟩ hd
    rw [hdigits'] at hvalue ⊢
    unfold ipv4Number?
    split
    · next heq => cases heq
    · next heq => exact absurd (List.cons.inj heq).1 hzero
    · next heq => exact absurd (List.cons.inj heq).1 hzero
    · next heq => exact absurd (List.cons.inj heq).1 hzero
    · exact hvalue

/-- The text of an address is read as the same address. -/
theorem ipv4Host_ipv4Chars {n : Nat} (h : n < 0x100000000) : ipv4Host (ipv4Chars n) = .ok (ipv4Chars n) := by
  have hnumbers : ((ipv4Bytes n).map (Nat.toDigits 10)).mapM ipv4Number? = some (ipv4Bytes n) :=
    mapM_map_eq_some fun b _ => ipv4Number?_toDigits b
  have hlt := ipv4Bytes_lt h
  -- the last number carries the two low bytes that the others leave
  have hvalue : highBytes 0 (ipv4Bytes n).dropLast + n % 0x100 = n := by
    simp only [ipv4Bytes, List.dropLast, highBytes, Nat.shiftLeft_eq]
    omega
  unfold ipv4Host
  rw [labels_ipv4Chars]
  dsimp only
  rw [hnumbers]
  show (if (4 < 4 || (ipv4Bytes n).dropLast.any (255 < ·) || 1 <<< (8 * (4 - 3)) ≤ n % 0x100 : Bool) then
    (Except.error .invalidIpv4 : Except ParseError (List Char))
    else .ok (ipv4Chars (highBytes 0 (ipv4Bytes n).dropLast + n % 0x100))) = _
  rw [hvalue, if_neg]
  have hsmall : (ipv4Bytes n).dropLast.any (255 < ·) = false := by
    rw [List.any_eq_false]
    intro b hb
    have := hlt b ((List.dropLast_sublist _).subset hb)
    simp only [decide_eq_true_eq]
    omega
  have hlast : ¬1 <<< (8 * (4 - 3)) ≤ n % 0x100 := by
    rw [Nat.shiftLeft_eq]
    omega
  rw [hsmall, decide_eq_false hlast]
  decide

/-- The numbers of an address are its bytes, and the last one all bytes that are left. -/
theorem highBytes_lt {high : List Nat} {last : Nat} (hlength : high.length ≤ 3) (hhigh : ∀ b ∈ high, b ≤ 255)
    (hlast : last < 1 <<< (8 * (4 - high.length))) : highBytes 0 high + last < 0x100000000 := by
  rw [Nat.shiftLeft_eq] at hlast
  match high, hlength with
  | [], _ => simpa [highBytes] using hlast
  | [a], _ =>
    simp only [List.forall_mem_cons, List.length_cons, List.length_nil] at hhigh hlast
    simp only [highBytes, Nat.shiftLeft_eq]
    omega
  | [a, b], _ =>
    simp only [List.forall_mem_cons, List.length_cons, List.length_nil] at hhigh hlast
    simp only [highBytes, Nat.shiftLeft_eq]
    omega
  | [a, b, c], _ =>
    simp only [List.forall_mem_cons, List.length_cons, List.length_nil] at hhigh hlast
    simp only [highBytes, Nat.shiftLeft_eq]
    omega

/-- What was read as an address is written as one. -/
theorem ipv4Chars_of_ipv4Host {domain host : List Char} (h : ipv4Host domain = .ok host) :
    ∃ n < 0x100000000, host = ipv4Chars n := by
  unfold ipv4Host at h
  dsimp only at h
  split at h
  · cases h
  · next ns hns =>
    split at h
    · cases h
    · next last hlast =>
      split at h
      · cases h
      · next hfits =>
        cases h
        rw [Bool.or_eq_true, Bool.or_eq_true, not_or, not_or, decide_eq_true_eq, decide_eq_true_eq] at hfits
        obtain ⟨⟨hlength, hhigh⟩, hfits⟩ := hfits
        -- each number but the last is a byte, and the last fills what they leave
        refine ⟨_, highBytes_lt ?_ (fun b hb => ?_) (Nat.not_le.mp hfits), rfl⟩
        · rw [List.length_dropLast]
          omega
        · have hsmall := List.any_eq_false.mp (Bool.eq_false_iff.mpr hhigh) b hb
          rw [decide_eq_true_eq] at hsmall
          omega

theorem isForbiddenInDomain_ipv4 {n : Nat} {c : Char} (h : c ∈ ipv4Chars n) :
    isForbiddenInDomain c = false := by
  rcases mem_ipv4Chars h with rfl | ⟨hfirst, hlast⟩
  · decide
  · have hdigit : ∀ d : Fin 10, isForbiddenInDomain (Char.ofNat (0x30 + d)) = false := by decide
    have hc : c = Char.ofNat (0x30 + (c.toNat - 0x30)) := by
      rw [show 0x30 + (c.toNat - 0x30) = c.toNat by omega, Char.ofNat_toNat]
    rw [hc]
    exact hdigit ⟨c.toNat - 0x30, by omega⟩

/-- The text of an address is taken for one again, since its last label is a number. -/
theorem endsInNumber_ipv4Chars (n : Nat) : endsInNumber (ipv4Chars n) = true := by
  have hlast : (labels (ipv4Chars n)).getLast? = some (Nat.toDigits 10 (n % 0x100)) := by
    rw [labels_ipv4Chars]
    rfl
  unfold endsInNumber
  rw [hlast]
  dsimp only
  rw [ipv4Number?_toDigits]
  exact Bool.or_true _

theorem ipv4Chars_ne_nil (n : Nat) : ipv4Chars n ≠ [] := by
  intro hnil
  have hsplit := splitBy_ipv4Chars n
  rw [hnil] at hsplit
  have hlength := congrArg List.length hsplit
  rw [List.length_map] at hlength
  cases hlength

/-- An address is a host in its normal form. -/
theorem isHost_ipv4 {n : Nat} (h : n < 0x100000000) : IsHost true (ipv4Chars n) where
  parsed := by
    have hlower : Text.lower (ipv4Chars n) = ipv4Chars n := by
      refine (List.map_congr_left fun c hc => ?_).trans (List.map_id _)
      refine toLower_of_toNat ?_
      rcases mem_ipv4Chars hc with rfl | ⟨-, hdigit⟩
      · exact .inl (by decide)
      · exact .inl (by omega)
    rw [if_pos rfl, specialHost_domain (fun c hc => isForbiddenInDomain_ipv4 hc) hlower (ipv4Chars_ne_nil n),
      endsInNumber_ipv4Chars, if_pos rfl, ipv4Host_ipv4Chars h]
  chars c hc := isHostChar_of_domain (isForbiddenInDomain_ipv4 hc)
  drive := drive_domain fun c hc => isForbiddenInDomain_ipv4 hc
  split := split_domain fun c hc => isForbiddenInDomain_ipv4 hc

/-- A host of a special scheme that was read. -/
theorem isHost_of_specialHost {cs host : List Char} (h : specialHost cs = .ok host) :
    IsHost true host ∧ host ≠ [] := by
  unfold specialHost at h
  split at h
  · -- an address in brackets is read by its own reader
    exact isHost_of_bracketedHost true h
  · split at h
    · cases h
    · next decoded hdecoded =>
      dsimp only at h
      split at h
      · cases h
      · next hallowed =>
        split at h
        · cases h
        · next hfilled =>
          split at h
          · -- what ends in a number is an IPv4 address, and anything else a domain in lower case
            obtain ⟨n, hn, rfl⟩ := ipv4Chars_of_ipv4Host h
            exact ⟨isHost_ipv4 hn, ipv4Chars_ne_nil n⟩
          · next hdomain =>
            cases h
            have hchars : ∀ c ∈ Text.lower decoded, isForbiddenInDomain c = false := fun c hc =>
              Bool.eq_false_iff.mpr (List.any_eq_false.mp (Bool.eq_false_iff.mpr hallowed) c hc)
            have hne : Text.lower decoded ≠ [] := by rwa [List.isEmpty_iff] at hfilled
            refine ⟨⟨?_, fun c hc => isHostChar_of_domain (hchars c hc), drive_domain hchars,
              split_domain hchars⟩, hne⟩
            rw [if_pos rfl, specialHost_domain hchars (lower_lower decoded) hne, if_neg hdomain]

/-! ## Hosts that are kept -/

/-- A character that a host keeps. -/
structure IsKept (c : Char) : Prop where
  allowed : isForbiddenInHost c = false
  ascii : c.toNat < 0x80
  visible : controls c = false

theorem isHostChar_of_kept {c : Char} (h : IsKept c) : IsHostChar c where
  visible := lt_toNat_of_blank h.visible (ne_of_spared h.allowed (by decide))
  slash := ne_of_spared h.allowed (by decide)
  backslash := ne_of_spared h.allowed (by decide)
  question := ne_of_spared h.allowed (by decide)
  hash := ne_of_spared h.allowed (by decide)
  at' := ne_of_spared h.allowed (by decide)

/-- A host that is kept has only such characters left once it is encoded. -/
theorem isKept_of_mem_encode {cs : List Char} (hallowed : ∀ c ∈ cs, isForbiddenInHost c = false) {c : Char}
    (h : c ∈ encode controls cs) : IsKept c := by
  obtain ⟨hascii, hvisible⟩ := stands_of_mem_encode sparesEscapes_controls h
  exact ⟨spared_of_mem_encode ⟨by decide, by decide⟩ (fun d hd _ => hallowed d hd) h, hascii, hvisible⟩

/-- A host of such characters is one in its normal form. -/
theorem isHost_of_kept {host : List Char} (h : ∀ c ∈ host, IsKept c) : IsHost false host where
  parsed := by
    have hallowed : host.any isForbiddenInHost = false := by
      rw [List.any_eq_false]
      exact fun c hc => Bool.eq_false_iff.mp (h c hc).allowed
    rw [if_neg Bool.false_ne_true]
    unfold plainHost
    split
    · exact absurd (h '[' List.mem_cons_self).allowed (by decide)
    · rw [hallowed, if_neg Bool.false_ne_true, encode_eq_self fun c hc => ⟨(h c hc).ascii, (h c hc).visible⟩]
  chars c hc := isHostChar_of_kept (h c hc)
  drive := isDriveLetter_of_notMem fun c hc =>
    ⟨ne_of_spared (h c hc).allowed (by decide), ne_of_spared (h c hc).allowed (by decide)⟩
  split := split_of_notMem fun c hc => ⟨ne_of_spared (h c hc).allowed (by decide),
    ne_of_spared (h c hc).allowed (by decide), ne_of_spared (h c hc).allowed (by decide)⟩

/-- A host of any other scheme that was read. -/
theorem isHost_of_plainHost {cs host : List Char} (h : plainHost cs = .ok host) : IsHost false host := by
  unfold plainHost at h
  split at h
  · exact (isHost_of_bracketedHost false h).1
  · split at h
    · cases h
    · next hallowed =>
      cases h
      have hchars : ∀ c ∈ cs, isForbiddenInHost c = false := fun c hc =>
        Bool.eq_false_iff.mpr (List.any_eq_false.mp (Bool.eq_false_iff.mpr hallowed) c hc)
      exact isHost_of_kept fun c hc => isKept_of_mem_encode hchars hc

end IndexFs.Url

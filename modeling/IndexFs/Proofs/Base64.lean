import IndexFs.Base64
import IndexFs.Proofs.Json.Decoder
import IndexFs.Proofs.Utf8
import Mathlib.Tactic.Common

/-!
# The standard text of bytes

The bits of the bytes are cut into groups of six, with zeros behind the last ones, each group is written as its
symbol, and padding marks make the text a multiple of four long (`IsTextOf`). All bytes have exactly one such text,
the one that `encode` gives (`isTextOf_iff`), and it is the only text that `decode` accepts for them
(`decode_eq_ok_iff`).
-/

namespace IndexFs.Base64

open Json.Decoder (bind_eq_ok_iff)

/-! ## Symbols -/

/-- The standard alphabet, in the order of the six bits. -/
def alphabet : List Char :=
  "ABCDEFGHIJKLMNOPQRSTUVWXYZabcdefghijklmnopqrstuvwxyz0123456789+/".toList

/-- The byte of a letter of the alphabet. -/
def letter (n : Fin 64) : UInt8 :=
  UInt8.ofNat (alphabet.getD n ' ').toNat

theorem letter_eq : ∀ n : Fin 64, letter n = symbol n := by
  decide +kernel

/-- The value of a symbol is its number. -/
theorem value?_symbol {n : Nat} (h : n < 64) : value? (symbol n) = some n := by
  have hall : ∀ n : Fin 64, value? (symbol n) = some n.val := by decide
  exact hall ⟨n, h⟩

/-- No symbol is the padding. -/
theorem symbol_ne_pad {n : Nat} (h : n < 64) : symbol n ≠ pad := by
  have hall : ∀ n : Fin 64, symbol n ≠ pad := by decide
  exact hall ⟨n, h⟩

/-- A byte has a value only if it is the symbol of this value. -/
theorem symbol_of_value? {b : UInt8} {n : Nat} (h : value? b = some n) : n < 64 ∧ symbol n = b := by
  have hall : ∀ b : Fin 256, ∀ n ∈ value? (UInt8.ofNat b), n < 64 ∧ symbol n = UInt8.ofNat b := by
    decide +kernel
  have hb := hall ⟨b.toNat, b.toNat_lt⟩ n
  rw [UInt8.ofNat_toNat] at hb
  exact hb h

/-! ## Four symbols for three bytes -/

/-- Four symbols carry the three bytes they are made of. -/
theorem threeBytes_of_bytes (a b c : UInt8) :
    threeBytes (a.toNat / 4) (a.toNat % 4 * 16 + b.toNat / 16) (b.toNat % 16 * 4 + c.toNat / 64)
      (c.toNat % 64) = [a, b, c] := by
  have ha := a.toNat_lt
  have hb := b.toNat_lt
  have hc := c.toNat_lt
  have hfirst : a.toNat / 4 * 4 + (a.toNat % 4 * 16 + b.toNat / 16) / 16 = a.toNat := by omega
  have hsecond : (a.toNat % 4 * 16 + b.toNat / 16) % 16 * 16 + (b.toNat % 16 * 4 + c.toNat / 64) / 4 = b.toNat := by
    omega
  have hthird : (b.toNat % 16 * 4 + c.toNat / 64) % 4 * 64 + c.toNat % 64 = c.toNat := by omega
  rw [threeBytes, hfirst, hsecond, hthird, UInt8.ofNat_toNat, UInt8.ofNat_toNat, UInt8.ofNat_toNat]

/-- The bits of four symbols are those of the three bytes. -/
theorem bytes_of_threeBytes {w x y z : Nat} {a b c : UInt8} (hw : w < 64) (hx : x < 64) (hy : y < 64) (hz : z < 64)
    (h : threeBytes w x y z = [a, b, c]) :
    w = a.toNat / 4 ∧ x = a.toNat % 4 * 16 + b.toNat / 16 ∧ y = b.toNat % 16 * 4 + c.toNat / 64 ∧
      z = c.toNat % 64 := by
  rw [threeBytes] at h
  obtain ⟨ha, h⟩ := List.cons.inj h
  obtain ⟨hb, h⟩ := List.cons.inj h
  obtain ⟨hc, -⟩ := List.cons.inj h
  have ha' : a.toNat = w * 4 + x / 16 := by
    rw [← ha, UInt8.toNat_ofNat', Nat.mod_eq_of_lt (by omega)]
  have hb' : b.toNat = x % 16 * 16 + y / 4 := by
    rw [← hb, UInt8.toNat_ofNat', Nat.mod_eq_of_lt (by omega)]
  have hc' : c.toNat = y % 4 * 64 + z := by
    rw [← hc, UInt8.toNat_ofNat', Nat.mod_eq_of_lt (by omega)]
  omega

/-- And three bytes are written with the symbols that carry them. -/
theorem encode_of_threeBytes {w x y z : Nat} {a b c : UInt8} (hw : w < 64) (hx : x < 64) (hy : y < 64) (hz : z < 64)
    (h : threeBytes w x y z = [a, b, c]) (rest : List UInt8) :
    encode (a :: b :: c :: rest) = symbol w :: symbol x :: symbol y :: symbol z :: encode rest := by
  obtain ⟨rfl, rfl, rfl, rfl⟩ := bytes_of_threeBytes hw hx hy hz h
  rfl

/-- Two bytes are written in three symbols if the third one holds no bit of a third byte. -/
theorem encode_of_twoBytes {w x y : Nat} {a b : UInt8} (hw : w < 64) (hx : x < 64) (hy : y < 64)
    (h : threeBytes w x y 0 = [a, b, 0]) : encode [a, b] = [symbol w, symbol x, symbol y, pad] := by
  obtain ⟨rfl, rfl, rfl, -⟩ := bytes_of_threeBytes hw hx hy (by decide) h
  rfl

/-- One byte is written in two symbols if the second one holds no bit of a second byte. -/
theorem encode_of_oneByte {w x : Nat} {a : UInt8} (hw : w < 64) (hx : x < 64)
    (h : threeBytes w x 0 0 = [a, 0, 0]) : encode [a] = [symbol w, symbol x, pad, pad] := by
  obtain ⟨rfl, rfl, -, -⟩ := bytes_of_threeBytes hw hx (by decide) (by decide) h
  rfl

/-! ## Reading back what was written -/

theorem valueAt_symbol {n : Nat} (h : n < 64) (offset : Nat) : valueAt offset (symbol n) = .ok n := by
  rw [valueAt, value?_symbol h]

theorem valueAt_eq_ok {offset : Nat} {b : UInt8} {n : Nat} (h : valueAt offset b = .ok n) :
    n < 64 ∧ symbol n = b := by
  rw [valueAt] at h
  split at h
  · next m hm =>
    cases h
    exact symbol_of_value? hm
  · cases h

/-! ## The last group -/

/-- A group is sorted if its symbols come first, each with its value, and then its padding. -/
structure LastGroup.Sorts (group : LastGroup) (bs : List UInt8) : Prop where
  bytes : bs = group.symbols.map (fun s => s.2.2) ++ List.replicate group.pads pad
  values : ∀ s ∈ group.symbols, value? s.2.2 = some s.1

/-- Sorting goes on with a group that is sorted so far, and ends with one. -/
theorem sorts_lastGroup {start index : Nat} {group group' : LastGroup} {before bs : List UInt8}
    (hbefore : group.Sorts before) (h : lastGroup start index group bs = .ok group') : group'.Sorts (before ++ bs) := by
  induction bs generalizing index group before with
  | nil =>
    cases h
    rw [List.append_nil]
    exact hbefore
  | cons b bs ih =>
    rw [← List.singleton_append, ← List.append_assoc]
    rw [lastGroup] at h
    split at h
    · next hpad =>
      -- one more mark
      split at h
      · cases h
      have hsorts : LastGroup.Sorts ⟨group.symbols, group.pads + 1,
          if group.pads = 0 then index else group.firstPad⟩ (before ++ [b]) := by
        refine ⟨?_, hbefore.values⟩
        rw [hbefore.bytes, hpad, List.replicate_succ', List.append_assoc]
      exact ih hsorts h
    · split at h
      · cases h
      next hpads =>
      split at h
      · cases h
      next n hvalue =>
      -- one more symbol, with no mark before it
      have hnone : group.pads = 0 := by omega
      refine ih ⟨?_, ?_⟩ h
      · show before ++ [b] = List.map _ (group.symbols ++ [_]) ++ List.replicate group.pads pad
        rw [hbefore.bytes, hnone]
        simp
      · intro s hs
        rcases List.mem_append.mp hs with hs | hs
        · exact hbefore.values s hs
        · obtain rfl := List.mem_singleton.mp hs
          exact hvalue

theorem sorts_nil : LastGroup.Sorts ⟨[], 0, 0⟩ [] :=
  ⟨rfl, fun _ h => absurd h List.not_mem_nil⟩

/-- The bytes of the last symbols. -/
def lastBytes : List (Nat × Nat × UInt8) → Except Fault (List UInt8)
  | [(a, _, _), (b, k, byte)] =>
    if b % 16 = 0 then .ok ((threeBytes a b 0 0).take 1) else .error (.invalidLastSymbol k byte)
  | [(a, _, _), (b, _, _), (c, k, byte)] =>
    if c % 4 = 0 then .ok ((threeBytes a b c 0).take 2) else .error (.invalidLastSymbol k byte)
  | [(a, _, _), (b, _, _), (c, _, _), (d, _, _)] => .ok (threeBytes a b c d)
  | _ => .ok []

/-- The last group is accepted if it is empty or has two symbols, and is full, and no bits are left over. -/
theorem decodeLast_eq_ok_iff {start : Nat} {bs bytes : List UInt8} :
    decodeLast start bs = .ok bytes ↔
      ∃ group, lastGroup start 0 ⟨[], 0, 0⟩ bs = .ok group ∧ (bs ≠ [] → 2 ≤ group.symbols.length) ∧
        (group.pads + group.symbols.length) % 4 = 0 ∧ lastBytes group.symbols = .ok bytes := by
  rw [decodeLast, bind_eq_ok_iff]
  refine exists_congr fun group => and_congr_right fun _ => ?_
  have hfew : (!bs.isEmpty && decide (group.symbols.length < 2)) = true ↔ ¬(bs ≠ [] → 2 ≤ group.symbols.length) := by
    simp
  by_cases hmany : bs ≠ [] → 2 ≤ group.symbols.length
  · rw [if_neg (mt hfew.mp (not_not.mpr hmany))]
    by_cases hfull : (group.pads + group.symbols.length) % 4 = 0
    · rw [and_iff_right hmany, and_iff_right hfull]
      simp only [hfull, ne_eq, not_true, if_false]
      rfl
    · simp only [hfull, ne_eq, not_false_eq_true, if_true, false_and, and_false, iff_false]
      nofun
  · rw [if_pos (hfew.mpr hmany)]
    exact iff_of_false nofun fun h => hmany h.1

/-- One byte takes two symbols, if the rest of the second one is zero. -/
theorem encode_take_one {w x : Nat} (hw : w < 64) (hx : x < 64) (hzero : x % 16 = 0) :
    encode ((threeBytes w x 0 0).take 1) = [symbol w, symbol x, pad, pad] := by
  have hthree : threeBytes w x 0 0 = [UInt8.ofNat (w * 4 + x / 16), 0, 0] := by
    rw [threeBytes, hzero]
    rfl
  rw [hthree]
  exact encode_of_oneByte hw hx hthree

/-- Two bytes take three symbols, if the rest of the third one is zero. -/
theorem encode_take_two {w x y : Nat} (hw : w < 64) (hx : x < 64) (hy : y < 64) (hzero : y % 4 = 0) :
    encode ((threeBytes w x y 0).take 2) = [symbol w, symbol x, symbol y, pad] := by
  have hthree : threeBytes w x y 0 = [UInt8.ofNat (w * 4 + x / 16), UInt8.ofNat (x % 16 * 16 + y / 4), 0] := by
    rw [threeBytes, hzero]
    rfl
  rw [hthree]
  exact encode_of_twoBytes hw hx hy hthree

/-- What the last group accepts is the text of at most three bytes. -/
theorem encode_of_decodeLast {start : Nat} {bs bytes : List UInt8} (hlength : bs.length ≤ 4)
    (h : decodeLast start bs = .ok bytes) : bs = encode bytes := by
  obtain ⟨⟨symbols, pads, firstPad⟩, hgroup, hmany, hfull, hlast⟩ := decodeLast_eq_ok_iff.mp h
  obtain ⟨hbytes, hvalues⟩ := sorts_lastGroup sorts_nil hgroup
  have hsymbol : ∀ s ∈ symbols, s.1 < 64 ∧ symbol s.1 = s.2.2 := fun s hs => symbol_of_value? (hvalues s hs)
  have hsum : symbols.length + pads = bs.length := by
    rw [List.nil_append] at hbytes
    rw [hbytes]
    simp
  match symbols with
  | [] =>
    have hempty : bs = [] := by
      by_contra hne
      exact absurd (hmany hne) (Nat.not_succ_le_zero 1)
    cases hlast
    exact hempty
  | [s] =>
    -- six bits are too few for a byte
    have hne : bs ≠ [] := by
      rintro rfl
      simp at hsum
    exact absurd (hmany hne) (Nat.not_le.mpr (Nat.lt_succ_self 1))
  | [s, t] =>
    have hpads : pads = 2 := by
      simp only [List.length_cons, List.length_nil] at hsum hfull
      omega
    subst hpads
    obtain ⟨hs, hs'⟩ := hsymbol s (by simp)
    obtain ⟨ht, ht'⟩ := hsymbol t (by simp)
    rw [lastBytes] at hlast
    split at hlast
    · next hzero =>
      cases hlast
      rw [encode_take_one hs ht hzero, hs', ht']
      exact hbytes
    · cases hlast
  | [s, t, u] =>
    have hpads : pads = 1 := by
      simp only [List.length_cons, List.length_nil] at hsum hfull
      omega
    subst hpads
    obtain ⟨hs, hs'⟩ := hsymbol s (by simp)
    obtain ⟨ht, ht'⟩ := hsymbol t (by simp)
    obtain ⟨hu, hu'⟩ := hsymbol u (by simp)
    rw [lastBytes] at hlast
    split at hlast
    · next hzero =>
      cases hlast
      rw [encode_take_two hs ht hu hzero, hs', ht', hu']
      exact hbytes
    · cases hlast
  | [s, t, u, v] =>
    have hpads : pads = 0 := by
      simp only [List.length_cons, List.length_nil] at hsum
      omega
    subst hpads
    obtain ⟨hs, hs'⟩ := hsymbol s (by simp)
    obtain ⟨ht, ht'⟩ := hsymbol t (by simp)
    obtain ⟨hu, hu'⟩ := hsymbol u (by simp)
    obtain ⟨hv, hv'⟩ := hsymbol v (by simp)
    cases hlast
    show bs = encode [_, _, _]
    rw [encode_of_threeBytes hs ht hu hv rfl, hs', ht', hu', hv']
    exact hbytes
  | _ :: _ :: _ :: _ :: _ :: _ =>
    simp only [List.length_cons] at hsum
    omega

theorem decodeLast_one (start : Nat) (a : UInt8) : decodeLast start (encode [a]) = .ok [a] := by
  have ha := a.toNat_lt
  have hw : a.toNat / 4 < 64 := by omega
  have hx : a.toNat % 4 * 16 < 64 := by omega
  have hzero : a.toNat % 4 * 16 % 16 = 0 := by omega
  have hthree := threeBytes_of_bytes a 0 0
  simp at hthree
  simp [encode, decodeLast, lastGroup, symbol_ne_pad hw, symbol_ne_pad hx, value?_symbol hw, value?_symbol hx,
    bind, Except.bind, hthree]
  rfl

theorem decodeLast_two (start : Nat) (a b : UInt8) : decodeLast start (encode [a, b]) = .ok [a, b] := by
  have ha := a.toNat_lt
  have hb := b.toNat_lt
  have hw : a.toNat / 4 < 64 := by omega
  have hx : a.toNat % 4 * 16 + b.toNat / 16 < 64 := by omega
  have hy : b.toNat % 16 * 4 < 64 := by omega
  have hthree := threeBytes_of_bytes a b 0
  simp at hthree
  simp [encode, decodeLast, lastGroup, symbol_ne_pad hw, symbol_ne_pad hx, symbol_ne_pad hy,
    value?_symbol hw, value?_symbol hx, value?_symbol hy, bind, Except.bind, hthree]
  rfl

theorem decodeLast_three (start : Nat) (a b c : UInt8) : decodeLast start (encode [a, b, c]) = .ok [a, b, c] := by
  have ha := a.toNat_lt
  have hb := b.toNat_lt
  have hc := c.toNat_lt
  have hw : a.toNat / 4 < 64 := by omega
  have hx : a.toNat % 4 * 16 + b.toNat / 16 < 64 := by omega
  have hy : b.toNat % 16 * 4 + c.toNat / 64 < 64 := by omega
  have hz : c.toNat % 64 < 64 := by omega
  simp [encode, decodeLast, lastGroup, symbol_ne_pad hw, symbol_ne_pad hx, symbol_ne_pad hy, symbol_ne_pad hz,
    value?_symbol hw, value?_symbol hx, value?_symbol hy, value?_symbol hz, bind, Except.bind,
    threeBytes_of_bytes a b c]
  rfl

/-! ## Whole texts -/

/-- What is accepted is the text of what is read. -/
theorem encode_of_decodeFrom {offset : Nat} {bs bytes : List UInt8} (h : decodeFrom offset bs = .ok bytes) :
    bs = encode bytes := by
  induction offset, bs using decodeFrom.induct generalizing bytes with
  | case1 offset a b c d e rest ih =>
    -- four characters and at least one more: three bytes, and then the rest
    rw [decodeFrom] at h
    obtain ⟨w, hw, h⟩ := bind_eq_ok_iff.mp h
    obtain ⟨x, hx, h⟩ := bind_eq_ok_iff.mp h
    obtain ⟨y, hy, h⟩ := bind_eq_ok_iff.mp h
    obtain ⟨z, hz, h⟩ := bind_eq_ok_iff.mp h
    obtain ⟨more, hmore, h⟩ := bind_eq_ok_iff.mp h
    obtain ⟨hw, hw'⟩ := valueAt_eq_ok hw
    obtain ⟨hx, hx'⟩ := valueAt_eq_ok hx
    obtain ⟨hy, hy'⟩ := valueAt_eq_ok hy
    obtain ⟨hz, hz'⟩ := valueAt_eq_ok hz
    obtain rfl := Except.ok.inj h
    show _ = encode (_ :: _ :: _ :: more)
    rw [encode_of_threeBytes hw hx hy hz rfl, hw', hx', hy', hz', ih hmore]
  | case2 offset bs hshort =>
    -- the last characters are at most four
    have hlength : bs.length ≤ 4 := by
      match bs, hshort with
      | [], _ => simp
      | [_], _ => simp
      | [_, _], _ => simp
      | [_, _, _], _ => simp
      | [_, _, _, _], _ => simp
      | a :: b :: c :: d :: e :: rest, hshort => exact absurd rfl (hshort a b c d e rest)
    rw [decodeFrom] at h
    · exact encode_of_decodeLast hlength h
    · exact hshort

theorem exists_encode_cons (b : UInt8) (bytes : List UInt8) : ∃ e rest, encode (b :: bytes) = e :: rest := by
  match bytes with
  | [] => exact ⟨_, _, rfl⟩
  | [_] => exact ⟨_, _, rfl⟩
  | _ :: _ :: _ => exact ⟨_, _, rfl⟩

/-- What is encoded is decoded. -/
theorem decodeFrom_encode (offset : Nat) (bytes : List UInt8) : decodeFrom offset (encode bytes) = .ok bytes := by
  induction bytes using encode.induct generalizing offset with
  | case1 => rfl
  | case2 a => exact decodeLast_one offset a
  | case3 a b => exact decodeLast_two offset a b
  | case4 a b c rest ih =>
    cases rest with
    | nil => exact decodeLast_three offset a b c
    | cons r rest =>
      obtain ⟨e, es, hes⟩ := exists_encode_cons r rest
      have ha := a.toNat_lt
      have hb := b.toNat_lt
      have hc := c.toNat_lt
      have hmore := ih (offset + 4)
      rw [hes] at hmore
      rw [encode, hes, decodeFrom, valueAt_symbol (by omega), valueAt_symbol (by omega), valueAt_symbol (by omega),
        valueAt_symbol (by omega), hmore]
      show Except.ok (threeBytes _ _ _ _ ++ r :: rest) = _
      rw [threeBytes_of_bytes]
      rfl

/-- The text comes in groups of four. -/
theorem length_encode (bytes : List UInt8) : (encode bytes).length % 4 = 0 := by
  induction bytes using encode.induct with
  | case1 => rfl
  | case2 a => simp [encode]
  | case3 a b => simp [encode]
  | case4 a b c rest ih =>
    show ((encode rest).length + 4) % 4 = 0
    omega

/-- No text of bytes has a byte too many. -/
theorem oddByte_encode (bytes : List UInt8) : oddByte (encode bytes) = none := by
  have hlength := length_encode bytes
  rw [oddByte]
  split
  · simp [hlength]
  · rfl

/-- A text is accepted for some bytes exactly if it is the text of these bytes. -/
theorem decode_eq_ok_iff {text bytes : List UInt8} : decode text = .ok bytes ↔ text = encode bytes := by
  constructor
  · intro h
    rw [decode] at h
    split at h
    · cases h
    · exact encode_of_decodeFrom h
  · rintro rfl
    rw [decode, oddByte_encode]
    exact decodeFrom_encode 0 bytes

/-! ## The standard form -/

/-- The bits of a number, the highest first. -/
def bits (width n : Nat) : List Bool :=
  (List.range width).map fun i => (n >>> (width - 1 - i)) % 2 = 1

/-- The standard text of bytes: their bits in groups of six, with zeros behind the last ones, each group written as
its symbol, and then the padding. -/
def IsTextOf (text bytes : List UInt8) : Prop :=
  ∃ (groups : List (Fin 64)) (pads : Nat),
    pads < 3 ∧ text = groups.map letter ++ List.replicate pads pad ∧
      groups.flatMap (fun n : Fin 64 => bits 6 n.val) =
        bytes.flatMap (fun b => bits 8 b.toNat) ++ List.replicate (2 * pads) false

theorem length_bits (width n : Nat) : (bits width n).length = width := by
  simp [bits]

/-- The number that has these bits. -/
def ofBits (bs : List Bool) : Nat :=
  bs.foldl (fun n b => 2 * n + b.toNat) 0

theorem ofBits_bits : ∀ n : Fin 64, ofBits (bits 6 n) = n := by
  decide +kernel

theorem bits_injective {m n : Fin 64} (h : bits 6 m = bits 6 n) : m = n := by
  have hm := ofBits_bits m
  rw [h, ofBits_bits n] at hm
  exact Fin.ext hm.symm

theorem length_flatMap_bits {α : Type} (width : Nat) (f : α → Nat) (xs : List α) :
    (xs.flatMap fun x => bits width (f x)).length = width * xs.length := by
  induction xs with
  | nil => rfl
  | cons x xs ih =>
    rw [List.flatMap_cons, List.length_append, ih, length_bits, List.length_cons, Nat.mul_add_one, Nat.add_comm]

theorem flatMap_bits_injective {groups groups' : List (Fin 64)}
    (h : groups.flatMap (fun n : Fin 64 => bits 6 n.val) = groups'.flatMap fun n : Fin 64 => bits 6 n.val) :
    groups = groups' := by
  induction groups generalizing groups' with
  | nil =>
    cases groups' with
    | nil => rfl
    | cons n groups' => cases h
  | cons m groups ih =>
    cases groups' with
    | nil => cases h
    | cons n groups' =>
      rw [List.flatMap_cons, List.flatMap_cons] at h
      obtain ⟨hfirst, hrest⟩ := List.append_inj h (by rw [length_bits, length_bits])
      rw [bits_injective hfirst, ih hrest]

/-- Four symbols hold the bits of three bytes. -/
theorem bits_three (a b c : UInt8) :
    bits 6 (a.toNat / 4) ++ bits 6 (a.toNat % 4 * 16 + b.toNat / 16) ++
      bits 6 (b.toNat % 16 * 4 + c.toNat / 64) ++ bits 6 (c.toNat % 64) =
        bits 8 a.toNat ++ bits 8 b.toNat ++ bits 8 c.toNat := by
  have ha := a.toNat_lt
  have hb := b.toNat_lt
  have hc := c.toNat_lt
  simp [bits, List.range_succ, Nat.shiftRight_eq_div_pow]
  and_intros <;> omega

theorem bits_two (a b : UInt8) :
    bits 6 (a.toNat / 4) ++ bits 6 (a.toNat % 4 * 16 + b.toNat / 16) ++ bits 6 (b.toNat % 16 * 4) =
      bits 8 a.toNat ++ bits 8 b.toNat ++ List.replicate 2 false := by
  have ha := a.toNat_lt
  have hb := b.toNat_lt
  simp [bits, List.range_succ, Nat.shiftRight_eq_div_pow]
  and_intros <;> omega

theorem bits_one (a : UInt8) :
    bits 6 (a.toNat / 4) ++ bits 6 (a.toNat % 4 * 16) = bits 8 a.toNat ++ List.replicate 4 false := by
  have ha := a.toNat_lt
  simp [bits, List.range_succ, Nat.shiftRight_eq_div_pow]
  and_intros <;> omega

/-- Three more bytes in front. -/
theorem IsTextOf.cons {text bytes : List UInt8} (h : IsTextOf text bytes) (a b c : UInt8) :
    IsTextOf (symbol (a.toNat / 4) :: symbol (a.toNat % 4 * 16 + b.toNat / 16) ::
      symbol (b.toNat % 16 * 4 + c.toNat / 64) :: symbol (c.toNat % 64) :: text) (a :: b :: c :: bytes) := by
  have ha := a.toNat_lt
  have hb := b.toNat_lt
  have hc := c.toNat_lt
  obtain ⟨groups, pads, hpads, rfl, hbits⟩ := h
  have hw : a.toNat / 4 < 64 := by omega
  have hx : a.toNat % 4 * 16 + b.toNat / 16 < 64 := by omega
  have hy : b.toNat % 16 * 4 + c.toNat / 64 < 64 := by omega
  have hz : c.toNat % 64 < 64 := by omega
  refine ⟨⟨_, hw⟩ :: ⟨_, hx⟩ :: ⟨_, hy⟩ :: ⟨_, hz⟩ :: groups, pads, hpads, ?_, ?_⟩
  · simp only [List.map_cons, letter_eq, List.cons_append]
  · simp only [List.flatMap_cons, hbits, ← List.append_assoc, bits_three]

/-- The encoder writes the text that the bits of the bytes call for. -/
theorem isTextOf_encode (bytes : List UInt8) : IsTextOf (encode bytes) bytes := by
  induction bytes using encode.induct with
  | case1 => exact ⟨[], 0, by decide, rfl, rfl⟩
  | case2 a =>
    have ha := a.toNat_lt
    have hw : a.toNat / 4 < 64 := by omega
    have hx : a.toNat % 4 * 16 < 64 := by omega
    refine ⟨[⟨_, hw⟩, ⟨_, hx⟩], 2, by decide, ?_, ?_⟩
    · simp [encode, letter_eq]
    · simpa using bits_one a
  | case3 a b =>
    have ha := a.toNat_lt
    have hb := b.toNat_lt
    have hw : a.toNat / 4 < 64 := by omega
    have hx : a.toNat % 4 * 16 + b.toNat / 16 < 64 := by omega
    have hy : b.toNat % 16 * 4 < 64 := by omega
    refine ⟨[⟨_, hw⟩, ⟨_, hx⟩, ⟨_, hy⟩], 1, by decide, ?_, ?_⟩
    · simp [encode, letter_eq]
    · simpa using bits_two a b
  | case4 a b c rest ih => exact ih.cons a b c

/-- Bytes have no more than one standard text. -/
theorem IsTextOf.unique {text text' bytes : List UInt8} (h : IsTextOf text bytes) (h' : IsTextOf text' bytes) :
    text = text' := by
  obtain ⟨groups, pads, hpads, rfl, hbits⟩ := h
  obtain ⟨groups', pads', hpads', rfl, hbits'⟩ := h'
  have hlength := congrArg List.length hbits
  have hlength' := congrArg List.length hbits'
  rw [List.length_append, List.length_replicate, length_flatMap_bits, length_flatMap_bits] at hlength hlength'
  -- the number of bits tells the padding
  have hsame : pads = pads' := by omega
  subst hsame
  rw [flatMap_bits_injective (hbits.trans hbits'.symm)]

/-- No other text has these bits. -/
theorem isTextOf_iff {text bytes : List UInt8} : IsTextOf text bytes ↔ text = encode bytes := by
  constructor
  · intro h
    exact h.unique (isTextOf_encode bytes)
  · rintro rfl
    exact isTextOf_encode bytes

/-! ## As a string -/

/-- The standard text of bytes as a string. -/
def text (bytes : List UInt8) : String :=
  String.ofList ((encode bytes).map fun b => Char.ofNat b.toNat)

theorem ascii_symbol {n : Nat} (h : n < 64) : (symbol n).toNat < 0x80 := by
  have hall : ∀ n : Fin 64, (symbol n).toNat < 0x80 := by decide
  exact hall ⟨n, h⟩

theorem ascii_of_mem_encode {bytes : List UInt8} {b : UInt8} (h : b ∈ encode bytes) : b.toNat < 0x80 := by
  obtain ⟨groups, pads, -, htext, -⟩ := isTextOf_encode bytes
  rw [htext] at h
  rcases List.mem_append.mp h with h | h
  · obtain ⟨n, -, rfl⟩ := List.mem_map.mp h
    rw [letter_eq]
    exact ascii_symbol n.isLt
  · rw [List.eq_of_mem_replicate h]
    decide

/-- As bytes the text is what the encoder writes. -/
theorem ofString_text (bytes : List UInt8) : Utf8.ofString (text bytes) = encode bytes := by
  rw [Utf8.ofString, text, String.toList_ofList, Utf8.encode_ofAscii fun b hb => ascii_of_mem_encode hb]

theorem ofString_eq_encode_iff {encoded : String} {bytes : List UInt8} :
    Utf8.ofString encoded = encode bytes ↔ encoded = text bytes := by
  rw [← ofString_text, Utf8.ofString_injective.eq_iff]

end IndexFs.Base64

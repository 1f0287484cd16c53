import IndexFs.Proofs.Url.Number

/-!
# IPv6 addresses

The normal form of an IPv6 address is read as the same eight pieces (`ipv6Pieces?_body`), and so a host in
brackets is in its normal form once it was read (`bracketedHost_normal`).
-/

namespace IndexFs.Url

/-- Eight pieces of 16 bits. -/
structure IsAddress (ns : List Nat) : Prop where
  length : ns.length = 8
  pieces : ∀ n ∈ ns, n < 0x10000

/-! ## What is read -/

/-- A piece has at most four digits, and so fits into two bytes. -/
theorem hexPiece?_lt {cs : List Char} {n : Nat} (h : hexPiece? cs = some n) : n < 0x10000 := by
  unfold hexPiece? at h
  split at h
  · cases h
  · next hlength =>
    rw [Bool.or_eq_true, decide_eq_true_eq, not_or, Nat.not_lt] at hlength
    calc n < 16 ^ cs.length := digitsValue?_lt cs h
      _ ≤ 16 ^ 4 := Nat.pow_le_pow_right (by decide) hlength.2

/-- A part of a dotted address fits into a byte. -/
theorem ipv4Part?_le {cs : List Char} {n : Nat} (h : ipv4Part? cs = some n) : n ≤ 255 := by
  unfold ipv4Part? at h
  obtain ⟨m, -, h⟩ := Option.bind_eq_some_iff.mp h
  split at h
  · cases h
  · cases h
    decide
  · cases h
  · split at h
    · cases h
      assumption
    · cases h

/-- A dotted address is two pieces of two bytes. -/
theorem dottedPieces?_lt {cs : List Char} {ns : List Nat} (h : dottedPieces? cs = some ns) :
    ∀ n ∈ ns, n < 0x10000 := by
  unfold dottedPieces? at h
  split at h
  · next a b c d hparts =>
    have hle : ∀ n ∈ [a, b, c, d], n ≤ 255 := fun n hn => by
      obtain ⟨part, -, hpart⟩ := exists_of_mem_mapM hparts n hn
      exact ipv4Part?_le hpart
    simp only [List.forall_mem_cons] at hle
    cases h
    intro n hn
    rcases List.mem_pair.mp hn with rfl | rfl <;> omega
  · cases h

/-- All pieces of an address fit into two bytes. -/
theorem pieces?_lt {dotted : Bool} {parts : List (List Char)} {ns : List Nat}
    (h : pieces? dotted parts = some ns) : ∀ n ∈ ns, n < 0x10000 := by
  induction parts generalizing ns with
  | nil =>
    cases h
    exact fun _ hn => nomatch hn
  | cons part parts ih =>
    cases parts with
    | nil =>
      unfold pieces? at h
      split at h
      · -- only the last piece may be a dotted address, which stands for two
        exact dottedPieces?_lt h
      · obtain ⟨n, hn, rfl⟩ := Option.map_eq_some_iff.mp h
        intro m hm
        rw [List.mem_singleton.mp hm]
        exact hexPiece?_lt hn
    | cons next parts =>
      unfold pieces? at h
      obtain ⟨n, hn, h⟩ := Option.bind_eq_some_iff.mp h
      obtain ⟨ms, hms, h⟩ := Option.bind_eq_some_iff.mp h
      cases h
      intro m hm
      rcases List.mem_cons.mp hm with rfl | hm
      · exact hexPiece?_lt hn
      · exact ih hms m hm

/-- All pieces on one side of the double colon fit into two bytes. -/
theorem side?_lt {dotted : Bool} {cs : List Char} {ns : List Nat} (h : side? dotted cs = some ns) :
    ∀ n ∈ ns, n < 0x10000 := by
  unfold side? at h
  split at h
  · cases h
    exact fun _ hn => nomatch hn
  · exact pieces?_lt h

/-- What was read as an address is one: eight pieces of two bytes. -/
theorem isAddress_of_ipv6Pieces? {cs : List Char} {ns : List Nat} (h : ipv6Pieces? cs = some ns) :
    IsAddress ns := by
  unfold ipv6Pieces? at h
  split at h
  · obtain ⟨ms, hms, h⟩ := Option.bind_eq_some_iff.mp h
    -- without a double colon the eight pieces are all written
    split at h
    · next hlength =>
      cases h
      exact ⟨hlength, side?_lt hms⟩
    · cases h
  · obtain ⟨xs, hxs, h⟩ := Option.bind_eq_some_iff.mp h
    obtain ⟨ys, hys, h⟩ := Option.bind_eq_some_iff.mp h
    -- with one, the pieces that are left out are zero
    split at h
    · next hlength =>
      cases h
      refine ⟨?_, fun n hn => ?_⟩
      · rw [List.length_append, List.length_append, List.length_replicate]
        omega
      · rcases List.mem_append.mp hn with hn | hn
        · rcases List.mem_append.mp hn with hn | hn
          · exact side?_lt hxs n hn
          · rw [List.eq_of_mem_replicate hn]
            decide
        · exact side?_lt hys n hn
    · cases h

/-! ## What is written -/

/-- The digits of a piece. -/
theorem hexDigit_of_mem {n : Nat} {c : Char} (h : c ∈ Nat.toDigits 16 n) :
    ∃ d : Fin 16, c = Nat.digitChar d := by
  obtain ⟨d, hd, rfl⟩ := exists_digit_of_mem (by decide) h
  exact ⟨⟨d, hd⟩, rfl⟩

theorem digitChar_ne (d : Fin 16) : Nat.digitChar d ≠ ':' ∧ Nat.digitChar d ≠ '.' := by
  revert d
  decide

/-- Pieces are written with digits and colons. -/
theorem mem_joinPieces {ns : List Nat} {c : Char} (h : c ∈ joinPieces ns) :
    c = ':' ∨ ∃ d : Fin 16, c = Nat.digitChar d := by
  rcases mem_intercalate h with hmark | ⟨part, hpart, hmem⟩
  · exact .inl hmark
  · obtain ⟨n, -, rfl⟩ := List.mem_map.mp hpart
    exact .inr (hexDigit_of_mem hmem)

/-- A piece is read back. -/
theorem hexPiece?_toDigits {n : Nat} (h : n < 0x10000) : hexPiece? (Nat.toDigits 16 n) = some n := by
  have hlength : (Nat.toDigits 16 n).length ≤ 4 := length_toDigits_le (by decide) h
  unfold hexPiece?
  rw [if_neg]
  · exact digitsValue?_toDigits (by decide) (by decide) n
  · rw [Bool.or_eq_true, List.isEmpty_iff, decide_eq_true_eq, not_or]
    exact ⟨Nat.toDigits_ne_nil, Nat.not_lt.mpr hlength⟩

/-- Pieces are read back one by one. -/
theorem pieces?_map (dotted : Bool) {ns : List Nat} (h : ∀ n ∈ ns, n < 0x10000) :
    pieces? dotted (ns.map (Nat.toDigits 16)) = some ns := by
  induction ns with
  | nil => rfl
  | cons n ns ih =>
    have hn := hexPiece?_toDigits (h n List.mem_cons_self)
    cases ns with
    | nil =>
      have hdot : (Nat.toDigits 16 n).contains '.' = false := by
        rw [List.contains_eq_mem, decide_eq_false_iff_not]
        intro hmem
        obtain ⟨d, hd⟩ := hexDigit_of_mem hmem
        exact (digitChar_ne d).2 hd.symm
      rw [List.map_singleton, pieces?, hdot, Bool.and_false, if_neg Bool.false_ne_true, hn]
      rfl
    | cons m ns =>
      have hrest := ih fun k hk => h k (List.mem_cons_of_mem _ hk)
      rw [List.map_cons] at hrest ⊢
      rw [List.map_cons, pieces?, hn, hrest]
      · rfl
      · exact fun hnil => List.cons_ne_nil _ _ hnil

/-- The pieces on one side of the double colon are read back. -/
theorem side?_joinPieces (dotted : Bool) {ns : List Nat} (h : ∀ n ∈ ns, n < 0x10000) :
    side? dotted (joinPieces ns) = some ns := by
  cases ns with
  | nil => rfl
  | cons n ns =>
    have hsplit : splitBy (· = ':') (joinPieces (n :: ns)) = (n :: ns).map (Nat.toDigits 16) := by
      refine splitBy_intercalate (by decide) (List.cons_ne_nil _ _) fun part hpart c hc => ?_
      obtain ⟨m, -, rfl⟩ := List.mem_map.mp hpart
      obtain ⟨d, rfl⟩ := hexDigit_of_mem hc
      exact decide_eq_false (digitChar_ne d).1
    have hne : joinPieces (n :: ns) ≠ [] := by
      intro hnil
      rw [hnil] at hsplit
      exact Nat.toDigits_ne_nil (List.cons.inj hsplit).1.symm
    unfold side?
    rw [if_neg (by rwa [List.isEmpty_iff]), hsplit]
    exact pieces?_map dotted h

/-! ## The double colon -/

/-- A double colon that does not start a text is found behind its first character. -/
theorem splitDouble_cons {c : Char} {cs : List Char} (h : c = ':' → ∀ d ∈ cs.head?, d ≠ ':') :
    splitDouble (c :: cs) = (splitDouble cs).map fun r => (c :: r.1, r.2) :=
  splitDouble.eq_3 c cs fun rest hc hcs => h hc ':' (by rw [hcs]; rfl) rfl

/-- A text without a colon does not hold the double one. -/
theorem splitDouble_append {cs : List Char} (h : ∀ c ∈ cs, c ≠ ':') (rest : List Char) :
    splitDouble (cs ++ rest) = (splitDouble rest).map fun r => (cs ++ r.1, r.2) := by
  induction cs with
  | nil =>
    show splitDouble rest = _
    cases splitDouble rest <;> rfl
  | cons c cs ih =>
    rw [List.cons_append, splitDouble_cons fun hc => absurd hc (h c List.mem_cons_self),
      ih fun d hd => h d (List.mem_cons_of_mem c hd), Option.map_map]
    rfl

theorem joinPieces_cons_cons (n m : Nat) (ns : List Nat) :
    joinPieces (n :: m :: ns) = Nat.toDigits 16 n ++ ':' :: joinPieces (m :: ns) := by
  unfold joinPieces
  rw [List.map_cons, List.map_cons, List.intercalate_cons_cons, List.append_assoc]
  rfl

/-- A piece has no colon in it. -/
theorem hexDigits_ne_colon (n : Nat) : ∀ c ∈ Nat.toDigits 16 n, c ≠ ':' := by
  intro c hc
  obtain ⟨d, rfl⟩ := hexDigit_of_mem hc
  exact (digitChar_ne d).1

/-- Pieces start with a digit. -/
theorem head_joinPieces (n : Nat) (ns : List Nat) (rest : List Char) :
    ∀ c ∈ (joinPieces (n :: ns) ++ rest).head?, c ≠ ':' := by
  have hstart : ∃ more, joinPieces (n :: ns) ++ rest = Nat.toDigits 16 n ++ more := by
    cases ns with
    | nil => exact ⟨rest, by rw [joinPieces, List.map_singleton, List.intercalate_singleton]⟩
    | cons m ns => exact ⟨_, by rw [joinPieces_cons_cons, List.append_assoc]⟩
  obtain ⟨more, hmore⟩ := hstart
  intro c hc
  rw [hmore, List.head?_append_of_ne_nil _ Nat.toDigits_ne_nil] at hc
  exact hexDigits_ne_colon n c (List.mem_of_head? hc)

/-- Pieces hold no double colon, and one that stands behind them is found there. -/
theorem splitDouble_joinPieces (ns : List Nat) (rest : List Char) :
    splitDouble (joinPieces ns ++ rest) = (splitDouble rest).map fun r => (joinPieces ns ++ r.1, r.2) := by
  induction ns with
  | nil =>
    show splitDouble rest = _
    cases splitDouble rest <;> rfl
  | cons n ns ih =>
    cases ns with
    | nil =>
      unfold joinPieces
      rw [List.map_singleton, List.intercalate_singleton]
      exact splitDouble_append (hexDigits_ne_colon n) rest
    | cons m ns =>
      rw [joinPieces_cons_cons, List.append_assoc, List.cons_append,
        splitDouble_append (hexDigits_ne_colon n), splitDouble_cons fun _ => head_joinPieces m ns rest, ih,
        Option.map_map, Option.map_map]
      refine congrArg (fun f => Option.map f (splitDouble rest)) (funext fun r => ?_)
      show (Nat.toDigits 16 n ++ ':' :: (joinPieces (m :: ns) ++ r.1), r.2) = _
      rw [List.append_assoc]
      rfl

/-! ## The longest run of zeros -/

/-- The list has a run of zeros at a place, of some length. -/
def IsRun (ns : List Nat) (run : Nat × Nat) : Prop :=
  ns = ns.take run.1 ++ List.replicate run.2 0 ++ ns.drop (run.1 + run.2)

/-- The zeros at the start of the rest are a run of the whole. -/
theorem isRun_leadingZeros (before ns : List Nat) : IsRun (before ++ ns) (before.length, leadingZeros ns) := by
  have hzeros : ns.takeWhile (· = 0) = List.replicate (leadingZeros ns) 0 :=
    List.eq_replicate_iff.mpr ⟨rfl, fun n hn => by simpa using of_mem_takeWhile hn⟩
  have hrest : ns.drop (leadingZeros ns) = ns.dropWhile (· = 0) := by
    conv_lhs => rw [← List.takeWhile_append_dropWhile (p := (· = 0)) (l := ns)]
    exact List.drop_left' (by rw [List.takeWhile_append_dropWhile]; rfl)
  show before ++ ns = (before ++ ns).take before.length ++ List.replicate (leadingZeros ns) 0 ++
    (before ++ ns).drop (before.length + leadingZeros ns)
  rw [List.take_left, List.drop_length_add_append, List.append_assoc, ← hzeros, hrest, List.takeWhile_append_dropWhile]

/-- The run of zeros that is left out is one of the address. -/
theorem isRun_longestZeros {before ns : List Nat} {best : Nat × Nat} (hbest : IsRun (before ++ ns) best) :
    IsRun (before ++ ns) (longestZeros before.length best ns) := by
  induction ns generalizing before best with
  | nil => exact hbest
  | cons n ns ih =>
    have hnext : IsRun (before ++ n :: ns)
        (if best.2 < leadingZeros (n :: ns) then (before.length, leadingZeros (n :: ns)) else best) := by
      split
      · exact isRun_leadingZeros before (n :: ns)
      · exact hbest
    rw [List.append_cons] at hnext ⊢
    have h := ih hnext
    rwa [List.length_append] at h

/-! ## The normal form -/

/-- The text between the brackets. -/
def ipv6Body (ns : List Nat) : List Char :=
  let run := longestZeros 0 (0, 0) ns
  if run.2 < 2 then joinPieces ns
  else joinPieces (ns.take run.1) ++ [':', ':'] ++ joinPieces (ns.drop (run.1 + run.2))

theorem ipv6Chars_eq (ns : List Nat) : ipv6Chars ns = '[' :: (ipv6Body ns ++ [']']) :=
  rfl

/-- An address is written with digits and colons, also where zeros are left out. -/
theorem mem_ipv6Body {ns : List Nat} {c : Char} (h : c ∈ ipv6Body ns) :
    c = ':' ∨ ∃ d : Fin 16, c = Nat.digitChar d := by
  unfold ipv6Body at h
  dsimp only at h
  split at h
  · exact mem_joinPieces h
  · rcases List.mem_append.mp h with h | h
    · rcases List.mem_append.mp h with h | h
      · exact mem_joinPieces h
      · rcases List.mem_pair.mp h with rfl | rfl <;> exact .inl rfl
    · exact mem_joinPieces h

/-- The normal form is read as the same pieces. -/
theorem ipv6Pieces?_body {ns : List Nat} (h : IsAddress ns) : ipv6Pieces? (ipv6Body ns) = some ns := by
  unfold ipv6Body
  generalize hrun : longestZeros 0 (0, 0) ns = run
  dsimp only
  split
  · -- no run of zeros is long enough to be shortened
    have hwhole := splitDouble_joinPieces ns []
    rw [List.append_nil] at hwhole
    unfold ipv6Pieces?
    rw [hwhole]
    show (side? true (joinPieces ns)).bind (fun ns => if ns.length = 8 then some ns else none) = _
    rw [side?_joinPieces true h.pieces]
    exact if_pos h.length
  · next hlong =>
    -- the double colon stands for the longest run, and the pieces beside it are read separately
    have hsplit : ns = ns.take run.1 ++ List.replicate run.2 0 ++ ns.drop (run.1 + run.2) := by
      have hrun' : IsRun ([] ++ ns) (longestZeros ([] : List Nat).length (0, 0) ns) := isRun_longestZeros rfl
      rwa [List.nil_append, List.length_nil, hrun] at hrun'
    generalize ns.take run.1 = xs at *
    generalize ns.drop (run.1 + run.2) = ys at *
    subst hsplit
    have hlength := h.length
    rw [List.length_append, List.length_append, List.length_replicate] at hlength
    have hxs : ∀ n ∈ xs, n < 0x10000 := fun n hn =>
      h.pieces n (List.mem_append_left _ (List.mem_append_left _ hn))
    have hys : ∀ n ∈ ys, n < 0x10000 := fun n hn => h.pieces n (List.mem_append_right _ hn)
    have hdouble : splitDouble (joinPieces xs ++ [':', ':'] ++ joinPieces ys) =
        some (joinPieces xs, joinPieces ys) := by
      rw [List.append_assoc, splitDouble_joinPieces]
      show some (joinPieces xs ++ [], joinPieces ys) = _
      rw [List.append_nil]
    unfold ipv6Pieces?
    rw [hdouble]
    show (side? false (joinPieces xs)).bind (fun xs => (side? true (joinPieces ys)).bind fun ys =>
      if xs.length + ys.length ≤ 7 then
        some (xs ++ List.replicate (8 - (xs.length + ys.length)) 0 ++ ys) else none) = _
    rw [side?_joinPieces false hxs, side?_joinPieces true hys]
    show (if xs.length + ys.length ≤ 7 then
      some (xs ++ List.replicate (8 - (xs.length + ys.length)) 0 ++ ys) else none) = _
    -- the pieces that are filled in are as many as the run has
    rw [if_pos (by omega), show 8 - (xs.length + ys.length) = run.2 by omega]

/-- A host in brackets that was read is in its normal form. -/
theorem bracketedHost_normal {cs host : List Char} (h : bracketedHost cs = .ok host) :
    ∃ body, host = '[' :: (body ++ [']']) ∧ (∀ c ∈ body, c = ':' ∨ ∃ d : Fin 16, c = Nat.digitChar d) ∧
      bracketedHost (body ++ [']']) = .ok host := by
  unfold bracketedHost at h
  split at h
  · split at h
    · next ns hns =>
      cases h
      refine ⟨ipv6Body ns, ipv6Chars_eq ns, fun c hc => mem_ipv6Body hc, ?_⟩
      unfold bracketedHost
      rw [List.getLast?_concat, if_pos rfl, List.dropLast_concat,
        ipv6Pieces?_body (isAddress_of_ipv6Pieces? hns)]
    · cases h
  · cases h

end IndexFs.Url

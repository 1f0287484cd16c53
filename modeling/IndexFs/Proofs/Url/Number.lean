import IndexFs.Proofs.Url.Split
import Mathlib.Algebra.Group.Nat.Defs
import Mathlib.Data.List.Induction

/-!
# Numbers in hosts and ports

The digits of a number, read in the same base, are the number (`digitsValue?_toDigits`).
-/

namespace IndexFs.Url

theorem hexDigit?_digitChar {d : Nat} (hd : d < 16) : hexDigit? (Nat.digitChar d) = some d := by
  have h : ∀ d : Fin 16, hexDigit? (Nat.digitChar d) = some d.val := by decide
  exact h ⟨d, hd⟩

theorem digitsValue?_append (base : Nat) (cs : List Char) (c : Char) :
    digitsValue? base (cs ++ [c]) = (digitsValue? base cs).bind fun n =>
      (hexDigit? c).bind fun d => if d < base then some (n * base + d) else none := by
  unfold digitsValue?
  rw [List.foldlM_append]
  refine congrArg _ (funext fun n => ?_)
  rw [List.foldlM_cons]
  cases hexDigit? c with
  | none => rfl
  | some d =>
    show (if d < base then some (n * base + d) else none).bind some =
      if d < base then some (n * base + d) else none
    split <;> rfl

/-- The digits of a number are read as the number. -/
theorem digitsValue?_toDigits {base : Nat} (hbase : 1 < base) (hle : base ≤ 16) (n : Nat) :
    digitsValue? base (Nat.toDigits base n) = some n := by
  have hdigit : ∀ m, digitsValue? base [Nat.digitChar (m % base)] = some (m % base) := by
    intro m
    have hlt := Nat.mod_lt m (Nat.lt_trans Nat.zero_lt_one hbase)
    have h := digitsValue?_append base [] (Nat.digitChar (m % base))
    rw [List.nil_append] at h
    rw [h, hexDigit?_digitChar (Nat.lt_of_lt_of_le hlt hle)]
    show (if m % base < base then some (0 * base + m % base) else none) = _
    rw [if_pos hlt, Nat.zero_mul, Nat.zero_add]
  -- all digits but the last are those of the quotient
  induction n using Nat.strongRecOn with
  | ind n ih =>
    by_cases hn : n < base
    · rw [Nat.toDigits_of_lt_base hn]
      have h := hdigit n
      rwa [Nat.mod_eq_of_lt hn] at h
    · have hlt := Nat.mod_lt n (Nat.lt_trans Nat.zero_lt_one hbase)
      rw [Nat.toDigits_of_base_le hbase (Nat.not_lt.mp hn), digitsValue?_append,
        ih (n / base) (Nat.div_lt_self (by omega) hbase)]
      show ((hexDigit? (Nat.digitChar (n % base))).bind fun d =>
        if d < base then some (n / base * base + d) else none) = some n
      rw [hexDigit?_digitChar (Nat.lt_of_lt_of_le hlt hle)]
      show (if n % base < base then some (n / base * base + n % base) else none) = some n
      rw [if_pos hlt, Nat.div_add_mod']

/-- Every digit of a number is one of the base. -/
theorem exists_digit_of_mem {base : Nat} (hbase : 1 < base) {n : Nat} {c : Char}
    (h : c ∈ Nat.toDigits base n) : ∃ d < base, c = Nat.digitChar d := by
  induction n using Nat.strongRecOn with
  | ind n ih =>
    by_cases hn : n < base
    · rw [Nat.toDigits_of_lt_base hn] at h
      exact ⟨n, hn, List.mem_singleton.mp h⟩
    · rw [Nat.toDigits_of_base_le hbase (Nat.not_lt.mp hn)] at h
      rcases List.mem_append.mp h with h | h
      · exact ih (n / base) (Nat.div_lt_self (by omega) hbase) h
      · exact ⟨n % base, Nat.mod_lt n (by omega), List.mem_singleton.mp h⟩

/-- How many digits a small number has. -/
theorem length_toDigits_le {base : Nat} (hbase : 1 < base) {n k : Nat} (h : n < base ^ (k + 1)) :
    (Nat.toDigits base n).length ≤ k + 1 := by
  induction k generalizing n with
  | zero =>
    rw [Nat.zero_add, Nat.pow_one] at h
    rw [Nat.toDigits_of_lt_base h]
    exact Nat.le_refl 1
  | succ k ih =>
    by_cases hn : n < base
    · rw [Nat.toDigits_of_lt_base hn]
      exact Nat.le_add_left _ _
    · rw [Nat.toDigits_of_base_le hbase (Nat.not_lt.mp hn), List.length_append]
      have hdiv : n / base < base ^ (k + 1) := by
        rw [Nat.div_lt_iff_lt_mul (by omega)]
        rwa [Nat.pow_succ] at h
      exact Nat.add_le_add_right (ih hdiv) 1

/-- A number is smaller than the first one with more digits. -/
theorem digitsValue?_lt {base : Nat} (cs : List Char) {n : Nat} (h : digitsValue? base cs = some n) :
    n < base ^ cs.length := by
  induction cs using List.reverseRecOn generalizing n with
  | nil =>
    cases h
    exact Nat.one_pos
  | append_singleton cs c ih =>
    rw [digitsValue?_append] at h
    obtain ⟨m, hm, h⟩ := Option.bind_eq_some_iff.mp h
    obtain ⟨d, -, h⟩ := Option.bind_eq_some_iff.mp h
    split at h
    · next hd =>
      cases h
      have hle : (m + 1) * base ≤ base ^ cs.length * base := Nat.mul_le_mul_right base (ih hm)
      rw [List.length_append, List.length_singleton, Nat.pow_succ]
      rw [Nat.add_one_mul] at hle
      omega
    · cases h

/-! ## Lists of numbers -/

/-- Whatever comes out of a list comes from one of its members. -/
theorem exists_of_mem_mapM {α β : Type} {f : α → Option β} {l : List α} {ys : List β}
    (h : l.mapM f = some ys) : ∀ y ∈ ys, ∃ x ∈ l, f x = some y := by
  induction l generalizing ys with
  | nil =>
    cases h
    exact fun _ hy => nomatch hy
  | cons x l ih =>
    rw [List.mapM_cons] at h
    obtain ⟨y, hy, h⟩ := Option.bind_eq_some_iff.mp h
    obtain ⟨zs, hzs, h⟩ := Option.bind_eq_some_iff.mp h
    cases h
    intro z hz
    rcases List.mem_cons.mp hz with rfl | hz
    · exact ⟨x, List.mem_cons_self, hy⟩
    · obtain ⟨x', hx', hfx'⟩ := ih hzs z hz
      exact ⟨x', List.mem_cons_of_mem _ hx', hfx'⟩

theorem mapM_map_eq_some {α β : Type} {f : α → Option β} {g : β → α} {ys : List β}
    (h : ∀ y ∈ ys, f (g y) = some y) : (ys.map g).mapM f = some ys := by
  induction ys with
  | nil => rfl
  | cons y ys ih =>
    rw [List.map_cons, List.mapM_cons, h y List.mem_cons_self, ih fun z hz => h z (List.mem_cons_of_mem _ hz)]
    rfl

end IndexFs.Url

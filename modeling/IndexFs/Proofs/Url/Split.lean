import IndexFs.Url.Parser
import Mathlib.Data.List.Basic

/-!
# Taking texts apart

A text that was put together of parts is taken apart into the same parts, where the marks between them do not
stand in the parts themselves.
-/

namespace IndexFs.Url

variable {p : Char → Bool} {a b : List Char}

/-! ## Up to a mark -/

theorem of_mem_takeWhile {α : Type} {p : α → Bool} {l : List α} {x : α} (h : x ∈ l.takeWhile p) :
    p x = true :=
  List.all_eq_true.mp List.all_takeWhile x h

/-- Where no character of `a` ends it, and `b` is empty or starts with one that does. -/
theorem takeWhile_append_stop (ha : ∀ c ∈ a, p c = true) (hb : ∀ c ∈ b.head?, p c = false) :
    (a ++ b).takeWhile p = a := by
  rw [List.takeWhile_append_of_pos ha]
  cases b with
  | nil => exact List.append_nil a
  | cons c b => rw [List.takeWhile_cons_of_neg (by simp [hb c rfl]), List.append_nil]

/-- What is dropped ends where the next part starts. -/
theorem dropWhile_append_stop (ha : ∀ c ∈ a, p c = true) (hb : ∀ c ∈ b.head?, p c = false) :
    (a ++ b).dropWhile p = b := by
  rw [List.dropWhile_append_of_pos ha]
  cases b with
  | nil => rfl
  | cons c b => rw [List.dropWhile_cons_of_neg (by simp [hb c rfl])]

theorem takeWhile_eq_self (ha : ∀ c ∈ a, p c = true) : a.takeWhile p = a := by
  have h := takeWhile_append_stop (b := []) ha (fun _ hc => nomatch hc)
  rwa [List.append_nil] at h

theorem dropWhile_eq_nil (ha : ∀ c ∈ a, p c = true) : a.dropWhile p = [] := by
  have h := dropWhile_append_stop (b := []) ha (fun _ hc => nomatch hc)
  rwa [List.append_nil] at h

theorem dropWhile_eq_self (ha : ∀ c ∈ a.head?, p c = false) : a.dropWhile p = a :=
  dropWhile_append_stop (a := []) (fun _ hc => nomatch hc) ha

/-! ## At every mark -/

/-- A text is split into at least one part. -/
theorem splitBy_ne_nil (p : Char → Bool) (cs : List Char) : splitBy p cs ≠ [] := by
  cases cs with
  | nil => exact List.cons_ne_nil _ _
  | cons c cs =>
    unfold splitBy
    split
    · exact List.cons_ne_nil _ _
    · split <;> exact List.cons_ne_nil _ _

/-- A character that does not separate belongs to the first part. -/
theorem splitBy_cons_of_neg {c : Char} (hc : p c = false) {part : List Char} {parts : List (List Char)}
    {cs : List Char} (h : splitBy p cs = part :: parts) : splitBy p (c :: cs) = (c :: part) :: parts := by
  rw [splitBy, hc, h]
  rfl

/-- No mark stands in a part. -/
theorem notMark_of_mem_splitBy {cs part : List Char} (h : part ∈ splitBy p cs) {c : Char} (hc : c ∈ part) :
    p c = false := by
  induction cs generalizing part with
  | nil =>
    rw [List.mem_singleton.mp h] at hc
    cases hc
  | cons d cs ih =>
    cases hd : p d with
    | true =>
      rw [splitBy, hd, if_pos rfl] at h
      rcases List.mem_cons.mp h with rfl | h
      · cases hc
      · exact ih h hc
    | false =>
      obtain ⟨first, parts, hparts⟩ := List.exists_cons_of_ne_nil (splitBy_ne_nil p cs)
      rw [splitBy_cons_of_neg hd hparts] at h
      rcases List.mem_cons.mp h with rfl | h
      · rcases List.mem_cons.mp hc with rfl | hc
        · exact hd
        · exact ih (hparts ▸ List.mem_cons_self) hc
      · exact ih (hparts ▸ List.mem_cons_of_mem _ h) hc

/-- A text without separators is one part. -/
theorem splitBy_eq_singleton (ha : ∀ c ∈ a, p c = false) : splitBy p a = [a] := by
  induction a with
  | nil => rfl
  | cons c a ih =>
    exact splitBy_cons_of_neg (ha c List.mem_cons_self) (ih fun d hd => ha d (List.mem_cons_of_mem c hd))

/-- A text is split at its first separator. -/
theorem splitBy_append {s : Char} (ha : ∀ c ∈ a, p c = false) (hs : p s = true) (rest : List Char) :
    splitBy p (a ++ s :: rest) = a :: splitBy p rest := by
  induction a with
  | nil =>
    show splitBy p (s :: rest) = _
    rw [splitBy, hs]
    rfl
  | cons c a ih =>
    exact splitBy_cons_of_neg (ha c List.mem_cons_self) (ih fun d hd => ha d (List.mem_cons_of_mem c hd))

/-- Parts with marks between them are the parts again. -/
theorem splitBy_intercalate {s : Char} (hs : p s = true) {parts : List (List Char)} (hne : parts ≠ [])
    (hparts : ∀ part ∈ parts, ∀ c ∈ part, p c = false) : splitBy p ([s].intercalate parts) = parts := by
  induction parts with
  | nil => exact absurd rfl hne
  | cons part parts ih =>
    have hpart := hparts part List.mem_cons_self
    cases parts with
    | nil =>
      rw [List.intercalate_singleton]
      exact splitBy_eq_singleton hpart
    | cons next parts =>
      rw [List.intercalate_cons_cons, List.append_assoc, List.singleton_append, splitBy_append hpart hs,
        ih (List.cons_ne_nil _ _) fun q hq => hparts q (List.mem_cons_of_mem _ hq)]

/-- What stands in parts with marks between them. -/
theorem mem_intercalate {s c : Char} {parts : List (List Char)} (h : c ∈ [s].intercalate parts) :
    c = s ∨ ∃ part ∈ parts, c ∈ part := by
  induction parts with
  | nil => cases h
  | cons part parts ih =>
    cases parts with
    | nil =>
      rw [List.intercalate_singleton] at h
      exact .inr ⟨part, List.mem_cons_self, h⟩
    | cons next parts =>
      rw [List.intercalate_cons_cons, List.mem_append, List.mem_append, List.mem_singleton] at h
      rcases h with (h | h) | h
      · exact .inr ⟨part, List.mem_cons_self, h⟩
      · exact .inl h
      · obtain hmark | ⟨q, hq, hmem⟩ := ih h
        · exact .inl hmark
        · exact .inr ⟨q, List.mem_cons_of_mem _ hq, hmem⟩

/-! ## The ends of a text -/

/-- Characters that are no controls are not dropped on reading. -/
theorem ne_tab_or_line_end {c : Char} (h : 0x20 ≤ c.toNat) : c ≠ '\t' ∧ c ≠ '\n' ∧ c ≠ '\r' := by
  refine ⟨?_, ?_, ?_⟩ <;> (rintro rfl; exact absurd h (by decide))

/-- A text without tabs and line ends is read as it is. -/
theorem filter_eq_self_of_ne {cs : List Char} (h : ∀ c ∈ cs, c ≠ '\t' ∧ c ≠ '\n' ∧ c ≠ '\r') :
    (cs.filter fun c => !(c = '\t' || c = '\n' || c = '\r')) = cs := by
  refine List.filter_eq_self.mpr fun c hc => ?_
  simp [h c hc]

/-- A text is clean if nothing blank stands at its ends and no tab or line end in it. -/
theorem clean_eq_self {cs : List Char} (hfirst : ∀ c ∈ cs.head?, 0x20 < c.toNat)
    (hlast : ∀ c ∈ cs.getLast?, 0x20 < c.toNat)
    (hchars : ∀ c ∈ cs, c ≠ '\t' ∧ c ≠ '\n' ∧ c ≠ '\r') : clean cs = cs := by
  have htrim : Text.trimBy (fun c => c.toNat ≤ 0x20) cs = cs := by
    unfold Text.trimBy
    rw [dropWhile_eq_self fun c hc => decide_eq_false (Nat.not_le.mpr (hfirst c hc)),
      dropWhile_eq_self fun c hc => decide_eq_false (Nat.not_le.mpr (hlast c ?_)), List.reverse_reverse]
    rwa [List.head?_reverse] at hc
  unfold clean
  rw [htrim, filter_eq_self_of_ne hchars]

/-- Nothing blank stands at the end of a text that was cleaned. -/
theorem lt_of_getLast?_clean (cs : List Char) : ∀ c ∈ (clean cs).getLast?, 0x20 < c.toNat := by
  unfold clean Text.trimBy
  generalize hkept : (cs.dropWhile fun c => decide (c.toNat ≤ 0x20)).reverse.dropWhile
    (fun c => decide (c.toNat ≤ 0x20)) = kept
  cases kept with
  | nil => exact fun _ hc => nomatch hc
  | cons d kept =>
    have hd : 0x20 < d.toNat := by
      have hstop := List.head?_dropWhile_not (fun c : Char => decide (c.toNat ≤ 0x20))
        (cs.dropWhile fun c => decide (c.toNat ≤ 0x20)).reverse
      rw [hkept] at hstop
      exact Nat.not_le.mp (of_decide_eq_false hstop)
    have hchars : ∀ c ∈ [d], c ≠ '\t' ∧ c ≠ '\n' ∧ c ≠ '\r' := fun c hc => by
      rw [List.mem_singleton.mp hc]
      exact ne_tab_or_line_end (Nat.le_of_lt hd)
    intro c hc
    rw [List.reverse_cons, List.filter_append, filter_eq_self_of_ne hchars, List.getLast?_concat,
      Option.mem_some_iff] at hc
    exact hc ▸ hd

/-- A beginning in which nothing is blank is kept whatever follows it. -/
theorem clean_append {front : List Char} (hfront : ∀ c ∈ front, 0x20 < c.toNat) (body : List Char) :
    ∃ rest, clean (front ++ body) = front ++ rest := by
  by_cases hne : front = []
  · subst hne
    exact ⟨clean body, rfl⟩
  · have hfirst : ∀ c ∈ (front ++ body).head?, decide (c.toNat ≤ 0x20) = false := by
      rw [List.head?_append_of_ne_nil _ hne]
      exact fun c hc => decide_eq_false (Nat.not_le.mpr (hfront c (List.mem_of_head? hc)))
    -- from the end, only what follows the beginning is taken away
    have hend : ∀ c ∈ front.reverse.head?, decide (c.toNat ≤ 0x20) = false := fun c hc =>
      decide_eq_false (Nat.not_le.mpr (hfront c (List.mem_reverse.mp (List.mem_of_head? hc))))
    have hkept : ∃ kept, (body.reverse ++ front.reverse).dropWhile (fun c => decide (c.toNat ≤ 0x20)) =
        kept ++ front.reverse := by
      rw [List.dropWhile_append]
      split
      · exact ⟨[], dropWhile_eq_self hend⟩
      · exact ⟨_, rfl⟩
    obtain ⟨kept, hkept⟩ := hkept
    unfold clean Text.trimBy
    rw [dropWhile_eq_self hfirst, List.reverse_append, hkept, List.reverse_append, List.reverse_reverse,
      List.filter_append, filter_eq_self_of_ne fun c hc => ne_tab_or_line_end (Nat.le_of_lt (hfront c hc))]
    exact ⟨_, rfl⟩

end IndexFs.Url

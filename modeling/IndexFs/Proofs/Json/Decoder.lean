import IndexFs.Json.Decoder
import Mathlib.Data.List.Forall2

/-!
# Which values a decoder accepts

For each way to read a value of a type from JSON, the values that are accepted and what is read of them. Containers
are accepted with their items: an array is read as a list exactly if each of its items can be read, and the list has
what was read of them in their order (`listOfJson_eq_ok_iff`).
-/

namespace IndexFs.Json.Decoder

variable {α β : Type}

/-- Two steps succeed if and only if both do. -/
theorem bind_eq_ok_iff {ε : Type} {r : Except ε α} {f : α → Except ε β} {b : β} :
    r >>= f = .ok b ↔ ∃ a, r = .ok a ∧ f a = .ok b := by
  constructor
  · intro h
    cases r with
    | error e => cases h
    | ok a => exact ⟨a, rfl, h⟩
  · rintro ⟨a, rfl, h⟩
    exact h

/-- A step that only renames succeeds as the one before it. -/
theorem map_eq_ok_iff {ε : Type} {r : Except ε α} {f : α → β} {b : β} :
    f <$> r = .ok b ↔ ∃ a, r = .ok a ∧ f a = b := by
  rw [map_eq_pure_bind, bind_eq_ok_iff]
  constructor
  · rintro ⟨a, hr, hb⟩
    cases hb
    exact ⟨a, hr, rfl⟩
  · rintro ⟨a, hr, rfl⟩
    exact ⟨a, hr, rfl⟩

/-- A decoder that only renames accepts what the one before it accepts. -/
theorem ofJson_map_eq_ok_iff {f : α → β} {d : Decoder α} {v : Json} {b : β} :
    (d.map f).ofJson v = .ok b ↔ ∃ a, d.ofJson v = .ok a ∧ f a = b :=
  map_eq_ok_iff

/-! ## Single values -/

/-- Texts are read from strings, and from nothing else. -/
theorem ofJson_string_eq_ok_iff {v : Json} {s : String} : string.ofJson v = .ok s ↔ v = .string s := by
  constructor
  · intro h
    cases v with
    | string t =>
      cases h
      rfl
    | _ => cases h
  · rintro rfl
    rfl

/-- Numbers below a bound are read from integers below it, and from nothing else. -/
theorem ofJson_unsigned_eq_ok_iff {bound : Nat} {expected : String} {v : Json} {n : Nat} :
    (unsigned bound expected).ofJson v = .ok n ↔ n < bound ∧ v = .ofNat n := by
  constructor
  · intro h
    cases v with
    | number x =>
      cases x with
      | integer i =>
        simp only [unsigned, scalar] at h
        -- only an integer within the bound is accepted, and it is not negative
        split at h
        · next hbound =>
          rw [Bool.and_eq_true, decide_eq_true_eq, decide_eq_true_eq] at hbound
          cases h
          refine ⟨by omega, ?_⟩
          rw [ofNat, Int.toNat_of_nonneg hbound.1]
        · cases h
      | float x => cases h
    | _ => cases h
  · rintro ⟨hbound, rfl⟩
    have hin : (decide (0 ≤ (n : Int)) && decide ((n : Int) < bound)) = true := by
      rw [Bool.and_eq_true, decide_eq_true_eq, decide_eq_true_eq]
      omega
    simp only [unsigned, scalar, ofNat]
    rw [if_pos hin, Int.toNat_natCast]

/-! ## Containers -/

/-- A pair is an array of exactly two items. -/
theorem ofJson_pair_eq_ok_iff {first : Decoder α} {second : Decoder β} {v : Json} {p : α × β} :
    (pair first second).ofJson v = .ok p ↔
      ∃ x y, v = .array [x, y] ∧ first.ofJson x = .ok p.1 ∧ second.ofJson y = .ok p.2 := by
  obtain ⟨a, b⟩ := p
  constructor
  · intro h
    cases v with
    | array items =>
      match items, h with
      | [], h => cases h
      | [x], h =>
        -- there is no second item, whether or not the first one is accepted
        obtain ⟨-, -, hthrow⟩ := bind_eq_ok_iff.mp h
        cases hthrow
      | [x, y], h =>
        obtain ⟨a', hx, h⟩ := bind_eq_ok_iff.mp h
        obtain ⟨b', hy, h⟩ := bind_eq_ok_iff.mp h
        cases h
        exact ⟨x, y, rfl, hx, hy⟩
      | x :: y :: z :: rest, h =>
        -- nor may there be a third one
        obtain ⟨a', -, h⟩ := bind_eq_ok_iff.mp h
        obtain ⟨b', -, h⟩ := bind_eq_ok_iff.mp h
        cases h
    | _ => cases h
  · rintro ⟨x, y, rfl, hx, hy⟩
    exact bind_eq_ok_iff.mpr ⟨a, hx, bind_eq_ok_iff.mpr ⟨b, hy, rfl⟩⟩

/-- A list is decoded if and only if each of its elements is. -/
theorem mapM_eq_ok_iff {ε : Type} {d : α → Except ε β} {xs : List α} {ys : List β} :
    xs.mapM d = .ok ys ↔ List.Forall₂ (fun x y => d x = .ok y) xs ys := by
  induction xs generalizing ys with
  | nil =>
    rw [List.mapM_nil, List.forall₂_nil_left_iff]
    constructor
    · intro h
      cases h
      rfl
    · rintro rfl
      rfl
  | cons x xs ih =>
    rw [List.mapM_cons, List.forall₂_cons_left_iff, bind_eq_ok_iff]
    constructor
    · rintro ⟨y, hy, h⟩
      obtain ⟨ys, hys, h⟩ := bind_eq_ok_iff.mp h
      cases h
      exact ⟨y, ys, hy, ih.mp hys, rfl⟩
    · rintro ⟨y, ys, hy, hys, rfl⟩
      exact ⟨y, hy, bind_eq_ok_iff.mpr ⟨ys, ih.mpr hys, rfl⟩⟩

/-- A list is an array each of whose items is accepted. -/
theorem listOfJson_eq_ok_iff {d : Json → Except Mismatch α} {v : Json} {xs : List α} :
    listOfJson d v = .ok xs ↔ ∃ items, v = .array items ∧ List.Forall₂ (fun x y => d x = .ok y) items xs := by
  constructor
  · intro h
    cases v with
    | array items => exact ⟨items, rfl, mapM_eq_ok_iff.mp h⟩
    | _ => cases h
  · rintro ⟨items, rfl, h⟩
    exact mapM_eq_ok_iff.mpr h

end IndexFs.Json.Decoder

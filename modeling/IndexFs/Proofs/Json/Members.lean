import IndexFs.Json.Basic
import Mathlib.Tactic.Common

/-!
# Members of objects

Members whose keys are in order stay as they are when an object is made of them.
-/

namespace IndexFs.Json

/-- A member with a key above all others comes last. -/
theorem insert_of_lt {key : String} {ms : List (String × Json)}
    (h : ∀ m ∈ ms, m.1 < key) (v : Json) : insert key v ms = ms ++ [(key, v)] := by
  induction ms with
  | nil => rfl
  | cons m ms ih =>
    have hm := h m List.mem_cons_self
    rw [insert, if_neg (String.lt_asymm hm), if_neg (fun heq => String.lt_irrefl _ (heq ▸ hm)),
      ih fun m' hm' => h m' (List.mem_cons_of_mem m hm')]
    rfl

theorem foldl_insert_of_ascend (acc ms : List (String × Json)) (h : KeysAscend (acc ++ ms)) :
    ms.foldl (fun acc m => insert m.1 m.2 acc) acc = acc ++ ms := by
  induction ms generalizing acc with
  | nil => simp
  | cons m ms ih =>
    have hlast : ∀ m' ∈ acc, m'.1 < m.1 := by
      intro m' hm'
      exact (List.pairwise_append.mp h).2.2 m' hm' m List.mem_cons_self
    have hassoc : acc ++ m :: ms = acc ++ [m] ++ ms := by simp
    rw [List.foldl_cons, insert_of_lt hlast, hassoc]
    exact ih (acc ++ [m]) (hassoc ▸ h)

/-- Members that are in order stay as they are. -/
theorem ofMembers_of_ascend {ms : List (String × Json)} (h : KeysAscend ms) :
    ofMembers ms = .object ms := by
  rw [ofMembers, sortMembers, foldl_insert_of_ascend [] ms h, List.nil_append]

/-- An object with the given keys is regular if they are in order, and the values are regular. -/
theorem regular_object {ms : List (String × Json)} (keys : List String) (hkeys : ms.map Prod.fst = keys)
    (hascend : keys.Pairwise (· < ·)) (hregular : MembersRegular ms) : (Json.object ms).Regular := by
  have hms : KeysAscend ms := by
    rw [← hkeys] at hascend
    exact List.pairwise_map.mp hascend
  exact ⟨hms, hregular⟩

end IndexFs.Json

import IndexFs.CommandLine.Location
import IndexFs.Proofs.Url.Child
import IndexFs.Proofs.Url.Scheme

/-!
# Locations in the scheme of the configuration

A location that is no URL by itself is read in the scheme of the configuration, whatever it holds: it is never a
relative reference, a URL of another scheme or a URL without a hierarchy, and the slashes at its start do not count
(`readLocation_in_scheme`).
-/

namespace IndexFs.CommandLine

/-- What ends the scheme of a location that is a URL by itself. -/
def separator : List Char :=
  [':', '/', '/']

/-- Two locations that are the same but for the slashes at their starts. -/
def SameButSlashes (location other : String) : Prop :=
  ∃ m n body, location.toList = List.replicate m '/' ++ body ∧ other.toList = List.replicate n '/' ++ body

/-! ## Short locations -/

theorem occursIn_iff {part cs : List Char} : occursIn part cs = true ↔ part <:+: cs := by
  induction cs with
  | nil => rw [occursIn, List.isEmpty_iff, List.infix_nil]
  | cons c cs ih => rw [occursIn, Bool.or_eq_true, List.isPrefixOf_iff_prefix, ih, List.infix_cons_iff]

/-- The text of a location that is no URL by itself. -/
theorem toList_locationText {location : String} (scheme : String) (hshort : ¬separator <:+: location.toList) :
    (locationText location scheme).toList =
      scheme.toList ++ separator ++ location.toList.dropWhile (· = '/') := by
  have habsent : ¬occursIn "://".toList location.toList = true := fun h => hshort (occursIn_iff.mp h)
  unfold locationText
  rw [if_neg habsent, String.toList_append, String.toList_append, String.toList_ofList, String.toList_ofList]
  rfl

/-- No slash at its start makes a location a URL by itself. -/
theorem separator_infix_slashes (n : Nat) {body : List Char} :
    separator <:+: List.replicate n '/' ++ body ↔ separator <:+: body := by
  induction n with
  | zero => rfl
  | succ n ih =>
    have hcolon : ¬separator <+: '/' :: (List.replicate n '/' ++ body) := fun h =>
      absurd (List.cons_prefix_cons.mp h).1 (by decide)
    rw [List.replicate_succ, List.cons_append, List.infix_cons_iff, or_iff_right hcolon, ih]

theorem dropWhile_slashes (n : Nat) (body : List Char) :
    (List.replicate n '/' ++ body).dropWhile (· = '/') = body.dropWhile (· = '/') :=
  List.dropWhile_append_of_pos fun _ hc => decide_eq_true (List.eq_of_mem_replicate hc)

/-- The slashes at the start of a short location do not count. -/
theorem locationText_congr {location other : String} (scheme : String)
    (hshort : ¬separator <:+: location.toList) (hsame : SameButSlashes location other) :
    locationText other scheme = locationText location scheme := by
  obtain ⟨m, n, body, hlocation, hother⟩ := hsame
  have hbody : ¬separator <:+: body := by
    rwa [hlocation, separator_infix_slashes] at hshort
  have hshort' : ¬separator <:+: other.toList := by
    rwa [hother, separator_infix_slashes]
  refine String.toList_inj.mp ?_
  rw [toList_locationText scheme hshort, toList_locationText scheme hshort', hlocation, hother, dropWhile_slashes,
    dropWhile_slashes]

theorem readLocation_eq_ok_iff {location scheme : String} {u : Url} :
    readLocation location scheme = .ok u ↔ Url.parse (locationText location scheme) = .ok u := by
  unfold readLocation
  cases Url.parse (locationText location scheme) with
  | error e => exact iff_of_false nofun nofun
  | ok v => exact ⟨fun h => congrArg _ (Except.ok.inj h), fun h => congrArg _ (Except.ok.inj h)⟩

/-! ## The scheme of a location -/

/-- Nothing in a location reaches the scheme in front of it: a valid scheme and the slashes behind it are read as
they are. -/
theorem splitScheme?_locationText {location scheme : String} (hscheme : Config.isScheme scheme = true)
    (hshort : ¬separator <:+: location.toList) :
    ∃ rest, Url.splitScheme? (Url.clean (locationText location scheme).toList) =
      some (Text.lower scheme.toList, '/' :: '/' :: rest) := by
  have hvisible : ∀ c ∈ scheme.toList ++ separator, 0x20 < c.toNat := by
    intro c hc
    rcases List.mem_append.mp hc with hc | hc
    · exact Url.lt_toNat_of_isSchemeChar ((Config.isScheme_iff.mp hscheme).chars c hc)
    · rcases List.mem_cons.mp hc with rfl | hc
      · decide
      · rcases List.mem_pair.mp hc with rfl | rfl <;> decide
  obtain ⟨rest, hrest⟩ := Url.clean_append hvisible (location.toList.dropWhile (· = '/'))
  refine ⟨rest, ?_⟩
  rw [toList_locationText scheme hshort, hrest, List.append_assoc]
  exact Config.isScheme_iff_splitScheme?.mp hscheme _

/-- A location that is no URL by itself is read in the scheme of a configuration that can be used. The text has that
scheme, with two slashes behind it, whatever the location is, and so it is no relative reference; if it can be read,
the URL has the scheme in lower case, every name has an entry below it, and the slashes at the start of the location
do not count. -/
theorem readLocation_in_scheme {c : Config} (hvalid : c.validate = .ok ()) {location : String}
    (hshort : ¬separator <:+: location.toList) :
    (∃ rest, Url.splitScheme? (Url.clean (locationText location c.scheme).toList) =
        some (Text.lower c.scheme.toList, '/' :: '/' :: rest)) ∧
      Url.parse (locationText location c.scheme) ≠ .error .relativeWithoutBase ∧
      ∀ u, readLocation location c.scheme = .ok u →
        u.scheme = String.ofList (Text.lower c.scheme.toList) ∧ u.isHierarchical = true ∧
          (∀ name, ∃ v, u.child name = .ok v) ∧
          ∀ other, SameButSlashes location other → readLocation other c.scheme = .ok u := by
  obtain ⟨hscheme, hfile⟩ := Config.isScheme_of_validate hvalid
  obtain ⟨rest, hsplit⟩ := splitScheme?_locationText hscheme hshort
  refine ⟨⟨rest, hsplit⟩, fun hrelative => ?_, fun u hu => ?_⟩
  · rw [Url.parse_eq_relativeWithoutBase_iff, hsplit] at hrelative
    cases hrelative
  · rw [readLocation_eq_ok_iff] at hu
    have hread := hu
    rw [Url.parse_of_splitScheme? hsplit] at hread
    obtain ⟨hkept, hhierarchy⟩ := Url.of_readRest_slashes hfile hread
    refine ⟨hkept, hhierarchy, fun name => Url.exists_child_iff.mpr hhierarchy, fun other hsame => ?_⟩
    rw [readLocation_eq_ok_iff, locationText_congr c.scheme hshort hsame, hu]

theorem readLocation_in_scheme_special :
    ({ Config.default with scheme := "HTTP" } : Config).validate = .ok () ∧
      ¬separator <:+: "/\\Proj:80\t/a/..".toList ∧
      Url.parse (locationText "/\\Proj:80\t/a/.." "HTTP") ≠ .error .relativeWithoutBase ∧
      ∃ u, readLocation "/\\Proj:80\t/a/.." "HTTP" = .ok u ∧ u.toRemote = "http://proj/" ∧
        u.scheme = String.ofList (Text.lower "HTTP".toList) ∧ u.isHierarchical = true ∧
        (∃ v, u.child "b" = .ok v) ∧ SameButSlashes "/\\Proj:80\t/a/.." "\\Proj:80\t/a/.." ∧
        readLocation "\\Proj:80\t/a/.." "HTTP" = .ok u := by
  have hvalid : ({ Config.default with scheme := "HTTP" } : Config).validate = .ok () := by decide +kernel
  have hshort : ¬separator <:+: "/\\Proj:80\t/a/..".toList := by decide +kernel
  have hread : readLocation "/\\Proj:80\t/a/.." "HTTP" =
      .ok ⟨"http", some ⟨"", "", "proj", none⟩, false, .segments [""], none, none⟩ := by
    decide +kernel
  have hsame : SameButSlashes "/\\Proj:80\t/a/.." "\\Proj:80\t/a/.." :=
    ⟨1, 0, "\\Proj:80\t/a/..".toList, by decide, rfl⟩
  obtain ⟨-, hbase, hurl⟩ := readLocation_in_scheme hvalid hshort
  obtain ⟨hscheme, hhierarchy, hchild, hslashes⟩ := hurl _ hread
  exact ⟨hvalid, hshort, hbase, _, hread, by decide +kernel, hscheme, hhierarchy, hchild "b", hsame,
    hslashes _ hsame⟩

/-- The colon of a scheme that is not valid may end it early, and what follows need not be a hierarchy then. -/
example : Config.isScheme "lsif:x" = false ∧
    (readLocation "proj" "lsif:x").map Url.isHierarchical = .ok false := by
  decide +kernel

end IndexFs.CommandLine

import IndexFs.Config
import IndexFs.Proofs.Url.Parts

/-!
# Schemes and the text behind them

A text without a scheme is a relative reference, and no other text is one (`parse_eq_relativeWithoutBase_iff`). A
text with two slashes behind its scheme is read as a hierarchy (`of_readRest_slashes`). The schemes that a
configuration may have are those that are read as themselves, whatever follows their colon
(`isScheme_iff_splitScheme?`).
-/

namespace IndexFs

namespace Url

/-! ## Relative references -/

/-- A reading that does not fail for want of a base. -/
def NeedsNoBase {α : Type} (r : Except ParseError α) : Prop :=
  r ≠ .error .relativeWithoutBase

section NeedsNoBase

variable {α β : Type}

/-- What was read needs no base. -/
theorem needsNoBase_ok (a : α) : NeedsNoBase (.ok a) :=
  nofun

/-- Every other error needs no base. -/
theorem needsNoBase_error {e : ParseError} (h : e ≠ .relativeWithoutBase) :
    NeedsNoBase (.error e : Except ParseError α) :=
  fun heq => h (Except.error.inj heq)

/-- Two steps that need no base need none together. -/
theorem needsNoBase_bind {x : Except ParseError α} {f : α → Except ParseError β} (hx : NeedsNoBase x)
    (hf : ∀ a, NeedsNoBase (f a)) : NeedsNoBase (x.bind f) := by
  cases x with
  | error e => exact needsNoBase_error fun he => hx (congrArg _ he)
  | ok a => exact hf a

theorem needsNoBase_refuse {e : ParseError} (c : Bool) (h : e ≠ .relativeWithoutBase) :
    NeedsNoBase (refuse c e) := by
  cases c with
  | true => exact needsNoBase_error h
  | false => exact needsNoBase_ok ()

end NeedsNoBase

/-- Reading an address in brackets needs no base. -/
theorem needsNoBase_bracketedHost (cs : List Char) : NeedsNoBase (bracketedHost cs) := by
  unfold bracketedHost
  split
  · split
    · exact needsNoBase_ok _
    · exact needsNoBase_error (by decide)
  · exact needsNoBase_error (by decide)

/-- Reading an address of four numbers needs no base. -/
theorem needsNoBase_ipv4Host (cs : List Char) : NeedsNoBase (ipv4Host cs) := by
  unfold ipv4Host
  dsimp only
  split
  · exact needsNoBase_error (by decide)
  · split
    · exact needsNoBase_error (by decide)
    · split
      · exact needsNoBase_error (by decide)
      · exact needsNoBase_ok _

/-- Reading the host of a special scheme needs no base, be it a domain or an address. -/
theorem needsNoBase_specialHost (cs : List Char) : NeedsNoBase (specialHost cs) := by
  unfold specialHost
  split
  · exact needsNoBase_bracketedHost _
  · split
    · exact needsNoBase_error (by decide)
    · dsimp only
      split
      · exact needsNoBase_error (by decide)
      · split
        · exact needsNoBase_error (by decide)
        · split
          · exact needsNoBase_ipv4Host _
          · exact needsNoBase_ok _

/-- Reading any other host needs no base. -/
theorem needsNoBase_plainHost (cs : List Char) : NeedsNoBase (plainHost cs) := by
  unfold plainHost
  split
  · exact needsNoBase_bracketedHost _
  · split
    · exact needsNoBase_error (by decide)
    · exact needsNoBase_ok _

theorem needsNoBase_readHost (special : Bool) (cs : List Char) : NeedsNoBase (readHost special cs) := by
  cases special with
  | true => exact needsNoBase_specialHost cs
  | false => exact needsNoBase_plainHost cs

/-- Reading a port needs no base, also where it is no number or too large a one. -/
theorem needsNoBase_readPort (cs : List Char) : NeedsNoBase (readPort cs) := by
  unfold readPort
  split
  · unfold parsePort
    dsimp only
    split
    · exact needsNoBase_error (by decide)
    · split
      · exact needsNoBase_ok _
      · split
        · exact needsNoBase_ok _
        · exact needsNoBase_error (by decide)
  · exact needsNoBase_ok _

theorem needsNoBase_parseHostAndPort (scheme : String) (cs : List Char) :
    NeedsNoBase (parseHostAndPort scheme cs) := by
  rw [parseHostAndPort_eq]
  refine needsNoBase_bind (needsNoBase_refuse _ (by decide)) fun _ => ?_
  refine needsNoBase_bind (needsNoBase_readHost _ _) fun host => ?_
  refine needsNoBase_bind (needsNoBase_refuse _ (by decide)) fun _ => ?_
  exact needsNoBase_bind (needsNoBase_readPort _) fun p => needsNoBase_ok _

/-- Reading an authority needs no base, with or without a user. -/
theorem needsNoBase_parseAuthority (scheme : String) (cs : List Char) (atEnd : Bool) :
    NeedsNoBase (parseAuthority scheme cs atEnd) := by
  rw [parseAuthority_eq]
  refine needsNoBase_bind (needsNoBase_refuse _ (by decide)) fun _ => ?_
  refine needsNoBase_bind (needsNoBase_parseHostAndPort _ _) fun r => ?_
  exact needsNoBase_bind (needsNoBase_refuse _ (by decide)) fun _ => needsNoBase_ok _

theorem needsNoBase_parseWithAuthority (scheme : String) (cs : List Char) :
    NeedsNoBase (parseWithAuthority scheme cs) :=
  needsNoBase_bind (needsNoBase_parseAuthority _ _ _) fun _ => needsNoBase_ok _

theorem needsNoBase_parsePlain (scheme : String) (cs : List Char) : NeedsNoBase (parsePlain scheme cs) := by
  unfold parsePlain
  split
  · exact needsNoBase_parseWithAuthority _ _
  · exact needsNoBase_ok _
  · exact needsNoBase_ok _

theorem needsNoBase_fileHost (cs : List Char) : NeedsNoBase (fileHost cs) := by
  unfold fileHost
  split
  · exact needsNoBase_ok _
  · exact needsNoBase_bind (needsNoBase_specialHost cs) fun host => needsNoBase_ok _

/-- Reading behind the scheme for files needs no base. -/
theorem needsNoBase_parseFile (cs : List Char) : NeedsNoBase (parseFile cs) := by
  unfold parseFile
  dsimp only
  -- all that can be refused of a file is its host
  split
  · split
    · split
      · exact needsNoBase_ok _
      · refine needsNoBase_bind (needsNoBase_fileHost _) fun host => ?_
        cases host with
        | none => exact needsNoBase_ok _
        | some host => exact needsNoBase_ok _
    · split
      · exact needsNoBase_ok _
      · exact needsNoBase_ok _
  · exact needsNoBase_ok _
  · exact needsNoBase_ok _

/-- Whatever stands behind a scheme is read without a base. -/
theorem needsNoBase_readRest (scheme : String) (rest : List Char) : NeedsNoBase (readRest scheme rest) := by
  unfold readRest
  split
  · exact needsNoBase_parseFile rest
  · exact needsNoBase_parseWithAuthority scheme _
  · exact needsNoBase_parsePlain scheme rest

/-- A text in which a scheme is read is read by the rules of that scheme. -/
theorem parse_of_splitScheme? {text : String} {scheme rest : List Char}
    (h : splitScheme? (clean text.toList) = some (scheme, rest)) :
    parse text = readRest (String.ofList scheme) rest := by
  unfold parse
  rw [h]
  rfl

/-- A text is a relative reference if it has no scheme, and only then. -/
theorem parse_eq_relativeWithoutBase_iff {text : String} :
    parse text = .error .relativeWithoutBase ↔ splitScheme? (clean text.toList) = none := by
  cases hsplit : splitScheme? (clean text.toList) with
  | none =>
    unfold parse
    rw [hsplit]
    exact iff_of_true rfl rfl
  | some parts =>
    rw [parse_of_splitScheme? hsplit]
    exact iff_of_false (needsNoBase_readRest _ _) (Option.some_ne_none parts)

/-! ## Behind two slashes -/

/-- What is read with an authority keeps its scheme, and has a path of segments. -/
theorem of_parseWithAuthority {scheme : String} {cs : List Char} {u : Url}
    (h : parseWithAuthority scheme cs = .ok u) :
    u.scheme = scheme ∧ u.isHierarchical = true := by
  unfold parseWithAuthority at h
  obtain ⟨r, -, h⟩ := ok_of_bind h
  cases h
  exact ⟨rfl, rfl⟩

/-- With two slashes behind its scheme a text is a hierarchy of that scheme. Files are read by rules of their own. -/
theorem of_readRest_slashes {scheme : String} {rest : List Char} {u : Url} (hscheme : scheme ≠ "file")
    (h : readRest scheme ('/' :: '/' :: rest) = .ok u) :
    u.scheme = scheme ∧ u.isHierarchical = true := by
  unfold readRest at h
  split at h
  · next hkind => exact absurd hkind (kind_ne_file hscheme)
  · exact of_parseWithAuthority h
  · exact of_parseWithAuthority h

end Url

namespace Config

/-! ## Valid schemes -/

/-- A text is taken for a scheme if and only if it is spelled like one. -/
theorem isScheme_iff {scheme : String} : isScheme scheme = true ↔ Url.IsSchemeSpelling scheme.toList := by
  unfold isScheme
  cases scheme.toList with
  | nil => exact iff_of_false Bool.false_ne_true fun h => nomatch h.letter
  | cons c cs =>
    dsimp only
    rw [Bool.and_eq_true, List.all_eq_true]
    constructor
    · rintro ⟨hletter, hchars⟩
      exact ⟨⟨c, rfl, hletter⟩, hchars⟩
    · rintro ⟨⟨d, hd, hletter⟩, hchars⟩
      cases hd
      exact ⟨hletter, hchars⟩

/-- The schemes of configurations and of URLs are the same: a scheme is valid exactly if it is read as itself, in
lower case, whatever stands behind its colon. -/
theorem isScheme_iff_splitScheme? {scheme : String} :
    isScheme scheme = true ↔
      ∀ rest, Url.splitScheme? (scheme.toList ++ ':' :: rest) = some (Text.lower scheme.toList, rest) := by
  rw [isScheme_iff]
  constructor
  · exact fun h rest => Url.splitScheme?_eq_some_iff.mpr ⟨_, h, rfl, rfl⟩
  · intro h
    obtain ⟨before, hspelling, hbefore, -⟩ := Url.splitScheme?_eq_some_iff.mp (h [])
    rwa [List.append_cancel_right hbefore]

/-- The scheme of a configuration that can be used is valid, and not the one of files. -/
theorem isScheme_of_validate {c : Config} (h : c.validate = .ok ()) :
    isScheme c.scheme = true ∧ String.ofList (Text.lower c.scheme.toList) ≠ "file" := by
  unfold validate at h
  dsimp only at h
  split at h
  · cases h
  · split at h
    · cases h
    · split at h
      · cases h
      · next hscheme =>
        split at h
        · cases h
        · next hfile =>
          refine ⟨by simpa using hscheme, fun hlower => hfile ?_⟩
          rw [← hlower, String.toList_ofList]

end Config

end IndexFs

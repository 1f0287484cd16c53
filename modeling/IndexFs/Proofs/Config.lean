import IndexFs.Config
import IndexFs.Proofs.Json.Lines
import IndexFs.Proofs.Json.Record

/-!
# Configuration files

What a file sets: for each key that it has the value that it gives, and for each other one the default, whatever the
other keys are and in whatever order they stand (`Config.Told`). A file whose keys have values of their types is loaded
as what it sets, and so is the file to which a configuration was saved, which may be at any path that can be written
(`Config.loadFile_settings`).
-/

namespace IndexFs

open Json (Decoder)
open Json.Decoder

/-- What a key sets: the value that it is given, and the default if it is not there. -/
inductive Setting {α : Type} (IsValue : Json → α → Prop) (default : α) : Option Json → α → Prop
  | given {v : Json} {a : α} (h : IsValue v a) : Setting IsValue default (some v) a
  | absent : Setting IsValue default none default

/-- The text that a value is. -/
def IsText (v : Json) (s : String) : Prop :=
  v = .string s

/-- The truth value that a value is. -/
def IsTruth (v : Json) (b : Bool) : Prop :=
  v = .bool b

/-- The key has a value of its type if it is there. -/
def Settable {α : Type} (IsValue : Json → α → Prop) (given : Option Json) : Prop :=
  ∀ v ∈ given, ∃ a, IsValue v a

/-- What the members of an object set about the server. -/
structure ServerConfig.Told (ms : List (String × Json)) (c : ServerConfig) : Prop where
  address : Setting IsText default.address (ms.lookup "address") c.address
  handshake : Setting IsTruth default.handshake (ms.lookup "handshake") c.handshake
  clientName : Setting IsText default.clientName (ms.lookup "client_name") c.clientName

/-- Each key of the server that is there has a value of its type. -/
structure ServerConfig.Typed (ms : List (String × Json)) : Prop where
  address : Settable IsText (ms.lookup "address")
  handshake : Settable IsTruth (ms.lookup "handshake")
  clientName : Settable IsText (ms.lookup "client_name")

/-- The settings of the server that a value is: an object, each of whose keys is there only once. -/
def ServerConfig.IsSettings (v : Json) (c : ServerConfig) : Prop :=
  ∃ ms, v = .object ms ∧ (ms.map Prod.fst).Nodup ∧ Told ms c

namespace Config

/-- What the members of an object set. -/
structure Told (ms : List (String × Json)) (c : Config) : Prop where
  server : Setting ServerConfig.IsSettings default.server (ms.lookup "server") c.server
  scheme : Setting IsText default.scheme (ms.lookup "scheme") c.scheme
  statErrorsAsNotFound :
    Setting IsTruth default.statErrorsAsNotFound (ms.lookup "stat_errors_as_not_found") c.statErrorsAsNotFound
  logLevel : Setting IsText default.logLevel (ms.lookup "log_level") c.logLevel

/-- Each key that is there has a value of its type; the one of the server is an object, with its keys only once. -/
structure Typed (ms : List (String × Json)) : Prop where
  server : ∀ v ∈ ms.lookup "server", ∃ server, v = .object server ∧ (server.map Prod.fst).Nodup ∧
    ServerConfig.Typed server
  scheme : Settable IsText (ms.lookup "scheme")
  statErrorsAsNotFound : Settable IsTruth (ms.lookup "stat_errors_as_not_found")
  logLevel : Settable IsText (ms.lookup "log_level")

end Config

/-! ## One setting -/

namespace Setting

variable {α : Type} {IsValue : Json → α → Prop} {default a : α} {given : Option Json}

theorem unique (hfunctional : ∀ v a a', IsValue v a → IsValue v a' → a = a') {a' : α}
    (h : Setting IsValue default given a) (h' : Setting IsValue default given a') : a = a' := by
  cases h with
  | given hv =>
    cases h' with
    | given hv' => exact hfunctional _ a a' hv hv'
  | absent =>
    cases h'
    rfl

theorem exists_of_settable (h : Settable IsValue given) (default : α) : ∃ a, Setting IsValue default given a := by
  cases given with
  | none => exact ⟨default, .absent⟩
  | some v =>
    obtain ⟨a, ha⟩ := h v rfl
    exact ⟨a, .given ha⟩

end Setting

section

variable {σ β : Type} {r : Record σ β} {index : Nat} {α : Type} {IsValue : Json → α → Prop} {default a : α}
  {ms : List (String × Json)} {f : Decoder.Field σ} {key : String} {get : σ → Option α} {d : Decoder α}

theorem Setting.takes (hread : ∀ v a, IsValue v a → d.ofJson v = .ok a) (hkeys : (ms.map Prod.fst).Nodup)
    (h : Setting IsValue default (ms.lookup key) a) :
    ∃ part : Option α, Takes d (under [key] ms) part ∧ part.getD default = a := by
  rw [under_of_nodup hkeys]
  generalize ms.lookup key = given at h
  cases h with
  | given hv => exact ⟨some a, .one (hread _ a hv), rfl⟩
  | absent => exact ⟨none, .absent, rfl⟩

/-- The field of a key accepts what the key sets. -/
theorem Setting.accepts (hread : ∀ v a, IsValue v a → d.ofJson v = .ok a) (hkeys : (ms.map Prod.fst).Nodup)
    (hholds : r.Holds f index get d) (hnames : f.names = [key]) (hdefault : f.default ≠ none)
    (h : Setting IsValue default (ms.lookup key) a) : r.Accepts (.object ms) f index := by
  obtain ⟨part, htakes, -⟩ := h.takes hread hkeys
  exact ⟨α, get, d, part, hholds, hnames ▸ htakes, fun hnone => absurd hnone hdefault⟩

/-- What has been read for a key is what the key sets. -/
theorem Setting.read (hread : ∀ v a, IsValue v a → d.ofJson v = .ok a) (hkeys : (ms.map Prod.fst).Nodup)
    (hplain : r.Plain) (hholds : r.Holds f index get d) (hnames : f.names = [key]) {s : σ}
    (hreads : r.Reads (.object ms) s) (h : Setting IsValue default (ms.lookup key) a) : (get s).getD default = a := by
  obtain ⟨part, htakes, ha⟩ := h.takes hread hkeys
  have hpart := hholds.reads hplain hreads
  rw [hnames] at hpart
  rw [hpart.unique htakes, ha]

end

theorem ofJson_of_isText (v : Json) (s : String) (h : IsText v s) : string.ofJson v = .ok s := by
  rw [h]
  rfl

theorem ofJson_of_isTruth (v : Json) (b : Bool) (h : IsTruth v b) : bool.ofJson v = .ok b := by
  rw [h]
  rfl

theorem isText_functional (v : Json) (s s' : String) (h : IsText v s) (h' : IsText v s') : s = s' := by
  rw [h] at h'
  cases h'
  rfl

theorem isTruth_functional (v : Json) (b b' : Bool) (h : IsTruth v b) (h' : IsTruth v b') : b = b' := by
  rw [h] at h'
  cases h'
  rfl

/-! ## The server -/

namespace ServerConfig

theorem plain_record : record.Plain where
  distinct := by decide
  names := by decide
  default f hf put hput := by
    simp only [record, List.mem_cons, List.not_mem_nil, or_false] at hf
    rcases hf with rfl | rfl | rfl <;> cases hput <;> rfl

/-- The parts of the settings, in the order of the fields. -/
def parts : List (FieldPart Draft) :=
  [⟨Draft.address, fun s d => { d with address := some s }, string⟩,
    ⟨Draft.handshake, fun b d => { d with handshake := some b }, bool⟩,
    ⟨Draft.clientName, fun s d => { d with clientName := some s }, string⟩]

theorem hasParts_record : record.HasParts parts where
  puts := by refine .cons ?_ (.cons ?_ (.cons ?_ .nil)) <;> exact ⟨fun _ => rfl, rfl⟩
  empty := by simp [parts, record]
  set := by simp [parts]
  apart := by simp [parts, FieldPart.Spares]

/-- Each field holds its part. -/
theorem holds (i : Nat) (hi : i < 3) : record.Holds record.fields[i] i parts[i].get parts[i].decoder :=
  hasParts_record.holds i hi hi

theorem Typed.exists_told {ms : List (String × Json)} (h : Typed ms) : ∃ c, Told ms c := by
  obtain ⟨address, haddress⟩ := Setting.exists_of_settable h.address default.address
  obtain ⟨handshake, hhandshake⟩ := Setting.exists_of_settable h.handshake default.handshake
  obtain ⟨clientName, hclientName⟩ := Setting.exists_of_settable h.clientName default.clientName
  exact ⟨⟨address, handshake, clientName⟩, haddress, hhandshake, hclientName⟩

theorem Told.unique {ms : List (String × Json)} {c c' : ServerConfig} (h : Told ms c) (h' : Told ms c') : c = c' := by
  have haddress := h.address.unique isText_functional h'.address
  have hhandshake := h.handshake.unique isTruth_functional h'.handshake
  have hclientName := h.clientName.unique isText_functional h'.clientName
  cases c
  cases c'
  simp_all

/-- The settings of the server are read as they are told. -/
theorem ofJson_of_isSettings (v : Json) (c : ServerConfig) (h : IsSettings v c) :
    (Json.Decoder.record record).ofJson v = .ok c := by
  obtain ⟨ms, rfl, hkeys, htold⟩ := h
  have haccepts : ∀ (i : Nat) (f : Decoder.Field Draft), record.fields[i]? = some f →
      record.Accepts (.object ms) f i := by
    intro i f hf
    match i, hf with
    | 0, rfl => exact htold.address.accepts ofJson_of_isText hkeys (holds 0 (by decide)) rfl (Option.some_ne_none _)
    | 1, rfl => exact htold.handshake.accepts ofJson_of_isTruth hkeys (holds 1 (by decide)) rfl (Option.some_ne_none _)
    | 2, rfl => exact htold.clientName.accepts ofJson_of_isText hkeys (holds 2 (by decide)) rfl (Option.some_ne_none _)
  obtain ⟨d, hreads⟩ := Record.exists_reads plain_record (v := .object ms) trivial haccepts
  have haddress : d.address.getD default.address = c.address :=
    htold.address.read ofJson_of_isText hkeys plain_record (holds 0 (by decide)) rfl hreads
  have hhandshake : d.handshake.getD default.handshake = c.handshake :=
    htold.handshake.read ofJson_of_isTruth hkeys plain_record (holds 1 (by decide)) rfl hreads
  have hclientName : d.clientName.getD default.clientName = c.clientName :=
    htold.clientName.read ofJson_of_isText hkeys plain_record (holds 2 (by decide)) rfl hreads
  refine Record.ofJson_eq_ok_iff.mpr ⟨d, hreads, congrArg Except.ok ?_⟩
  rw [Draft.finish, haddress, hhandshake, hclientName]

theorem isSettings_functional (v : Json) (c c' : ServerConfig) (h : IsSettings v c) (h' : IsSettings v c') :
    c = c' := by
  have hread := ofJson_of_isSettings v c h
  rw [ofJson_of_isSettings v c' h'] at hread
  exact (Except.ok.inj hread).symm

end ServerConfig

/-! ## All settings -/

namespace Config

theorem plain_record : record.Plain where
  distinct := by decide
  names := by decide
  default f hf put hput := by
    simp only [record, List.mem_cons, List.not_mem_nil, or_false] at hf
    rcases hf with rfl | rfl | rfl | rfl <;> cases hput <;> rfl

/-- The parts of the settings, in the order of the fields. -/
def parts : List (FieldPart Draft) :=
  [⟨Draft.server, fun s d => { d with server := some s }, Json.Decoder.record ServerConfig.record⟩,
    ⟨Draft.scheme, fun s d => { d with scheme := some s }, string⟩,
    ⟨Draft.statErrorsAsNotFound, fun b d => { d with statErrorsAsNotFound := some b }, bool⟩,
    ⟨Draft.logLevel, fun s d => { d with logLevel := some s }, string⟩]

theorem hasParts_record : record.HasParts parts where
  puts := by refine .cons ?_ (.cons ?_ (.cons ?_ (.cons ?_ .nil))) <;> exact ⟨fun _ => rfl, rfl⟩
  empty := by simp [parts, record]
  set := by simp [parts]
  apart := by simp [parts, FieldPart.Spares]

/-- Each field holds its part. -/
theorem holds (i : Nat) (hi : i < 4) : record.Holds record.fields[i] i parts[i].get parts[i].decoder :=
  hasParts_record.holds i hi hi

theorem Typed.exists_told {ms : List (String × Json)} (h : Typed ms) : ∃ c, Told ms c := by
  have hsettings : Settable ServerConfig.IsSettings (ms.lookup "server") := by
    intro v hv
    obtain ⟨server, rfl, hkeys, htyped⟩ := h.server v hv
    obtain ⟨c, hc⟩ := htyped.exists_told
    exact ⟨c, server, rfl, hkeys, hc⟩
  obtain ⟨server, hserver⟩ := Setting.exists_of_settable hsettings default.server
  obtain ⟨scheme, hscheme⟩ := Setting.exists_of_settable h.scheme default.scheme
  obtain ⟨stat, hstat⟩ := Setting.exists_of_settable h.statErrorsAsNotFound default.statErrorsAsNotFound
  obtain ⟨logLevel, hlogLevel⟩ := Setting.exists_of_settable h.logLevel default.logLevel
  exact ⟨⟨server, scheme, stat, logLevel⟩, hserver, hscheme, hstat, hlogLevel⟩

theorem Told.unique {ms : List (String × Json)} {c c' : Config} (h : Told ms c) (h' : Told ms c') : c = c' := by
  have hserver := h.server.unique ServerConfig.isSettings_functional h'.server
  have hscheme := h.scheme.unique isText_functional h'.scheme
  have hstat := h.statErrorsAsNotFound.unique isTruth_functional h'.statErrorsAsNotFound
  have hlogLevel := h.logLevel.unique isText_functional h'.logLevel
  cases c
  cases c'
  simp_all

/-- An object is read as what its members set. -/
theorem ofJson_object {ms : List (String × Json)} (hkeys : (ms.map Prod.fst).Nodup) {c : Config} (h : Told ms c) :
    decoder.ofJson (.object ms) = .ok c := by
  -- every field takes what the file tells about it
  have haccepts : ∀ (i : Nat) (f : Decoder.Field Draft), record.fields[i]? = some f →
      record.Accepts (.object ms) f i := by
    intro i f hf
    match i, hf with
    | 0, rfl =>
      exact h.server.accepts ServerConfig.ofJson_of_isSettings hkeys (holds 0 (by decide)) rfl (Option.some_ne_none _)
    | 1, rfl => exact h.scheme.accepts ofJson_of_isText hkeys (holds 1 (by decide)) rfl (Option.some_ne_none _)
    | 2, rfl =>
      exact h.statErrorsAsNotFound.accepts ofJson_of_isTruth hkeys (holds 2 (by decide)) rfl
        (Option.some_ne_none _)
    | 3, rfl => exact h.logLevel.accepts ofJson_of_isText hkeys (holds 3 (by decide)) rfl (Option.some_ne_none _)
  -- what was read is a draft, whose parts are those that are told or the defaults
  obtain ⟨d, hreads⟩ := Record.exists_reads plain_record (v := .object ms) trivial haccepts
  have hserver : d.server.getD default.server = c.server :=
    h.server.read ServerConfig.ofJson_of_isSettings hkeys plain_record (holds 0 (by decide)) rfl hreads
  have hscheme : d.scheme.getD default.scheme = c.scheme :=
    h.scheme.read ofJson_of_isText hkeys plain_record (holds 1 (by decide)) rfl hreads
  have hstat : d.statErrorsAsNotFound.getD default.statErrorsAsNotFound = c.statErrorsAsNotFound :=
    h.statErrorsAsNotFound.read ofJson_of_isTruth hkeys plain_record (holds 2 (by decide)) rfl hreads
  have hlogLevel : d.logLevel.getD default.logLevel = c.logLevel :=
    h.logLevel.read ofJson_of_isText hkeys plain_record (holds 3 (by decide)) rfl hreads
  refine Record.ofJson_eq_ok_iff.mpr ⟨d, hreads, congrArg Except.ok ?_⟩
  rw [Draft.finish, hserver, hscheme, hstat, hlogLevel]

/-! ## Texts -/

theorem faithful_decoder : decoder.Faithful := by
  have hserver : (Json.Decoder.record ServerConfig.record).Faithful := by
    refine faithful_record fun f hf => ?_
    simp only [ServerConfig.record, List.mem_cons, List.not_mem_nil, or_false] at hf
    rcases hf with rfl | rfl | rfl
    · exact faithful_string.map _
    · exact faithful_bool.map _
    · exact faithful_string.map _
  refine faithful_record fun f hf => ?_
  simp only [record, List.mem_cons, List.not_mem_nil, or_false] at hf
  rcases hf with rfl | rfl | rfl | rfl
  · exact hserver.map _
  · exact faithful_string.map _
  · exact faithful_bool.map _
  · exact faithful_string.map _

/-- A text that is spelled as an object is loaded as what the members of the object set. -/
theorem ofFile_of_spells {text : String} {t : Json.Tree} {ms : List (String × Json)}
    (hspells : Json.Spells (Utf8.ofString text) t) (ht : t.json = .object ms) (hkeys : (ms.map Prod.fst).Nodup)
    {c : Config} (h : Told ms c) : ofFile (Utf8.ofString text) = .ok c := by
  have hdecode : Utf8.decode (Utf8.ofString text) = .ok text.toList := Utf8.decode_encode _
  have hparse := faithful_decoder.parse hspells (ht ▸ ofJson_object hkeys h)
  simp only [ofFile, hdecode, hparse, Except.mapError]

/-- What is written sets what was to be written. -/
theorem told_toJson (c : Config) : ∃ ms, c.toJson = .object ms ∧ (ms.map Prod.fst).Nodup ∧ Told ms c := by
  have hserver : ServerConfig.IsSettings c.server.toJson c.server :=
    ⟨_, rfl, by simp, .given rfl, .given rfl, .given rfl⟩
  exact ⟨_, rfl, by simp, .given hserver, .given rfl, .given rfl, .given rfl⟩

theorem integral_toJson (c : Config) : c.toJson.Integral := by
  simp [toJson, ServerConfig.toJson, Json.Integral, Json.MembersIntegral]

/-- A configuration is loaded from the text that is saved for it. -/
theorem ofFile_fileText (c : Config) : ofFile (Utf8.ofString c.fileText) = .ok c := by
  obtain ⟨t, ht, hspells⟩ := Json.spells_lines (integral_toJson c)
  obtain ⟨ms, hms, hkeys, htold⟩ := told_toJson c
  exact ofFile_of_spells hspells (ht.trans hms) hkeys htold

end Config

/-! ## Paths that can be written -/

namespace Disk

/-- The path names a file: its last name is the name of a file or of nothing yet, in a directory that exists. -/
def IsWritable (root : Disk) (path : String) : Prop :=
  ∃ before name entries, names path = before ++ [name] ∧ name ∉ ["", ".", ".."] ∧
    find [] root before = .ok (.directory entries) ∧ ∀ inner, entries.lookup name ≠ some (.directory inner)

variable {root : Disk} {path : String}

/-- A name at the end of a path is the last one unless a slash is behind it. -/
theorem namesTrimmed_of_ne {before : List String} {name : String} (hnames : names path = before ++ [name])
    (hname : name ≠ "") : namesTrimmed path = before ++ [name] := by
  unfold namesTrimmed
  rw [hnames, List.reverse_append, List.reverse_singleton, List.singleton_append,
    List.dropWhile_cons_of_neg (by simpa using hname), List.reverse_cons, List.reverse_reverse]

theorem ne_empty_of_namesTrimmed {before : List String} {name : String}
    (h : namesTrimmed path = before ++ [name]) : name ≠ "" := by
  intro hname
  have hreverse : (names path).reverse.dropWhile (· = "") = name :: before.reverse := by
    rw [← List.reverse_reverse (List.dropWhile _ _)]
    exact (congrArg List.reverse h).trans (by simp)
  have hhead := List.head_dropWhile_not (· = "") (l := (names path).reverse)
    (by rw [hreverse]; exact List.cons_ne_nil _ _)
  simp [hreverse, hname] at hhead

/-- Exactly the paths that can be written pass the check. -/
theorem checkWrite_eq_ok_iff : root.checkWrite path = .ok () ↔ root.IsWritable path := by
  constructor
  · intro h
    unfold checkWrite at h
    dsimp only at h
    cases hlast : (namesTrimmed path).getLast? with
    | none =>
      -- a path without names is the root, which is no file
      rw [hlast] at h
      cases h
    | some name =>
      have hsplit := List.dropLast_append_getLast? name hlast
      cases hfind : find [] root (namesTrimmed path).dropLast with
      | error e =>
        rw [hlast, hfind] at h
        cases h
      | ok here =>
        rw [hlast, hfind] at h
        cases here with
        | file content => cases h
        | directory entries =>
          simp only at h
          split at h
          · cases h
          next hname =>
          simp only [Bool.or_eq_true, decide_eq_true_eq, ne_eq, not_or, Decidable.not_not] at hname
          obtain ⟨⟨hdot, hdots⟩, hnames⟩ := hname
          -- the last name stands in a directory, and is no directory itself
          refine ⟨_, name, entries, hnames.symm.trans hsplit.symm, ?_, hfind, fun inner hinner => ?_⟩
          · simp [hdot, hdots, ne_empty_of_namesTrimmed hsplit.symm]
          · rw [hinner] at h
            cases h
  · rintro ⟨before, name, entries, hnames, hname, hfind, hfree⟩
    simp only [List.mem_cons, List.not_mem_nil, or_false, not_or] at hname
    have htrimmed := namesTrimmed_of_ne hnames hname.1
    -- the names are those of the path, and the last one is a proper name
    have hgood : ¬((name = "." || name = ".." || before ++ [name] ≠ names path) = true) := by
      simp [hname.2.1, hname.2.2, hnames]
    unfold checkWrite
    simp only [htrimmed, List.getLast?_append, List.getLast?_singleton, List.dropLast_concat, hfind]
    show (if _ then _ else _) = _
    rw [if_neg hgood]
    cases hlookup : entries.lookup name with
    | none => rfl
    | some there =>
      cases there with
      | file content => rfl
      | directory inner => exact absurd hlookup (hfree inner)

end Disk

namespace Config

/-! ## Files -/

theorem loadFile_of_readFile {disk : Disk} {path text : String}
    (h : disk.readFile path = .ok (Utf8.ofString text)) : loadFile disk path = ofFile (Utf8.ofString text) := by
  rw [loadFile, h]

/-- A path can be written or it cannot, whatever the configuration is; what is written is its text. -/
theorem saveFile_eq_ok_iff {disk : Disk} {path text : String} {c : Config} :
    saveFile disk path c = .ok text ↔ disk.IsWritable path ∧ c.fileText = text := by
  rw [← Disk.checkWrite_eq_ok_iff, saveFile]
  cases disk.checkWrite path with
  | error e => exact iff_of_false nofun fun h => nomatch h.1
  | ok _ => exact ⟨fun h => ⟨rfl, Except.ok.inj h⟩, fun h => congrArg Except.ok h.2⟩

/-- A configuration can be saved to every path that can be written, and is loaded from every file with the text that
was saved; to other paths it is not saved. A file with the text of an object, whose keys are there only once and have
values of their types as far as they are known, is loaded as what it sets, and it sets only one configuration. So what
was loaded can be saved, and it is loaded again without a change. -/
theorem loadFile_settings :
    (∀ (disk : Disk) (path : String) (c : Config), disk.IsWritable path →
        ∃ text, saveFile disk path c = .ok text ∧ ∀ (disk' : Disk) (path' : String),
          disk'.readFile path' = .ok (Utf8.ofString text) → loadFile disk' path' = .ok c) ∧
      (∀ (disk : Disk) (path text : String) (c : Config), saveFile disk path c = .ok text → disk.IsWritable path) ∧
      (∀ (disk : Disk) (path text : String) (t : Json.Tree) (ms : List (String × Json)),
        disk.readFile path = .ok (Utf8.ofString text) → Json.Spells (Utf8.ofString text) t → t.json = .object ms →
          (ms.map Prod.fst).Nodup → Typed ms →
            ∃ c, loadFile disk path = .ok c ∧ Told ms c ∧ ∀ c', Told ms c' → c' = c) ∧
      ∀ (disk disk' : Disk) (path path' : String) (c : Config), loadFile disk path = .ok c → disk'.IsWritable path' →
        ∃ text, saveFile disk' path' c = .ok text ∧ ∀ (disk'' : Disk) (path'' : String),
          disk''.readFile path'' = .ok (Utf8.ofString text) → loadFile disk'' path'' = loadFile disk path := by
  have hsaved : ∀ (disk : Disk) (path : String) (c : Config), disk.IsWritable path →
      ∃ text, saveFile disk path c = .ok text ∧ ∀ (disk' : Disk) (path' : String),
        disk'.readFile path' = .ok (Utf8.ofString text) → loadFile disk' path' = .ok c := by
    -- the text that is written is the one that settings are printed as
    intro disk path c hwritable
    refine ⟨c.fileText, saveFile_eq_ok_iff.mpr ⟨hwritable, rfl⟩, fun disk' path' hread => ?_⟩
    rw [loadFile_of_readFile hread]
    exact ofFile_fileText c
  refine ⟨hsaved, fun disk path text c hsave => (saveFile_eq_ok_iff.mp hsave).1, ?_, ?_⟩
  · intro disk path text t ms hread hspells ht hkeys htyped
    -- the file tells some settings, and no others
    obtain ⟨c, hc⟩ := htyped.exists_told
    refine ⟨c, ?_, hc, fun c' hc' => hc'.unique hc⟩
    rw [loadFile_of_readFile hread]
    exact ofFile_of_spells hspells ht hkeys hc
  · intro disk disk' path path' c hload hwritable
    rw [hload]
    exact hsaved disk' path' c hwritable

/-- A file that gives one setting, and a key that is not known, is loaded. It is saved with all settings next to it,
and loaded again. -/
theorem loadFile_settings_partial :
    let disk : Disk :=
      .directory [("c", .file (Utf8.ofString "\x7b\"x\":[],\"scheme\":\"a\"\x7d")), ("d", .directory [])]
    let text := "\x7b\n  \"server\": \x7b\n    \"address\": \"127.0.0.1:5007\",\n    \"handshake\": true,\n" ++
      "    \"client_name\": \"lsif-fs\"\n  \x7d,\n  \"scheme\": \"a\",\n" ++
      "  \"stat_errors_as_not_found\": false,\n  \"log_level\": \"info\"\n\x7d"
    loadFile disk "/c" = .ok { default with scheme := "a" } ∧ disk.IsWritable "/d/c" ∧
      saveFile disk "/d/c" { default with scheme := "a" } = .ok text ∧
      loadFile (.directory [("d", .directory [("c", .file (Utf8.ofString text))])]) "/d/c" = loadFile disk "/c" := by
  intro disk text
  have hread : disk.readFile "/c" = .ok (Utf8.ofString "\x7b\"x\":[],\"scheme\":\"a\"\x7d") := rfl
  -- the key that nobody asks for is passed over
  have hspells : Json.Spells (Utf8.ofString "\x7b\"x\":[],\"scheme\":\"a\"\x7d")
      (.object [(.ok "x", .array []), (.ok "scheme", .string (.ok "a"))]) :=
    ⟨_, _, (List.take_append_drop 10 _).symm, rfl, rfl⟩
  have htyped : Typed [("x", .array []), ("scheme", .string "a")] := by
    refine ⟨nofun, ?_, nofun, nofun⟩
    rintro v ⟨⟩
    exact ⟨"a", rfl⟩
  have htold : Told [("x", .array []), ("scheme", .string "a")] { default with scheme := "a" } :=
    ⟨.absent, .given rfl, .absent, .absent⟩
  obtain ⟨c, hload, -, honly⟩ := loadFile_settings.2.2.1 _ "/c" _ _ _ hread hspells rfl (by decide) htyped
  obtain rfl := honly _ htold
  have hwritable : disk.IsWritable "/d/c" :=
    ⟨["d"], "c", [], rfl, by decide, rfl, nofun⟩
  obtain ⟨text', hsave, hagain⟩ := loadFile_settings.2.2.2 disk disk "/c" "/d/c" _ hload hwritable
  have htext : fileText { default with scheme := "a" } = text := by decide +kernel
  obtain rfl : text = text' := htext.symm.trans (saveFile_eq_ok_iff.mp hsave).2
  exact ⟨hload, hwritable, hsave, hagain _ _ rfl⟩

end Config

end IndexFs

import IndexFs.FileSystem.Operation

/-!
# What a reply means

A read makes something of the reply to its one question, and of nothing else: an error of the channel is
passed on, `null` is the answer for what the index does not have, any other value is decoded or refused
(`Read.Means`, `means_told`).
-/

namespace IndexFs.Read

/-- What a value is decoded to, by the method of the read. -/
inductive Decodes (r : Read) (v : Json) : Value → Prop where
  | stat {s : FileStat} (hmethod : r.method = .statFile) (hstat : FileStat.decoder.ofJson v = .ok s) :
      Decodes r v (.stat s)
  | content {encoded : String} {bytes : List UInt8} (hmethod : r.method = .readFile)
      (hstring : v = .string encoded) (hbytes : Base64.decode (Utf8.ofString encoded) = .ok bytes) :
      Decodes r v (.content bytes)
  | listing {entries : List DirectoryEntry} (hmethod : r.method = .readDirectory)
      (hentries : Json.Decoder.listOfJson DirectoryEntry.decoder.ofJson v = .ok entries) :
      Decodes r v (.listing entries)

/-- What a reply means for a read, whether or not failed requests for metadata are taken as answers. -/
inductive Means (folding : Bool) (r : Read) : Except ChannelError Json → Except FsError Value → Prop where
  | failed (e : ChannelError) (hreported : r.method = .statFile → folding = false) :
      Means folding r (.error e) (.error (.transport e))
  | folded (e : ChannelError) (hmethod : r.method = .statFile) (hfolding : folding = true) :
      Means folding r (.error e) (.error (.fileNotFound r.uri))
  /-- The index has no such entry. -/
  | missing (hmethod : r.method ≠ .readDirectory) : Means folding r (.ok .null) (.error (.fileNotFound r.uri))
  /-- A directory that the index does not have is empty. -/
  | empty (hmethod : r.method = .readDirectory) : Means folding r (.ok .null) (.ok (.listing []))
  | decoded {v : Json} {x : Value} (hvalue : v ≠ .null) (hdecodes : r.Decodes v x) :
      Means folding r (.ok v) (.ok x)
  /-- A value of another shape. -/
  | garbled {v : Json} (hvalue : v ≠ .null) (hother : ∀ x, ¬r.Decodes v x) (reason : String) :
      Means folding r (.ok v) (.error (.decode reason))

/-- How a read ends, by the reply to its question. -/
def told (folding : Bool) (r : Read) (reply : Except ChannelError Json) : Except FsError Value :=
  if folding then r.folded (r.result reply) else r.result reply

/-! ## Values -/

theorem optionalOfJson_of_ne {α : Type} {v : Json} (hvalue : v ≠ .null)
    (d : Json → Except Json.Mismatch α) : Json.Decoder.optionalOfJson d v = some <$> d v := by
  cases v with
  | null => exact absurd rfl hvalue
  | _ => rfl

/-- How a read ends, by the answer that is found in a value. -/
theorem result_eq (r : Read) {v : Json} {answer : Except Json.Mismatch Method.Answer}
    (h : r.method.answerOfJson v = answer) :
    r.result (.ok v) =
      (answer.mapError fun d => FsError.decode (r.method.name ++ " response: " ++ d.message)).bind
        r.valueOf := by
  subst h
  rfl

/-- A value is either decoded as metadata, or it decodes to nothing and is an error. -/
theorem result_of_stat (url : Url) {v : Json} (hvalue : v ≠ .null) :
    (∃ x, Decodes ⟨.statFile, url⟩ v x ∧ result ⟨.statFile, url⟩ (.ok v) = .ok x) ∨
      (∀ x, ¬Decodes ⟨.statFile, url⟩ v x) ∧
        ∃ reason, result ⟨.statFile, url⟩ (.ok v) = .error (.decode reason) := by
  have hanswer : Method.answerOfJson .statFile v = .stat <$> some <$> FileStat.decoder.ofJson v :=
    congrArg (Method.Answer.stat <$> ·) (optionalOfJson_of_ne hvalue FileStat.decoder.ofJson)
  rw [result_eq ⟨.statFile, url⟩ hanswer]
  cases hstat : FileStat.decoder.ofJson v with
  | ok s => exact .inl ⟨.stat s, .stat rfl hstat, rfl⟩
  | error d =>
    refine .inr ⟨fun x hx => ?_, _, rfl⟩
    cases hx with
    | stat _ hstat' => cases hstat.symm.trans hstat'
    | content hmethod => cases hmethod
    | listing hmethod => cases hmethod

theorem result_of_string (url : Url) (encoded : String) :
    (∃ x, Decodes ⟨.readFile, url⟩ (.string encoded) x ∧
        result ⟨.readFile, url⟩ (.ok (.string encoded)) = .ok x) ∨
      (∀ x, ¬Decodes ⟨.readFile, url⟩ (.string encoded) x) ∧
        ∃ reason, result ⟨.readFile, url⟩ (.ok (.string encoded)) = .error (.decode reason) := by
  have hresult : result ⟨.readFile, url⟩ (.ok (.string encoded)) =
      Value.content <$> decodeContent (Utf8.ofString encoded) := rfl
  rw [hresult]
  unfold decodeContent
  cases hbytes : Base64.decode (Utf8.ofString encoded) with
  | ok bytes => exact .inl ⟨.content bytes, .content rfl rfl hbytes, rfl⟩
  | error f =>
    refine .inr ⟨fun x hx => ?_, _, rfl⟩
    cases hx with
    | content _ hstring hbytes' =>
      cases hstring
      cases hbytes.symm.trans hbytes'
    | stat hmethod => cases hmethod
    | listing hmethod => cases hmethod

theorem result_of_content (url : Url) {v : Json} (hvalue : v ≠ .null) :
    (∃ x, Decodes ⟨.readFile, url⟩ v x ∧ result ⟨.readFile, url⟩ (.ok v) = .ok x) ∨
      (∀ x, ¬Decodes ⟨.readFile, url⟩ v x) ∧
        ∃ reason, result ⟨.readFile, url⟩ (.ok v) = .error (.decode reason) := by
  by_cases hstring : ∃ encoded, v = .string encoded
  · obtain ⟨encoded, rfl⟩ := hstring
    exact result_of_string url encoded
  · refine .inr ⟨fun x hx => ?_, ?_⟩
    · cases hx with
      | content _ hsame _ => exact hstring ⟨_, hsame⟩
      | stat hmethod => cases hmethod
      | listing hmethod => cases hmethod
    · cases v with
      | null => exact absurd rfl hvalue
      | string encoded => exact absurd ⟨encoded, rfl⟩ hstring
      | _ => exact ⟨_, rfl⟩

/-- A value is either decoded as a listing, or it decodes to nothing and is an error. -/
theorem result_of_listing (url : Url) {v : Json} (hvalue : v ≠ .null) :
    (∃ x, Decodes ⟨.readDirectory, url⟩ v x ∧ result ⟨.readDirectory, url⟩ (.ok v) = .ok x) ∨
      (∀ x, ¬Decodes ⟨.readDirectory, url⟩ v x) ∧
        ∃ reason, result ⟨.readDirectory, url⟩ (.ok v) = .error (.decode reason) := by
  have hanswer : Method.answerOfJson .readDirectory v =
      .listing <$> some <$> Json.Decoder.listOfJson DirectoryEntry.decoder.ofJson v :=
    congrArg (Method.Answer.listing <$> ·) (optionalOfJson_of_ne hvalue _)
  rw [result_eq ⟨.readDirectory, url⟩ hanswer]
  cases hentries : Json.Decoder.listOfJson DirectoryEntry.decoder.ofJson v with
  | ok entries => exact .inl ⟨.listing entries, .listing rfl hentries, rfl⟩
  | error d =>
    refine .inr ⟨fun x hx => ?_, _, rfl⟩
    cases hx with
    | listing _ hentries' => cases hentries.symm.trans hentries'
    | stat hmethod => cases hmethod
    | content hmethod => cases hmethod

/-- A value is decoded, or refused as one of another shape. -/
theorem result_of_value (r : Read) {v : Json} (hvalue : v ≠ .null) :
    (∃ x, r.Decodes v x ∧ r.result (.ok v) = .ok x) ∨
      (∀ x, ¬r.Decodes v x) ∧ ∃ reason, r.result (.ok v) = .error (.decode reason) := by
  obtain ⟨method, url⟩ := r
  cases method with
  | statFile => exact result_of_stat url hvalue
  | readFile => exact result_of_content url hvalue
  | readDirectory => exact result_of_listing url hvalue

/-- What the index does not have. -/
theorem result_of_null (r : Read) :
    r.result (.ok .null) =
      if r.method = .readDirectory then .ok (.listing []) else .error (.fileNotFound r.uri) := by
  obtain ⟨method, url⟩ := r
  cases method <;> rfl

/-! ## Replies -/

/-- What did not fail on its way is told as it is. -/
theorem told_eq (folding : Bool) (r : Read) {reply : Except ChannelError Json}
    {result : Except FsError Value} (hresult : r.result reply = result)
    (h : ∀ e, result ≠ .error (.transport e)) : r.told folding reply = result := by
  subst hresult
  unfold told folded
  cases folding with
  | false => rfl
  | true =>
    rw [if_pos rfl]
    split
    · next hfailed => exact absurd hfailed (h _)
    · rfl

/-- What a read is told of an error is what the error means to it. -/
theorem means_error (folding : Bool) (r : Read) (e : ChannelError) :
    r.Means folding (.error e) (r.told folding (.error e)) := by
  obtain ⟨method, url⟩ := r
  cases folding with
  | false => exact .failed e fun _ => rfl
  | true =>
    cases method with
    | statFile => exact .folded e rfl rfl
    | readFile => exact .failed e nofun
    | readDirectory => exact .failed e nofun

/-- Each reply means something for each read. -/
theorem means_told (folding : Bool) (r : Read) (reply : Except ChannelError Json) :
    r.Means folding reply (r.told folding reply) := by
  cases reply with
  | error e => exact means_error folding r e
  | ok v =>
    by_cases hvalue : v = .null
    · subst hvalue
      have hresult := r.result_of_null
      by_cases hmethod : r.method = .readDirectory
      · rw [if_pos hmethod] at hresult
        rw [told_eq folding r hresult nofun]
        exact .empty hmethod
      · rw [if_neg hmethod] at hresult
        rw [told_eq folding r hresult nofun]
        exact .missing hmethod
    · rcases r.result_of_value hvalue with ⟨x, hdecodes, hresult⟩ | ⟨hother, reason, hresult⟩
      · rw [told_eq folding r hresult nofun]
        exact .decoded hvalue hdecodes
      · rw [told_eq folding r hresult nofun]
        exact .garbled hvalue hother reason

end IndexFs.Read

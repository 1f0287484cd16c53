import IndexFs.Proofs.Frame.Line
import IndexFs.Proofs.Frame.Stream

/-!
# The grammar of frames

A frame is a header and a body. The header consists of blank lines, which count for nothing, of at least one line
that is not blank, and of a blank line that ends it; the last length that its lines give is the length of the
body (`IsFrame`). Reading takes exactly such frames off a stream (`readOff_grammar`).
-/

namespace IndexFs.Frame

/-! ## Headers -/

/-- The length that counts after `latest` and the lengths that are given later: the last one, if all of them
are numbers. -/
def announced (latest : Option Nat) : List (List Char) → Except ChannelError (Option Nat)
  | [] => .ok latest
  | text :: texts =>
    match Decimal.natural text with
    | .ok n => announced (some n) texts
    | .error flaw => .error
      (.protocol ("invalid Content-Length '" ++ String.ofList text ++ "': " ++ flaw.message))

/-- Lines that give a length: what they give are numbers, and the last one of them is `n`. -/
def Announces (lines : List (List Char)) (n : Nat) : Prop :=
  ∃ ns, List.Forall₂ Decimal.Gives (lengthTexts lines) ns ∧ ns.getLast? = some n

theorem announced_eq_some_iff {latest : Option Nat} {texts : List (List Char)} {n : Nat} :
    announced latest texts = .ok (some n) ↔
      ∃ ns, List.Forall₂ Decimal.Gives texts ns ∧ (latest.toList ++ ns).getLast? = some n := by
  induction texts generalizing latest with
  | nil =>
    constructor
    · intro h
      obtain rfl : latest = some n := Except.ok.inj h
      exact ⟨[], .nil, rfl⟩
    · rintro ⟨ns, hns, hlast⟩
      cases hns
      cases latest with
      | none => cases hlast
      | some m => exact congrArg Except.ok hlast
  | cons text texts ih =>
    rw [announced]
    cases hnatural : Decimal.natural text with
    | error flaw =>
      constructor
      · intro h
        cases h
      · rintro ⟨ns, hns, -⟩
        cases hns with
        | cons hgives _ => cases hnatural.symm.trans (Decimal.natural_eq_ok_iff.mpr hgives)
    | ok m =>
      dsimp only
      rw [ih]
      -- what came before a length does not count any more
      have hlast (ns : List Nat) : (latest.toList ++ m :: ns).getLast? = ((some m).toList ++ ns).getLast? := by
        rw [List.getLast?_append_of_ne_nil _ (List.cons_ne_nil m ns)]
        rfl
      constructor
      · rintro ⟨ns, hns, hn⟩
        exact ⟨m :: ns, .cons (Decimal.natural_eq_ok_iff.mp hnatural) hns, (hlast ns).trans hn⟩
      · rintro ⟨_, hns, hn⟩
        cases hns with
        | @cons _ k _ ns hgives hns =>
          obtain rfl : m = k := Except.ok.inj (hnatural.symm.trans (Decimal.natural_eq_ok_iff.mpr hgives))
          exact ⟨ns, hns, (hlast ns).symm.trans hn⟩

theorem announces_iff {lines : List (List Char)} {n : Nat} :
    Announces lines n ↔ announced none (lengthTexts lines) = .ok (some n) := by
  rw [announced_eq_some_iff]
  rfl

/-- The lines in front of a body: blank lines, the lines of the header, and the blank line that ends it. Of a
blank line only the number of its carriage returns counts. -/
structure Head where
  blanks : List Nat
  lines : List (List Char)
  last : Nat
  lines_ne_nil : lines ≠ []
  isHeaderLine : ∀ line ∈ lines, IsHeaderLine line

def Head.bytes (h : Head) : List UInt8 :=
  h.blanks.flatMap blankLine ++ (h.lines.flatMap lineBytes ++ blankLine h.last)

/-- The lines of a header are read one after the other, until one of them gives a length that is no number. -/
theorem readHeader_lines {lines : List (List Char)} (h : ∀ line ∈ lines, IsHeaderLine line)
    (ending : Ending) (hd : Header) (rest : List UInt8) :
    (∃ length, announced hd.length (lengthTexts lines) = .ok length ∧
        readHeader ending hd [] (lines.flatMap lineBytes ++ rest) =
          readHeader ending ⟨length, hd.seen || !lines.isEmpty⟩ [] rest) ∨
      ∃ e more, announced hd.length (lengthTexts lines) = .error e ∧
        readHeader ending hd [] (lines.flatMap lineBytes ++ rest) = .fault e more := by
  -- line by line: a line that is no length leaves what is announced, and a length replaces it
  induction lines generalizing hd with
  | nil =>
    refine .inl ⟨hd.length, rfl, ?_⟩
    simp
  | cons line lines ih =>
    have hlines := fun l hl => h l (List.mem_cons_of_mem line hl)
    rw [List.flatMap_cons, List.append_assoc, readHeader_lineBytes (h line List.mem_cons_self)]
    unfold lengthTexts at ih ⊢
    rw [List.filterMap_cons]
    cases lengthText? line with
    | none =>
      dsimp only
      simpa using ih hlines { hd with seen := true }
    | some text =>
      dsimp only
      rw [announced]
      -- a length that is no number ends the reading where it stands
      cases Decimal.natural text with
      | error flaw => exact .inr ⟨_, _, rfl, rfl⟩
      | ok n =>
        dsimp only
        simpa using ih hlines ⟨some n, true⟩

theorem readHeader_blankLines (ending : Ending) (blanks : List Nat) (rest : List UInt8) :
    readHeader ending .empty [] (blanks.flatMap blankLine ++ rest) = readHeader ending .empty [] rest := by
  induction blanks with
  | nil => rfl
  | cons k blanks ih =>
    rw [List.flatMap_cons, List.append_assoc, readHeader_blankLine]
    exact ih

/-- The lines in front of a body lead to the body, unless one of them gives a length that is no number. -/
theorem read_head (h : Head) (ending : Ending) (rest : List UInt8) :
    (∃ length, announced none (lengthTexts h.lines) = .ok length ∧
        read ending (h.bytes ++ rest) = endHeader ending ⟨length, true⟩ rest) ∨
      ∃ e more, announced none (lengthTexts h.lines) = .error e ∧
        read ending (h.bytes ++ rest) = .fault e more := by
  have hempty : h.lines.isEmpty = false := by simpa using h.lines_ne_nil
  rw [read, Head.bytes, List.append_assoc, List.append_assoc, readHeader_blankLines]
  rcases readHeader_lines h.isHeaderLine ending .empty (blankLine h.last ++ rest) with
    ⟨length, hlength, hread⟩ | hfault
  · refine .inl ⟨length, hlength, ?_⟩
    rw [hread, hempty, readHeader_blankLine]
    rfl
  · exact .inr hfault

/-! ## What is read as a message -/

/-- The body of a message stands behind the header that gives its length. -/
theorem body_of_endHeader {ending : Ending} {hd : Header} {bs rest : List UInt8} {v : Json}
    (h : endHeader ending hd bs = .message v rest) :
    ∃ body, hd.length = some body.length ∧ body.length ≤ maxBody ∧ Json.parse body = .ok v ∧
      bs = body ++ rest := by
  unfold endHeader at h
  cases hlength : hd.length with
  | none =>
    rw [hlength] at h
    cases h
  | some n =>
    rw [hlength] at h
    dsimp only at h
    unfold readBody at h
    split_ifs at h with hmax hlen
    · cases hparse : Json.parse (bs.take n) with
      | error f =>
        rw [hparse] at h
        cases h
      | ok w =>
        rw [hparse] at h
        obtain ⟨rfl, rfl⟩ := Outcome.message.inj h
        -- the body is as long as announced, and nothing behind it was looked at
        have htake : (bs.take n).length = n := List.length_take_of_le hlen
        refine ⟨bs.take n, ?_, ?_, hparse, ?_⟩
        · rw [htake]
        · rw [htake]
          exact Nat.not_lt.mp hmax
        · rw [List.take_append_drop]
    · cases ending <;> cases h

theorem endHeader_ne_finished (ending : Ending) (hd : Header) (bs : List UInt8) :
    endHeader ending hd bs ≠ .finished := by
  intro h
  unfold endHeader at h
  split at h
  · cases h
  · unfold readBody at h
    split_ifs at h
    · split at h <;> cases h
    · cases ending <;> cases h

/-- Where the bytes end in a header, it is not complete, or its last line is blank: then the header has ended, or
none has begun. -/
theorem stopInHeader_cases (ending : Ending) (hd : Header) (line : List UInt8) :
    (ending = .closed ∧ hd.seen = false ∧ (∀ b ∈ line, IsLineEnd b) ∧
        stopInHeader ending hd line = .finished) ∨
      stopInHeader ending hd line = endHeader ending hd [] ∨
        stopInHeader ending hd line = .pending ∨ (∃ m, stopInHeader ending hd line = .failed m) ∨
          ∃ e, stopInHeader ending hd line = .fault e [] := by
  unfold stopInHeader
  cases ending with
  | unknown => exact .inr (.inr (.inl rfl))
  | failed m => exact .inr (.inr (.inr (.inl ⟨m, rfl⟩)))
  | closed =>
    dsimp only
    by_cases hempty : line.isEmpty = true
    · obtain rfl := List.isEmpty_iff.mp hempty
      cases hseen : hd.seen with
      | true => exact .inr (.inr (.inr (.inr ⟨_, rfl⟩)))
      | false => exact .inl ⟨rfl, rfl, by simp, rfl⟩
    · rw [if_neg hempty]
      -- the last line has no end, and is read as if it had one
      cases hline : readLine line.reverse with
      | error e => exact .inr (.inr (.inr (.inr ⟨e, rfl⟩)))
      | ok kind =>
        cases kind with
        | other => exact .inr (.inr (.inr (.inr ⟨_, rfl⟩)))
        | length n => exact .inr (.inr (.inr (.inr ⟨_, rfl⟩)))
        | blank =>
          have hends : ∀ b ∈ line, IsLineEnd b := by
            intro b hb
            exact readLine_eq_blank_iff.mp hline b (List.mem_reverse.mpr hb)
          cases hseen : hd.seen with
          | true => exact .inr (.inl rfl)
          | false => exact .inl ⟨rfl, rfl, hends, rfl⟩

/-- No message ends before its header has ended: its body would be empty. -/
theorem stopInHeader_ne_message (ending : Ending) (hd : Header) (line : List UInt8) (v : Json)
    (rest : List UInt8) : stopInHeader ending hd line ≠ .message v rest := by
  intro h
  rcases stopInHeader_cases ending hd line with ⟨-, -, -, hstop⟩ | hstop | hstop | ⟨m, hstop⟩ | ⟨e, hstop⟩
  · cases hstop.symm.trans h
  · obtain ⟨body, -, -, hparse, hnil⟩ := body_of_endHeader (hstop.symm.trans h)
    obtain ⟨rfl, -⟩ := List.append_eq_nil_iff.mp hnil.symm
    cases hparse
  · cases hstop.symm.trans h
  · cases hstop.symm.trans h
  · cases hstop.symm.trans h

/-- A stream ends between frames only where it ends without any line of a header. -/
theorem stopInHeader_eq_finished {ending : Ending} {hd : Header} {line : List UInt8}
    (h : stopInHeader ending hd line = .finished) :
    ending = .closed ∧ hd.seen = false ∧ ∀ b ∈ line, IsLineEnd b := by
  rcases stopInHeader_cases ending hd line with ⟨hclosed, hseen, hends, -⟩ | hstop | hstop | ⟨m, hstop⟩ | ⟨e, hstop⟩
  · exact ⟨hclosed, hseen, hends⟩
  · exact absurd (hstop.symm.trans h) (endHeader_ne_finished _ _ _)
  · cases hstop.symm.trans h
  · cases hstop.symm.trans h
  · cases hstop.symm.trans h

/-- Where lines of a header end: where the bytes end, at a blank line if there was a line before it, or at a
line that cannot be read. -/
inductive Stops : Bool → List UInt8 → Prop where
  | unended {seen : Bool} {l : List UInt8} (hl : 0x0A ∉ l) : Stops seen l
  | blank (last : Nat) (rest : List UInt8) : Stops true (blankLine last ++ rest)
  | unreadable {seen : Bool} {l : List UInt8} {e : ChannelError} (hl : 0x0A ∉ l)
      (he : readLine (l ++ [0x0A]) = .error e) (rest : List UInt8) : Stops seen (l ++ 0x0A :: rest)

theorem forall_isHeaderLine_cons {line : List Char} {lines : List (List Char)} (hline : IsHeaderLine line)
    (hlines : ∀ line ∈ lines, IsHeaderLine line) : ∀ l ∈ line :: lines, IsHeaderLine l := by
  simpa using ⟨hline, hlines⟩

theorem exists_lines (bs : List UInt8) :
    ∃ (lines : List (List Char)) (tail : List UInt8), bs = lines.flatMap lineBytes ++ tail ∧
      (∀ line ∈ lines, IsHeaderLine line) ∧ Stops true tail := by
  induction bs using lines_induction with
  | unended l hl => exact ⟨[], l, rfl, by simp, .unended hl⟩
  | ended l rest hl ih =>
    rcases line_cases hl with ⟨last, hblank⟩ | ⟨line, hline, hbytes⟩ | ⟨e, he⟩
    · rw [List.append_cons, hblank]
      exact ⟨[], _, rfl, by simp, .blank last rest⟩
    · obtain ⟨lines, tail, rfl, hlines, htail⟩ := ih
      refine ⟨line :: lines, tail, ?_, forall_isHeaderLine_cons hline hlines, htail⟩
      rw [List.append_cons, hbytes, List.flatMap_cons, List.append_assoc]
    · exact ⟨[], _, rfl, by simp, .unreadable hl he rest⟩

/-- All bytes begin with blank lines and lines of a header behind them. -/
theorem exists_parts (bs : List UInt8) :
    ∃ (blanks : List Nat) (lines : List (List Char)) (tail : List UInt8),
      bs = blanks.flatMap blankLine ++ (lines.flatMap lineBytes ++ tail) ∧
        (∀ line ∈ lines, IsHeaderLine line) ∧ Stops (!lines.isEmpty) tail := by
  induction bs using lines_induction with
  | unended l hl => exact ⟨[], [], l, rfl, by simp, .unended hl⟩
  | ended l rest hl ih =>
    rcases line_cases hl with ⟨returns, hblank⟩ | ⟨line, hline, hbytes⟩ | ⟨e, he⟩
    · obtain ⟨blanks, lines, tail, rfl, hlines, htail⟩ := ih
      refine ⟨returns :: blanks, lines, tail, ?_, hlines, htail⟩
      rw [List.append_cons, hblank, List.flatMap_cons, List.append_assoc]
    · obtain ⟨lines, tail, rfl, hlines, htail⟩ := exists_lines rest
      refine ⟨[], line :: lines, tail, ?_, forall_isHeaderLine_cons hline hlines, htail⟩
      rw [List.append_cons, hbytes, List.flatMap_cons, List.append_assoc]
      rfl
    · exact ⟨[], [], _, rfl, by simp, .unreadable hl he rest⟩

/-- Bytes that are a frame of the message `v`: the lines of a header, the last length of which is the number of
bytes of the body behind them, and this body, a JSON text of `v`. -/
def IsFrame (frame : List UInt8) (v : Json) : Prop :=
  ∃ (h : Head) (body : List UInt8), frame = h.bytes ++ body ∧ Announces h.lines body.length ∧
    body.length ≤ maxBody ∧ Json.parse body = .ok v

/-- A header leads to a body of the length that it gives. -/
theorem read_head_of_announces {h : Head} {n : Nat} (hn : Announces h.lines n) (ending : Ending)
    (rest : List UInt8) : read ending (h.bytes ++ rest) = readBody ending n rest := by
  have hannounced := announces_iff.mp hn
  rcases read_head h ending rest with ⟨length, hlength, hread⟩ | ⟨e, more, herror, -⟩
  · obtain rfl : length = some n := Except.ok.inj (hlength.symm.trans hannounced)
    exact hread
  · cases herror.symm.trans hannounced

/-- Every byte string is at fault, ends in a header or in front of one, or begins with a whole header. -/
theorem read_cases (ending : Ending) (bs : List UInt8) :
    (∃ e rest, read ending bs = .fault e rest) ∨
      (∃ (blanks : List Nat) (lines : List (List Char)) (l : List UInt8) (length : Option Nat),
        bs = blanks.flatMap blankLine ++ (lines.flatMap lineBytes ++ l) ∧
          read ending bs = stopInHeader ending ⟨length, !lines.isEmpty⟩ l.reverse) ∨
        ∃ (h : Head) (length : Option Nat) (rest : List UInt8), bs = h.bytes ++ rest ∧
          announced none (lengthTexts h.lines) = .ok length ∧
            read ending bs = endHeader ending ⟨length, true⟩ rest := by
  obtain ⟨blanks, lines, tail, rfl, hlines, htail⟩ := exists_parts bs
  have hblanks := readHeader_blankLines ending blanks (lines.flatMap lineBytes ++ tail)
  rcases readHeader_lines hlines ending .empty tail with ⟨length, hlength, hread⟩ | ⟨e, more, -, hread⟩
  · -- the lengths are numbers, and reading goes on to where the lines stop
    rw [read, hblanks, hread]
    generalize hseen : (!lines.isEmpty) = seen at htail
    cases htail with
    | unended hl =>
      refine .inr (.inl ⟨blanks, lines, _, length, rfl, ?_⟩)
      rw [readHeader_unended hl, List.append_nil, hseen]
      rfl
    | unreadable hl he rest =>
      rw [readHeader_ended hl, he]
      exact .inl ⟨_, _, rfl⟩
    | blank last rest =>
      have hne : lines ≠ [] := by simpa using hseen
      refine .inr (.inr ⟨⟨blanks, lines, last, hne, hlines⟩, length, rest, ?_, hlength, ?_⟩)
      · simp only [Head.bytes, List.append_assoc]
      · rw [readHeader_blankLine]
        rfl
  · exact .inl ⟨e, more, by rw [read, hblanks, hread]⟩

/-- A message is read exactly where its frame stands, whatever follows it. -/
theorem read_eq_message_iff {ending : Ending} {bs rest : List UInt8} {v : Json} :
    read ending bs = .message v rest ↔ ∃ frame, IsFrame frame v ∧ bs = frame ++ rest := by
  constructor
  · intro hmessage
    rcases read_cases ending bs with ⟨e, more, hread⟩ | ⟨_, _, _, _, -, hread⟩ |
      ⟨h, length, tail, rfl, hlength, hread⟩
    · cases hread.symm.trans hmessage
    · exact absurd (hread.symm.trans hmessage) (stopInHeader_ne_message _ _ _ _ _)
    · obtain ⟨body, hbody, hmax, hparse, rfl⟩ := body_of_endHeader (hread.symm.trans hmessage)
      obtain rfl : length = some body.length := hbody
      refine ⟨h.bytes ++ body, ⟨h, body, rfl, announces_iff.mpr hlength, hmax, hparse⟩, ?_⟩
      rw [List.append_assoc]
  · rintro ⟨_, ⟨h, body, rfl, hn, hmax, hparse⟩, rfl⟩
    rw [List.append_assoc, read_head_of_announces hn, readBody_whole hmax, hparse]

/-- A stream that holds nothing but line ends ends between frames. -/
theorem read_lineEnds_closed {bs : List UInt8} (h : ∀ b ∈ bs, IsLineEnd b) :
    read .closed bs = .finished := by
  rw [read]
  induction bs using lines_induction with
  | unended l hl =>
    have hblank : readLine l.reverse.reverse = .ok .blank := by
      rw [List.reverse_reverse]
      exact readLine_eq_blank_iff.mpr h
    rw [readHeader_unended hl, List.append_nil, stopInHeader]
    by_cases hempty : l.reverse.isEmpty = true
    · simp only [hempty, if_true]
      rfl
    · simp only [hempty, hblank]
      rfl
  | ended l rest hl ih =>
    rw [List.append_cons] at h
    have hblank := readLine_eq_blank_iff.mpr fun b hb => h b (List.mem_append_left rest hb)
    rw [readHeader_ended hl, hblank]
    exact ih fun b hb => h b (List.mem_append_right _ hb)

/-- The end between frames is found exactly where nothing but line ends is left. -/
theorem read_eq_finished_iff {ending : Ending} {bs : List UInt8} :
    read ending bs = .finished ↔ ending = .closed ∧ ∀ b ∈ bs, IsLineEnd b := by
  constructor
  · intro hfinished
    rcases read_cases ending bs with ⟨e, more, hread⟩ | ⟨blanks, lines, l, length, rfl, hread⟩ |
      ⟨_, _, _, -, -, hread⟩
    · cases hread.symm.trans hfinished
    · obtain ⟨hclosed, hunseen, hl⟩ := stopInHeader_eq_finished (hread.symm.trans hfinished)
      obtain rfl : lines = [] := by simpa using hunseen
      refine ⟨hclosed, ?_⟩
      intro b hb
      rcases List.mem_append.mp hb with hb | hb
      · obtain ⟨returns, -, hb⟩ := List.mem_flatMap.mp hb
        exact readLine_eq_blank_iff.mp (readLine_blankLine returns) b hb
      · exact hl b (List.mem_reverse.mpr hb)
    · exact absurd (hread.symm.trans hfinished) (endHeader_ne_finished _ _ _)
  · rintro ⟨rfl, h⟩
    exact read_lineEnds_closed h

/-! ## The outcome without its rest -/

/-- An outcome without the bytes that are left. -/
def Outcome.bare : Outcome → Outcome
  | .message v _ => .message v []
  | .fault e _ => .fault e []
  | o => o

/-- Headers that give the same lengths lead to the same outcome. -/
theorem bare_read_head {h h' : Head} (hsame : lengthTexts h.lines = lengthTexts h'.lines) (ending : Ending)
    (rest : List UInt8) : (read ending (h.bytes ++ rest)).bare = (read ending (h'.bytes ++ rest)).bare := by
  rcases read_head h ending rest with ⟨length, hlength, hread⟩ | ⟨e, more, herror, hread⟩ <;>
    rcases read_head h' ending rest with ⟨length', hlength', hread'⟩ | ⟨e', more', herror', hread'⟩
  · rw [hsame] at hlength
    obtain rfl : length = length' := Except.ok.inj (hlength.symm.trans hlength')
    rw [hread, hread']
  · rw [hsame] at hlength
    cases hlength.symm.trans herror'
  · rw [hsame] at herror
    cases herror.symm.trans hlength'
  · rw [hsame] at herror
    obtain rfl : e = e' := Except.error.inj (herror.symm.trans herror')
    rw [hread, hread']
    rfl

/-- Reading takes exactly the first frame off a stream, however it is cut, and only where one stands: a message
is read where its frame stands, whatever follows; the end between frames where nothing but line ends is left; a
length beyond the limit is refused in front of the body, and a body that is no JSON text behind it. Of the header
only the lengths matter. -/
theorem readOff_grammar (buffer : List UInt8) (chunks : List Chunk) :
    (∀ v rest, readOff buffer chunks = .message v rest ↔
        ∃ frame, IsFrame frame v ∧ buffer ++ arriving chunks = frame ++ rest) ∧
      (readOff buffer chunks = .finished ↔
        endingOf chunks = .closed ∧ ∀ b ∈ buffer ++ arriving chunks, b = 0x0D ∨ b = 0x0A) ∧
      (∀ (h : Head) (n : Nat) (rest : List UInt8), Announces h.lines n → maxBody < n →
        buffer ++ arriving chunks = h.bytes ++ rest →
          readOff buffer chunks =
            .fault (.protocol s!"message of {n} bytes exceeds the {maxBody} byte limit") rest) ∧
      (∀ (h : Head) (body rest : List UInt8), Announces h.lines body.length → body.length ≤ maxBody →
        (∀ v, Json.parse body ≠ .ok v) → buffer ++ arriving chunks = h.bytes ++ body ++ rest →
          ∃ reason, readOff buffer chunks = .fault (.protocol reason) rest) ∧
      ∀ (h h' : Head) (rest buffer' : List UInt8) (chunks' : List Chunk),
        lengthTexts h.lines = lengthTexts h'.lines → buffer ++ arriving chunks = h.bytes ++ rest →
        buffer' ++ arriving chunks' = h'.bytes ++ rest → endingOf chunks = endingOf chunks' →
          (readOff buffer chunks).bare = (readOff buffer' chunks').bare := by
  -- the chunks make no difference: everything is about the bytes as one
  simp only [readOff_eq]
  refine ⟨fun v rest => read_eq_message_iff, read_eq_finished_iff, ?_, ?_, ?_⟩
  · intro h n rest hn hmax hbytes
    rw [hbytes, read_head_of_announces hn]
    unfold readBody
    rw [if_pos hmax]
  · intro h body rest hn hmax hparse hbytes
    rw [hbytes, List.append_assoc, read_head_of_announces hn, readBody_whole hmax]
    cases hbody : Json.parse body with
    | ok v => exact absurd hbody (hparse v)
    | error f => exact ⟨_, rfl⟩
  · intro h h' rest buffer' chunks' hsame hbytes hbytes' hending
    rw [hbytes, hbytes', hending]
    exact bare_read_head hsame _ rest

example : readOff [] [.bytes (Utf8.ofString "\r\n\nA\r\ncontent-LENGTH : +1\nB:2\r\n\r\n12")] =
    .message (.number (.integer 1)) [0x32] := by
  rfl

end IndexFs.Frame

import IndexFs.Frame
import IndexFs.Proofs.Decimal
import IndexFs.Proofs.Json.Value

/-!
# Reading frames

What was read off the bytes that have arrived is not changed by bytes that arrive later (`read_append`),
every message takes bytes away (`length_lt_of_read`), and the frame of a message is read as this message,
after any blank lines and whatever follows it (`read_bytes`, `read_lineEnd`).
-/

namespace IndexFs.Frame

/-! ## More bytes -/

/-- The same outcome with more bytes behind the frame. -/
def Outcome.append : Outcome → List UInt8 → Outcome
  | .message v rest, more => .message v (rest ++ more)
  | .fault e rest, more => .fault e (rest ++ more)
  | .finished, _ => .finished
  | .failed m, _ => .failed m
  | .pending, _ => .pending

theorem Outcome.append_eq_message {o : Outcome} {more rest : List UInt8} {v : Json}
    (h : o.append more = .message v rest) : ∃ rest', o = .message v rest' ∧ rest' ++ more = rest := by
  cases o with
  | message w rest' =>
    injection h with hw hrest
    exact ⟨rest', by rw [hw], hrest⟩
  | fault e rest' => cases h
  | finished => cases h
  | failed m => cases h
  | pending => cases h

theorem Outcome.append_eq_fault {o : Outcome} {more rest : List UInt8} {e : ChannelError}
    (h : o.append more = .fault e rest) : ∃ rest', o = .fault e rest' ∧ rest' ++ more = rest := by
  cases o with
  | fault e' rest' =>
    injection h with he hrest
    exact ⟨rest', by rw [he], hrest⟩
  | message w rest' => cases h
  | finished => cases h
  | failed m => cases h
  | pending => cases h

theorem Outcome.append_eq_finished {o : Outcome} {more : List UInt8} (h : o.append more = .finished) :
    o = .finished := by
  cases o with
  | finished => rfl
  | message w rest' => cases h
  | fault e rest' => cases h
  | failed m => cases h
  | pending => cases h

theorem readBody_append {length : Nat} {bs : List UInt8}
    (h : readBody .unknown length bs ≠ .pending) (ending : Ending) (more : List UInt8) :
    readBody ending length (bs ++ more) = (readBody .unknown length bs).append more := by
  unfold readBody at h ⊢
  by_cases hmax : maxBody < length
  · rw [if_pos hmax, if_pos hmax]
    rfl
  · rw [if_neg hmax] at h ⊢
    rw [if_neg hmax]
    by_cases hlen : length ≤ bs.length
    · have hlen' : length ≤ (bs ++ more).length := by
        rw [List.length_append]
        omega
      rw [if_pos hlen, if_pos hlen', List.take_append_of_le_length hlen,
        List.drop_append_of_le_length hlen]
      cases Json.parse (bs.take length) <;> rfl
    · rw [if_neg hlen] at h
      exact absurd rfl h

theorem endHeader_append {hd : Header} {bs : List UInt8} (h : endHeader .unknown hd bs ≠ .pending)
    (ending : Ending) (more : List UInt8) :
    endHeader ending hd (bs ++ more) = (endHeader .unknown hd bs).append more := by
  unfold endHeader at h ⊢
  cases hlength : hd.length with
  | none => rfl
  | some n =>
    rw [hlength] at h
    exact readBody_append h ending more

theorem readHeader_append {hd : Header} {line bs : List UInt8}
    (h : readHeader .unknown hd line bs ≠ .pending) (ending : Ending) (more : List UInt8) :
    readHeader ending hd line (bs ++ more) = (readHeader .unknown hd line bs).append more := by
  -- the bytes so far may end anywhere in a line, and so the header and the line collected so far vary
  induction bs generalizing hd line with
  | nil => exact absurd rfl h
  | cons b bs ih =>
    rw [List.cons_append]
    rw [readHeader] at h ⊢
    rw [readHeader]
    by_cases hb : b = 0x0A
    · rw [if_pos hb] at h ⊢
      rw [if_pos hb]
      cases hline : readLine (b :: line).reverse with
      | error e => rfl
      | ok kind =>
        rw [hline] at h
        cases kind with
        | other => exact ih h
        | length n => exact ih h
        | blank =>
          by_cases hseen : hd.seen = true
          · simp only [hseen, if_true] at h ⊢
            exact endHeader_append h ending more
          · simp only [hseen] at h ⊢
            exact ih h
    · rw [if_neg hb] at h ⊢
      rw [if_neg hb]
      exact ih h

/-- What was read stays what it is when more bytes arrive. -/
theorem read_append {bs : List UInt8} (h : read .unknown bs ≠ .pending) (ending : Ending)
    (more : List UInt8) : read ending (bs ++ more) = (read .unknown bs).append more :=
  readHeader_append h ending more

/-! ## Progress -/

theorem readBody_message {ending : Ending} {length : Nat} {bs rest : List UInt8} {v : Json}
    (h : readBody ending length bs = .message v rest) : rest.length ≤ bs.length := by
  unfold readBody at h
  split_ifs at h
  · cases hparse : Json.parse (bs.take length) with
    | error f =>
      rw [hparse] at h
      cases h
    | ok w =>
      rw [hparse] at h
      cases h
      rw [List.length_drop]
      omega
  · cases ending <;> cases h

theorem endHeader_message {ending : Ending} {hd : Header} {bs rest : List UInt8} {v : Json}
    (h : endHeader ending hd bs = .message v rest) : rest.length ≤ bs.length := by
  unfold endHeader at h
  cases hlength : hd.length with
  | none =>
    rw [hlength] at h
    cases h
  | some n =>
    rw [hlength] at h
    exact readBody_message h

theorem stopInHeader_message {ending : Ending} {hd : Header} {line rest : List UInt8} {v : Json}
    (h : stopInHeader ending hd line = .message v rest) : rest.length < line.length := by
  unfold stopInHeader at h
  cases ending with
  | unknown => cases h
  | failed m => cases h
  | closed =>
    cases line with
    | nil =>
      simp only [List.isEmpty_nil, if_true] at h
      split_ifs at h
      cases h
    | cons b line =>
      simp only [List.isEmpty_cons, Bool.false_eq_true, if_false] at h
      -- nothing can follow a line that the end of the stream cuts off
      have hrest : rest.length ≤ ([] : List UInt8).length := by
        cases hline : readLine (b :: line).reverse with
        | error e =>
          rw [hline] at h
          cases h
        | ok kind =>
          rw [hline] at h
          cases kind with
          | blank =>
            simp only at h
            split_ifs at h
            exact endHeader_message h
          | other => cases h
          | length n => cases h
      rw [List.length_nil] at hrest
      rw [List.length_cons]
      omega

theorem readHeader_message {ending : Ending} {hd : Header} {line bs rest : List UInt8} {v : Json}
    (h : readHeader ending hd line bs = .message v rest) :
    rest.length < line.length + bs.length := by
  -- each byte is taken off the rest and either put to the line or dropped with a line that has ended
  induction bs generalizing hd line with
  | nil =>
    rw [readHeader] at h
    have := stopInHeader_message h
    rw [List.length_nil]
    omega
  | cons b bs ih =>
    rw [List.length_cons]
    rw [readHeader] at h
    by_cases hb : b = 0x0A
    · rw [if_pos hb] at h
      cases hline : readLine (b :: line).reverse with
      | error e =>
        rw [hline] at h
        cases h
      | ok kind =>
        rw [hline] at h
        cases kind with
        | other =>
          have := ih h
          rw [List.length_nil] at this
          omega
        | length n =>
          have := ih h
          rw [List.length_nil] at this
          omega
        -- an empty line ends the header, unless nothing stood before it
        | blank =>
          by_cases hseen : hd.seen = true
          · simp only [hseen, if_true] at h
            have := endHeader_message h
            omega
          · simp only [hseen] at h
            have := ih h
            rw [List.length_nil] at this
            omega
    · rw [if_neg hb] at h
      have := ih h
      rw [List.length_cons] at this
      omega

/-- Every message takes at least one byte off the bytes that have arrived. -/
theorem length_lt_of_read {ending : Ending} {bs rest : List UInt8} {v : Json}
    (h : read ending bs = .message v rest) : rest.length < bs.length := by
  have := readHeader_message h
  rwa [List.length_nil, Nat.zero_add] at this

/-! ## Blank lines -/

/-- The two ends that a line may have. -/
inductive LineEnd where
  | lf
  | crlf
deriving DecidableEq, Repr

def LineEnd.bytes : LineEnd → List UInt8
  | .lf => [0x0A]
  | .crlf => [0x0D, 0x0A]

/-- A blank line in front of a frame is passed over. -/
theorem read_lineEnd (ending : Ending) (e : LineEnd) (bs : List UInt8) :
    read ending (e.bytes ++ bs) = read ending bs := by
  cases e <;> rfl

theorem read_lineEnds (ending : Ending) (es : List LineEnd) (bs : List UInt8) :
    read ending (es.flatMap LineEnd.bytes ++ bs) = read ending bs := by
  induction es with
  | nil => rfl
  | cons e es ih => rw [List.flatMap_cons, List.append_assoc, read_lineEnd, ih]

/-! ## Frames of messages -/

/-- Bytes up to the end of a line are collected. -/
theorem readHeader_line {bs : List UInt8} (h : 0x0A ∉ bs) (ending : Ending) (hd : Header)
    (line rest : List UInt8) :
    readHeader ending hd line (bs ++ 0x0A :: rest) =
      readHeader ending hd (bs.reverse ++ line) (0x0A :: rest) := by
  induction bs generalizing line with
  | nil => rfl
  | cons b bs ih =>
    have hb : b ≠ 0x0A := by
      rintro rfl
      exact h List.mem_cons_self
    rw [List.cons_append, readHeader, if_neg hb, ih fun hmem => h (List.mem_cons_of_mem b hmem),
      List.reverse_cons, List.append_assoc, List.singleton_append]

/-- The header line that gives the length. -/
def lengthLine (n : Nat) : List Char :=
  "Content-Length: ".toList ++ Decimal.digitChars n ++ ['\r']

theorem mem_lengthLine {n : Nat} {c : Char} (h : c ∈ lengthLine n) :
    c ∈ "Content-Length: ".toList ∨ c ∈ Decimal.digitChars n ∨ c = '\r' := by
  unfold lengthLine at h
  rcases List.mem_append.mp h with h | h
  · rcases List.mem_append.mp h with h | h
    · exact .inl h
    · exact .inr (.inl h)
  · exact .inr (.inr (List.mem_singleton.mp h))

theorem ascii_of_mem_lengthLine {n : Nat} {c : Char} (h : c ∈ lengthLine n) :
    c.toNat < 0x80 ∧ c.toNat ≠ 0x0A := by
  rcases mem_lengthLine h with h | h | rfl
  · have hall : ("Content-Length: ".toList.all fun c => c.toNat < 0x80 ∧ c.toNat ≠ 0x0A) = true := by
      decide
    exact of_decide_eq_true (List.all_eq_true.mp hall c h)
  · have := Decimal.toNat_digit_of_mem h
    omega
  · decide

theorem lineFeed_notMem_lengthLine (n : Nat) : 0x0A ∉ Utf8.encode (lengthLine n) := by
  rw [Utf8.encode_ascii fun c hc => (ascii_of_mem_lengthLine hc).1, List.mem_map]
  rintro ⟨c, hc, heq⟩
  have hascii := ascii_of_mem_lengthLine hc
  have hn := congrArg UInt8.toNat heq
  rw [Utf8.toNat_byte (by omega)] at hn
  exact hascii.2 hn

/-- A digit is neither blank nor part of a line end. -/
theorem digit_not_blank {n : Nat} {c : Char} (h : c ∈ Decimal.digitChars n) :
    Text.isBlank c = false ∧ c ≠ '\r' ∧ c ≠ '\n' := by
  obtain ⟨d, hd, rfl⟩ := Decimal.exists_digit_of_mem h
  have : ∀ d : Fin 10, Text.isBlank (Nat.digitChar d) = false ∧ Nat.digitChar d ≠ '\r' ∧
      Nat.digitChar d ≠ '\n' := by decide
  exact this ⟨d, hd⟩

theorem dropWhile_eq_self {p : Char → Bool} {cs : List Char} (h : ∀ c ∈ cs, p c = false) :
    cs.dropWhile p = cs := by
  cases cs with
  | nil => rfl
  | cons c cs => rw [List.dropWhile_cons_of_neg (by simp [h c List.mem_cons_self])]

theorem trim_digitChars (n : Nat) : Text.trim (' ' :: Decimal.digitChars n) = Decimal.digitChars n := by
  have hleft : (Decimal.digitChars n).dropWhile Text.isBlank = Decimal.digitChars n :=
    dropWhile_eq_self fun c hc => (digit_not_blank hc).1
  have hright : (Decimal.digitChars n).reverse.dropWhile Text.isBlank =
      (Decimal.digitChars n).reverse :=
    dropWhile_eq_self fun c hc => (digit_not_blank (List.mem_reverse.mp hc)).1
  rw [Text.trim, Text.trimBy, List.dropWhile_cons_of_pos (by decide), hleft, hright,
    List.reverse_reverse]

/-- The header line is read as the length, if this is a number of 64 bits. -/
theorem readLine_lengthLine (n : Nat) :
    readLine (Utf8.encode (lengthLine n ++ ['\n'])) =
      match Decimal.natural (Decimal.digitChars n) with
      | .ok n => .ok (.length n)
      | .error flaw => .error (.protocol ("invalid Content-Length '" ++
          String.ofList (Decimal.digitChars n) ++ "': " ++ flaw.message)) := by
  have hends : (lengthLine n ++ ['\n']).reverse.dropWhile (fun c => c = '\r' || c = '\n') =
      ("Content-Length: ".toList ++ Decimal.digitChars n).reverse := by
    have hreverse : (lengthLine n ++ ['\n']).reverse =
        '\n' :: '\r' :: ("Content-Length: ".toList ++ Decimal.digitChars n).reverse := by
      unfold lengthLine
      rw [List.reverse_append, List.reverse_append]
      rfl
    -- the line end goes, and nothing more, since a digit stands before it
    rw [hreverse, List.dropWhile_cons_of_pos (by decide), List.dropWhile_cons_of_pos (by decide),
      List.reverse_append]
    cases hcs : (Decimal.digitChars n).reverse with
    | nil => exact absurd (List.reverse_eq_nil_iff.mp hcs) (Decimal.digitChars_ne_nil n)
    | cons c cs =>
      have hc := digit_not_blank (n := n) (c := c) (by
        rw [← List.mem_reverse, hcs]
        exact List.mem_cons_self)
      rw [List.cons_append, List.dropWhile_cons_of_neg (by simp [hc.2.1, hc.2.2])]
  have hname : isName "content-length"
      (("Content-Length: ".toList ++ Decimal.digitChars n).takeWhile (· ≠ ':')) = true := by
    have htake : ("Content-Length: ".toList ++ Decimal.digitChars n).takeWhile (· ≠ ':') =
        "Content-Length".toList := rfl
    rw [htake]
    decide
  have hvalue : ("Content-Length: ".toList ++ Decimal.digitChars n).dropWhile (· ≠ ':') =
      ':' :: ' ' :: Decimal.digitChars n := rfl
  have hnonempty : ("Content-Length: ".toList ++ Decimal.digitChars n).isEmpty = false := rfl
  cases hnatural : Decimal.natural (Decimal.digitChars n) <;>
    simp only [readLine, Utf8.decode_encode, hends, List.reverse_reverse, hnonempty,
      Bool.false_eq_true, if_false, hvalue, hname, if_true, trim_digitChars, hnatural]

theorem encode_header (n : Nat) :
    Utf8.encode (header n) = Utf8.encode (lengthLine n) ++ 0x0A :: [0x0D, 0x0A] := by
  have hsplit : header n = lengthLine n ++ ['\n', '\r', '\n'] := by
    unfold header lengthLine
    rw [List.append_assoc _ ['\r'], List.singleton_append]
  rw [hsplit, Utf8.encode_append]
  rfl

/-- The first line of a frame, as the reader has collected it. -/
theorem reverse_lengthLine (n : Nat) :
    (0x0A :: (Utf8.encode (lengthLine n)).reverse).reverse = Utf8.encode (lengthLine n ++ ['\n']) := by
  rw [List.reverse_cons, List.reverse_reverse, Utf8.encode_append]
  rfl

/-- The header of a frame leads to its body. -/
theorem read_header {n : Nat} (h : n < UInt64.size) (ending : Ending) (bs : List UInt8) :
    read ending (Utf8.encode (header n) ++ bs) = readBody ending n bs := by
  have hblank : readLine ([0x0D, 0x0A] : List UInt8) = .ok .blank := rfl
  rw [encode_header, read]
  simp only [List.append_assoc, List.cons_append, List.nil_append]
  -- the line with the length, and then the blank line that ends the header
  rw [readHeader_line (lineFeed_notMem_lengthLine _), List.append_nil, readHeader, if_pos rfl,
    reverse_lengthLine, readLine_lengthLine, Decimal.natural_digitChars h]
  simp only
  rw [readHeader, if_neg (by decide), readHeader, if_pos rfl]
  simp only [List.reverse_cons, List.reverse_nil, List.nil_append, List.singleton_append, hblank,
    if_true, endHeader]

/-- A length that takes more than 64 bits is at fault. -/
theorem read_header_tooLarge {n : Nat} (h : UInt64.size ≤ n) (ending : Ending) (bs : List UInt8) :
    ∃ e rest, read ending (Utf8.encode (header n) ++ bs) = .fault e rest := by
  rw [encode_header, read]
  simp only [List.append_assoc, List.cons_append, List.nil_append]
  rw [readHeader_line (lineFeed_notMem_lengthLine _), List.append_nil, readHeader, if_pos rfl,
    reverse_lengthLine, readLine_lengthLine, Decimal.natural_tooLarge h]
  exact ⟨_, _, rfl⟩

/-- A body that has arrived is cut off, unless it is too long. -/
theorem readBody_whole {body : List UInt8} (h : body.length ≤ maxBody) (ending : Ending)
    (rest : List UInt8) :
    readBody ending body.length (body ++ rest) =
      match Json.parse body with
      | .ok v => .message v rest
      | .error f => .fault (.protocol f.message) rest := by
  unfold readBody
  cases hparse : Json.parse body <;>
    rw [if_neg (Nat.not_lt.mpr h), if_pos (by simp), List.take_left' rfl, List.drop_left' rfl, hparse]

/-- The frame of a message is read as what its body means, whatever follows it, or it is at fault. -/
theorem read_frame (v : Json) (ending : Ending) (rest : List UInt8) :
    (∃ w, Json.parse v.bytes = .ok w ∧ read ending (bytes v ++ rest) = .message w rest) ∨
      ∃ e rest', read ending (bytes v ++ rest) = .fault e rest' := by
  rw [bytes, List.append_assoc]
  by_cases hlength : v.bytes.length < UInt64.size
  · rw [read_header hlength]
    by_cases hmax : v.bytes.length ≤ maxBody
    · rw [readBody_whole hmax]
      cases Json.parse v.bytes with
      | ok w => exact .inl ⟨w, rfl, rfl⟩
      | error f => exact .inr ⟨_, _, rfl⟩
    · unfold readBody
      rw [if_pos (Nat.lt_of_not_le hmax)]
      exact .inr ⟨_, _, rfl⟩
  · exact .inr (read_header_tooLarge (Nat.le_of_not_lt hlength) ending _)

/-- The frame of a message is read as this message, whatever follows it. -/
theorem read_bytes {v : Json} (hv : v.Regular) (hdepth : v.depth ≤ Json.maxDepth)
    (hsize : v.bytes.length ≤ maxBody) (ending : Ending) (rest : List UInt8) :
    read ending (bytes v ++ rest) = .message v rest := by
  have hlength : v.bytes.length < UInt64.size := by
    simp only [maxBody] at hsize
    simp only [UInt64.size]
    omega
  rw [bytes, List.append_assoc, read_header hlength, readBody_whole hsize, Json.parse_bytes hv hdepth]

end IndexFs.Frame

import IndexFs.Proofs.Frame.Reading

/-!
# Streams of frames

The reader takes chunk after chunk off a stream, and only as many as a frame needs. What it finds is
nevertheless a matter of the bytes alone (`readNext_bytes`), also where the stream fails (`readOff_eq`), and
it goes on up to the end of the stream or an error (`readStream_ne_unfinished`). So the messages that were
written come back in their order, however the stream is cut (`readStream_writeFrames`).
-/

namespace IndexFs.Frame

/-! ## Chunks -/

/-- Whether an outcome leaves the end of the stream open. -/
def Outcome.isOpen : Outcome → Bool
  | .finished => false
  | .failed _ => false
  | _ => true

theorem readHeader_isOpen (hd : Header) (line bs : List UInt8) :
    (readHeader .unknown hd line bs).isOpen = true := by
  -- the header is read byte by byte, and more could always come where the bytes end
  induction bs generalizing hd line with
  | nil => rfl
  | cons b bs ih =>
    rw [readHeader]
    by_cases hb : b = 0x0A
    · rw [if_pos hb]
      cases hline : readLine (b :: line).reverse with
      | error e => rfl
      | ok kind =>
        cases kind with
        | other => exact ih _ _
        | length n => exact ih _ _
        | blank =>
          -- the header has ended, and its body may or may not be there
          by_cases hseen : hd.seen = true
          · simp only [hseen, if_true, endHeader, readBody]
            cases hd.length with
            | none => rfl
            | some n =>
              simp only
              split_ifs
              · rfl
              · cases Json.parse (bs.take n) <;> rfl
              · rfl
          · simp only [hseen]
            exact ih _ _
    · rw [if_neg hb]
      exact ih _ _

/-- While more bytes may arrive, nothing is said about the end of the stream. -/
theorem read_isOpen (bs : List UInt8) : (read .unknown bs).isOpen = true :=
  readHeader_isOpen _ _ _

theorem readHeader_ne_finished (hd : Header) (line bs : List UInt8) :
    readHeader .unknown hd line bs ≠ .finished := fun h => by
  have hopen := readHeader_isOpen hd line bs
  rw [h] at hopen
  cases hopen

/-- The first frame of a stream, and what follows it, are a matter of its bytes alone. The stream is
known to have ended only when nothing of it is left. -/
theorem readNext_bytes (buffer : List UInt8) (chunks : List (List UInt8)) :
    ∃ later : List (List UInt8),
      (readNext buffer (chunks.map .bytes)).2 = later.map .bytes ∧
      (readNext buffer (chunks.map .bytes)).1.append later.flatten =
        read .closed (buffer ++ chunks.flatten) ∧
      ((readNext buffer (chunks.map .bytes)).1 = .finished → later = []) := by
  induction chunks generalizing buffer with
  | nil =>
    refine ⟨[], rfl, ?_, fun _ => rfl⟩
    rw [List.flatten_nil, List.append_nil]
    simp only [List.map_nil, readNext]
    cases read .closed buffer <;> simp [Outcome.append]
  | cons bs chunks ih =>
    rw [List.map_cons, List.flatten_cons, readNext]
    by_cases hpending : read .unknown buffer = .pending
    · -- another chunk is taken, and the buffer grows by it
      rw [hpending]
      simp only
      obtain ⟨later, hlater, hread, hend⟩ := ih (buffer ++ bs)
      refine ⟨later, hlater, ?_, hend⟩
      rw [hread, List.append_assoc]
    · -- the buffer is enough, and no chunk is taken
      refine ⟨bs :: chunks, ?_, ?_, ?_⟩
      · cases hread : read .unknown buffer <;> first | rfl | exact absurd hread hpending
      · rw [List.flatten_cons, read_append hpending]
        cases hread : read .unknown buffer <;> first | rfl | exact absurd hread hpending
      · intro h
        cases hread : read .unknown buffer <;> rw [hread] at h <;>
          first | exact absurd hread (readHeader_ne_finished _ _ _) | exact absurd hread hpending | cases h

theorem arriving_bytes (chunks : List (List UInt8)) : arriving (chunks.map .bytes) = chunks.flatten := by
  induction chunks with
  | nil => rfl
  | cons bs chunks ih => rw [List.map_cons, arriving, ih, List.flatten_cons]

/-! ## Streams that may fail -/

/-- What comes at the end of a stream. -/
def endingOf : List Chunk → Ending
  | [] => .closed
  | .bytes _ :: chunks => endingOf chunks
  | .failure m :: _ => .failed m

/-- What the first frame of a stream is read as, with all bytes that are then left of the stream up to its
end or its first failure. -/
def readOff (buffer : List UInt8) (chunks : List Chunk) : Outcome :=
  (readNext buffer chunks).1.append (arriving (readNext buffer chunks).2)

theorem readBody_failed {length : Nat} {bs : List UInt8} (h : readBody .unknown length bs = .pending)
    (m : String) : readBody (.failed m) length bs = .failed m := by
  unfold readBody at h ⊢
  split_ifs at h ⊢ with hmax hlen
  · cases hparse : Json.parse (bs.take length) <;> rw [hparse] at h <;> cases h
  · rfl

theorem readHeader_failed {hd : Header} {line bs : List UInt8}
    (h : readHeader .unknown hd line bs = .pending) (m : String) :
    readHeader (.failed m) hd line bs = .failed m := by
  -- where the bytes end without an ending, the failure is what comes next
  induction bs generalizing hd line with
  | nil => rfl
  | cons b bs ih =>
    rw [readHeader] at h ⊢
    by_cases hb : b = 0x0A
    · rw [if_pos hb] at h ⊢
      cases hline : readLine (b :: line).reverse with
      | error e =>
        rw [hline] at h
        cases h
      | ok kind =>
        rw [hline] at h
        cases kind with
        | other => exact ih h
        | length n => exact ih h
        | blank =>
          by_cases hseen : hd.seen = true
          · simp only [hseen, if_true, endHeader] at h ⊢
            cases hlength : hd.length with
            | none =>
              rw [hlength] at h
              cases h
            | some n =>
              rw [hlength] at h
              exact readBody_failed h m
          · simp only [hseen] at h ⊢
            exact ih h
    · rw [if_neg hb] at h ⊢
      exact ih h

theorem Outcome.append_nil (o : Outcome) : o.append [] = o := by
  cases o <;> simp [Outcome.append]

/-- The first frame of a stream, and what follows it, are a matter of the bytes of the stream and its end. -/
theorem readOff_eq (buffer : List UInt8) (chunks : List Chunk) :
    readOff buffer chunks = read (endingOf chunks) (buffer ++ arriving chunks) := by
  induction chunks generalizing buffer with
  | nil =>
    show (read .closed buffer).append [] = read .closed (buffer ++ [])
    rw [Outcome.append_nil, List.append_nil]
  | cons chunk chunks ih =>
    by_cases hpending : read .unknown buffer = .pending
    · cases chunk with
      | bytes bs =>
        have hnext : readNext buffer (.bytes bs :: chunks) = readNext (buffer ++ bs) chunks := by
          rw [readNext, hpending]
        have hih := ih (buffer ++ bs)
        rw [readOff] at hih ⊢
        rw [hnext, hih, List.append_assoc]
        rfl
      | failure m =>
        have hfailed : read (.failed m) buffer = .failed m := readHeader_failed hpending m
        have hnext : readNext buffer (.failure m :: chunks) = (.failed m, chunks) := by
          rw [readNext, hpending]
          simp only [hfailed]
        rw [readOff, hnext]
        show Outcome.failed m = read (.failed m) (buffer ++ [])
        rw [List.append_nil, hfailed]
    · -- the bytes at hand are enough, and nothing is taken off the stream
      have hnext : readNext buffer (chunk :: chunks) = (read .unknown buffer, chunk :: chunks) := by
        unfold readNext
        cases hread : read .unknown buffer with
        | pending => exact absurd hread hpending
        | _ => rfl
      rw [readOff, hnext, read_append hpending]

/-! ## The end of a stream -/

/-- What is read once the end is known is no longer pending. -/
theorem readBody_ne_pending {ending : Ending} (h : ending ≠ .unknown) (length : Nat) (bs : List UInt8) :
    readBody ending length bs ≠ .pending := by
  unfold readBody
  split_ifs
  · exact nofun
  · cases Json.parse (bs.take length) <;> exact nofun
  · cases ending with
    | unknown => exact absurd rfl h
    | _ => exact nofun

theorem endHeader_ne_pending {ending : Ending} (h : ending ≠ .unknown) (hd : Header) (bs : List UInt8) :
    endHeader ending hd bs ≠ .pending := by
  unfold endHeader
  cases hd.length with
  | none => exact nofun
  | some n => exact readBody_ne_pending h n bs

theorem stopInHeader_ne_pending {ending : Ending} (h : ending ≠ .unknown) (hd : Header) (line : List UInt8) :
    stopInHeader ending hd line ≠ .pending := by
  unfold stopInHeader
  cases ending with
  | unknown => exact absurd rfl h
  | failed m => exact nofun
  | closed =>
    by_cases hline : line.isEmpty = true
    · cases hseen : hd.seen <;> simp [hline, endInHeader]
    · cases hread : readLine line.reverse with
      | error e => simp [hline]
      | ok kind =>
        cases kind with
        | blank =>
          cases hseen : hd.seen with
          | false => simp [hline]
          | true => simpa [hline] using endHeader_ne_pending h hd []
        | _ => simp [hline, endInHeader]

theorem readHeader_ne_pending {ending : Ending} (h : ending ≠ .unknown) (hd : Header) (line bs : List UInt8) :
    readHeader ending hd line bs ≠ .pending := by
  induction bs generalizing hd line with
  | nil => exact stopInHeader_ne_pending h hd line
  | cons b bs ih =>
    rw [readHeader]
    by_cases hb : b = 0x0A
    · rw [if_pos hb]
      cases readLine (b :: line).reverse with
      | error e =>
        intro hpending
        cases hpending
      | ok kind =>
        cases kind with
        | blank =>
          by_cases hseen : hd.seen = true
          · simpa only [if_pos hseen] using endHeader_ne_pending h hd bs
          · simpa only [if_neg hseen] using ih hd []
        | _ => exact ih _ _
    · rw [if_neg hb]
      exact ih _ _

/-- The next frame of a stream is waited for until it is whole or the stream is at its end. -/
theorem readNext_ne_pending (buffer : List UInt8) (chunks : List Chunk) : (readNext buffer chunks).1 ≠ .pending := by
  induction chunks generalizing buffer with
  | nil =>
    have hclosed : Ending.closed ≠ .unknown := nofun
    exact readHeader_ne_pending hclosed _ _ _
  | cons chunk chunks ih =>
    unfold readNext
    cases hread : read .unknown buffer with
    | pending =>
      cases chunk with
      | bytes bs => exact ih _
      | failure m =>
        have hfailed : Ending.failed m ≠ .unknown := nofun
        exact readHeader_ne_pending hfailed _ _ _
    | _ => exact nofun

/-- A message that is taken off a stream leaves fewer bytes. -/
theorem length_lt_of_readNext {buffer rest : List UInt8} {chunks later : List Chunk} {v : Json}
    (h : readNext buffer chunks = (.message v rest, later)) :
    (rest ++ arriving later).length < (buffer ++ arriving chunks).length := by
  have hread := readOff_eq buffer chunks
  rw [readOff, h] at hread
  exact length_lt_of_read hread.symm

theorem readFrames_ne_unfinished {buffer : List UInt8} {chunks : List Chunk} {fuel : Nat}
    (h : (buffer ++ arriving chunks).length < fuel) : (readFrames buffer chunks fuel).conclusion ≠ .unfinished := by
  induction fuel generalizing buffer chunks with
  | zero => exact absurd h (Nat.not_lt_zero _)
  | succ fuel ih =>
    rw [readFrames]
    cases hnext : readNext buffer chunks with
    | mk outcome later =>
      cases outcome with
      | message v rest => exact ih (Nat.lt_of_lt_of_le (length_lt_of_readNext hnext) (Nat.le_of_lt_succ h))
      | pending => exact absurd (congrArg Prod.fst hnext) (readNext_ne_pending buffer chunks)
      | _ => exact nofun

/-- Every stream is read up to its end or up to an error, also where it fails. -/
theorem readStream_ne_unfinished (chunks : List Chunk) : (readStream chunks).conclusion ≠ .unfinished :=
  readFrames_ne_unfinished (Nat.lt_succ_self (arriving chunks).length)

/-! ## All frames of a stream -/

/-- What is read of the bytes of a whole stream, frame by frame. -/
inductive Reads : List UInt8 → Reading → Prop where
  | finished {bs : List UInt8} (h : read .closed bs = .finished) : Reads bs ⟨[], .clean, []⟩
  | fault {bs rest : List UInt8} {e : ChannelError} (h : read .closed bs = .fault e rest) :
    Reads bs ⟨[], .error e, rest⟩
  | message {bs rest : List UInt8} {v : Json} {reading : Reading} (h : read .closed bs = .message v rest)
    (hmore : Reads rest reading) : Reads bs { reading with messages := v :: reading.messages }

/-- Reading goes on with the frames that have not been read yet, some bytes of which may have arrived already. -/
theorem readFrames_of_reads {bs : List UInt8} {reading : Reading} (h : Reads bs reading)
    (buffer : List UInt8) (chunks : List (List UInt8)) (hbytes : buffer ++ chunks.flatten = bs) (fuel : Nat)
    (hfuel : reading.messages.length < fuel) : readFrames buffer (chunks.map .bytes) fuel = reading := by
  induction h generalizing buffer chunks fuel with
  | finished h =>
    obtain ⟨later, hlater, hread, hend⟩ := readNext_bytes buffer chunks
    rw [hbytes, h] at hread
    -- the end is known only when no chunk is left
    have hfinished := Outcome.append_eq_finished hread
    have hnext : readNext buffer (chunks.map .bytes) = (.finished, []) := by
      rw [hend hfinished] at hlater
      exact Prod.ext hfinished hlater
    obtain ⟨fuel, rfl⟩ := Nat.exists_eq_succ_of_ne_zero (Nat.ne_of_gt (Nat.zero_lt_of_lt hfuel))
    rw [readFrames, hnext]
    rfl
  | fault h =>
    obtain ⟨later, hlater, hread, -⟩ := readNext_bytes buffer chunks
    rw [hbytes, h] at hread
    obtain ⟨rest, hfirst, hrest⟩ := Outcome.append_eq_fault hread
    have hnext : readNext buffer (chunks.map .bytes) = (.fault _ rest, later.map .bytes) :=
      Prod.ext hfirst hlater
    obtain ⟨fuel, rfl⟩ := Nat.exists_eq_succ_of_ne_zero (Nat.ne_of_gt (Nat.zero_lt_of_lt hfuel))
    rw [readFrames, hnext]
    simp only [arriving_bytes, hrest]
  | @message _ _ v reading h _ ih =>
    obtain ⟨later, hlater, hread, -⟩ := readNext_bytes buffer chunks
    rw [hbytes, h] at hread
    obtain ⟨rest, hfirst, hrest⟩ := Outcome.append_eq_message hread
    have hnext : readNext buffer (chunks.map .bytes) = (.message v rest, later.map .bytes) :=
      Prod.ext hfirst hlater
    have hlength : reading.messages.length + 1 < fuel := hfuel
    obtain ⟨fuel, rfl⟩ := Nat.exists_eq_succ_of_ne_zero (Nat.ne_of_gt (Nat.zero_lt_of_lt hfuel))
    rw [readFrames, hnext]
    simp only
    rw [ih rest later hrest fuel (Nat.lt_of_succ_lt_succ hlength)]

/-- There are at most as many messages as bytes. -/
theorem Reads.length_le {bs : List UInt8} {reading : Reading} (h : Reads bs reading) :
    reading.messages.length ≤ bs.length := by
  induction h with
  | finished h => exact Nat.zero_le _
  | fault h => exact Nat.zero_le _
  | message h _ ih =>
    have hlt := length_lt_of_read h
    rw [List.length_cons]
    omega

/-- A stream is read by its bytes, however it is cut into chunks. -/
theorem readStream_of_reads {chunks : List (List UInt8)} {reading : Reading}
    (h : Reads chunks.flatten reading) : readStream (chunks.map .bytes) = reading := by
  rw [readStream, arriving_bytes]
  exact readFrames_of_reads h [] chunks rfl _ (Nat.lt_succ_of_le h.length_le)

/-! ## Written messages -/

/-- The messages that can travel: their numbers are integers of 64 bits, and neither their nesting nor
their size is beyond the limits. -/
structure Fits (v : Json) : Prop where
  regular : v.Regular
  depth : v.depth ≤ Json.maxDepth
  size : v.bytes.length ≤ maxBody

/-- The bytes of messages that are written one after the other, with blank lines before each of them and
after the last one. -/
def stream (messages : List (List LineEnd × Json)) (last : List LineEnd) : List UInt8 :=
  ((messages.map (·.1)).zip (writeFrames .unlimited (messages.map (·.2)))).flatMap
      (fun p => p.1.flatMap LineEnd.bytes ++ p.2.1) ++
    last.flatMap LineEnd.bytes

theorem writeFrames_unlimited (vs : List Json) :
    writeFrames .unlimited vs = vs.map fun v => (bytes v, .ok ()) := by
  induction vs with
  | nil => rfl
  | cons v vs ih => rw [writeFrames, List.map_cons, ← ih]; rfl

/-- The bytes that are written for messages, one after the other. -/
def frames (vs : List Json) : List UInt8 :=
  (writeFrames .unlimited vs).flatMap (·.1)

@[simp] theorem frames_nil : frames [] = [] := rfl

@[simp] theorem frames_cons (v : Json) (vs : List Json) : frames (v :: vs) = bytes v ++ frames vs := rfl

@[simp] theorem frames_append (vs ws : List Json) : frames (vs ++ ws) = frames vs ++ frames ws := by
  induction vs with
  | nil => rfl
  | cons v vs ih => rw [List.cons_append, frames_cons, frames_cons, ih, List.append_assoc]

theorem frames_take_succ (vs : List Json) {i : Nat} (hi : i < vs.length) :
    frames (vs.take (i + 1)) = frames (vs.take i) ++ bytes vs[i] := by
  rw [List.take_succ_eq_append_getElem hi, frames_append, frames_cons, frames_nil, List.append_nil]

theorem length_frames_take_mono (vs : List Json) {i j : Nat} (h : i ≤ j) :
    (frames (vs.take i)).length ≤ (frames (vs.take j)).length := by
  obtain ⟨rest, hrest⟩ := List.take_prefix_take_left (l := vs) h
  rw [← hrest, frames_append, List.length_append]
  omega

theorem stream_cons (blanks : List LineEnd) (v : Json) (messages : List (List LineEnd × Json))
    (last : List LineEnd) :
    stream ((blanks, v) :: messages) last =
      blanks.flatMap LineEnd.bytes ++ (bytes v ++ stream messages last) := by
  simp [stream, writeFrames_unlimited]

theorem bytes_ne_nil (v : Json) : bytes v ≠ [] := by
  rw [bytes, encode_header]
  simp

theorem read_stream_nil (last : List LineEnd) : read .closed (stream [] last) = .finished := by
  have hbytes : stream [] last = last.flatMap LineEnd.bytes ++ [] := by
    simp [stream, writeFrames]
  rw [hbytes, read_lineEnds]
  rfl

theorem read_stream_cons {v : Json} (h : Fits v) (blanks : List LineEnd)
    (messages : List (List LineEnd × Json)) (last : List LineEnd) :
    read .closed (stream ((blanks, v) :: messages) last) = .message v (stream messages last) := by
  rw [stream_cons, read_lineEnds, read_bytes h.regular h.depth h.size]

theorem reads_stream (messages : List (List LineEnd × Json)) (last : List LineEnd)
    (h : ∀ m ∈ messages, Fits m.2) : Reads (stream messages last) ⟨messages.map (·.2), .clean, []⟩ := by
  induction messages with
  | nil => exact .finished (read_stream_nil last)
  | cons m messages ih =>
    have hmore := ih fun n hn => h n (List.mem_cons_of_mem m hn)
    exact .message (read_stream_cons (h m List.mem_cons_self) m.1 messages last) hmore

/-- Reading goes on with the messages that have not been read yet, some bytes of which may have arrived
already. -/
theorem readFrames_stream (messages : List (List LineEnd × Json)) (last : List LineEnd)
    (h : ∀ m ∈ messages, Fits m.2) (buffer : List UInt8) (chunks : List (List UInt8))
    (hbytes : buffer ++ chunks.flatten = stream messages last) (fuel : Nat)
    (hfuel : messages.length < fuel) :
    readFrames buffer (chunks.map .bytes) fuel = ⟨messages.map (·.2), .clean, []⟩ := by
  refine readFrames_of_reads (reads_stream messages last h) buffer chunks hbytes fuel ?_
  rw [List.length_map]
  exact hfuel

theorem length_le_stream (messages : List (List LineEnd × Json)) (last : List LineEnd) :
    messages.length ≤ (stream messages last).length := by
  induction messages with
  | nil => exact Nat.zero_le _
  | cons m messages ih =>
    obtain ⟨blanks, v⟩ := m
    have hv := List.length_pos_iff.mpr (bytes_ne_nil v)
    rw [stream_cons, List.length_append, List.length_append, List.length_cons]
    omega

/-- Messages that are written all arrive, in their order and nothing besides, whatever blank lines stand
around their frames and however the stream is cut. -/
theorem readStream_writeFrames (messages : List (List LineEnd × Json)) (last : List LineEnd)
    (h : ∀ m ∈ messages, Fits m.2) (chunks : List (List UInt8))
    (hcut : chunks.flatten = stream messages last) :
    (∀ r ∈ writeFrames .unlimited (messages.map (·.2)), r.2 = .ok ()) ∧
      readStream (chunks.map .bytes) = ⟨messages.map (·.2), .clean, []⟩ := by
  constructor
  · intro r hr
    rw [writeFrames_unlimited, List.mem_map] at hr
    obtain ⟨v, -, rfl⟩ := hr
    rfl
  · have hlength := length_le_stream messages last
    rw [readStream, arriving_bytes, hcut]
    exact readFrames_stream messages last h [] chunks hcut _ (by omega)

/-- Two messages with blank lines around them, one byte in each chunk. -/
theorem readStream_byte_by_byte :
    (∀ m ∈ [([.crlf], .object [("é", .array [.ofInt (-1)])]), ([.lf, .crlf], .string "\n")],
        Fits (Prod.snd (α := List LineEnd) m)) ∧
      readStream (((stream [([.crlf], .object [("é", .array [.ofInt (-1)])]),
          ([.lf, .crlf], .string "\n")] [.lf]).map fun b => [b]).map .bytes) =
        ⟨[.object [("é", .array [.ofInt (-1)])], .string "\n"], .clean, []⟩ := by
  have hfits : ∀ m ∈ [([.crlf], .object [("é", .array [.ofInt (-1)])]), ([.lf, .crlf], .string "\n")],
      Fits (Prod.snd (α := List LineEnd) m) := by
    intro m hm
    simp only [List.mem_cons, List.not_mem_nil, or_false] at hm
    rcases hm with rfl | rfl
    · refine ⟨?_, by decide, by decide⟩
      simp [Json.Regular, Json.MembersRegular, Json.ItemsRegular, Json.KeysAscend, Json.ofInt,
        Number.IsInteger, Number.minSigned, Number.maxUnsigned]
    · exact ⟨by simp [Json.Regular], by decide, by decide⟩
  refine ⟨hfits, (readStream_writeFrames _ [.lf] hfits _ ?_).2⟩
  rw [← List.flatMap_def]
  simp

end IndexFs.Frame

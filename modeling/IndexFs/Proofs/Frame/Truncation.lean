import IndexFs.Proofs.Frame.Line
import IndexFs.Proofs.Frame.Stream

/-!
# Streams that are cut off

Where a stream ends inside a frame, the reader says so, whether the cut is in the header, between its line ends or
in the body (`read_torn`). Of messages that were written, those whose frames are whole are read, and nothing else
(`readStream_cut`).
-/

namespace IndexFs.Frame

/-! ## A frame that is cut off -/

theorem encode_ne_nil {line : List Char} (h : IsHeaderLine line) : Utf8.encode line ≠ [] := by
  obtain ⟨c, hc, -⟩ := h.visible
  obtain ⟨b, bs, hbytes⟩ := List.exists_cons_of_ne_nil (Utf8.encodeChar_ne_nil c)
  have hb : b ∈ Utf8.encode line := List.mem_flatMap.mpr ⟨c, hc, hbytes ▸ List.mem_cons_self⟩
  exact List.ne_nil_of_mem hb

/-- A stream that ends inside a line of a header ends too early, if not for the line itself. -/
theorem stopInHeader_encode {line : List Char} (h : IsHeaderLine line) (hd : Header) :
    ∃ reason, stopInHeader .closed hd (Utf8.encode line).reverse = .fault (.protocol reason) [] := by
  have hends : ∀ c ∈ ([] : List Char), c = '\n' := by simp
  have hread := readLine_encode h hends
  have hempty : (Utf8.encode line).reverse.isEmpty = false := by simpa using encode_ne_nil h
  rw [List.append_nil] at hread
  unfold stopInHeader
  simp only [hempty, List.reverse_reverse, hread]
  cases lengthText? line with
  | none => exact ⟨_, rfl⟩
  | some text =>
    dsimp only
    cases Decimal.natural text with
    | ok n => exact ⟨_, rfl⟩
    | error flaw => exact ⟨_, rfl⟩

/-- The beginning of the line that gives the length is a line of a header itself. -/
theorem isHeaderLine_take_lengthLine (n : Nat) {k : Nat} (hk : 0 < k) :
    IsHeaderLine ((lengthLine n).take k) := by
  constructor
  · intro hmem
    exact (ascii_of_mem_lengthLine (List.mem_of_mem_take hmem)).2 rfl
  · obtain ⟨k, rfl⟩ := Nat.exists_eq_succ_of_ne_zero (Nat.ne_of_gt hk)
    exact ⟨'C', List.mem_cons_self, by decide⟩

theorem encode_take_lengthLine (n k : Nat) :
    (Utf8.encode (lengthLine n)).take k = Utf8.encode ((lengthLine n).take k) := by
  have hascii : ∀ c ∈ lengthLine n, c.toNat < 0x80 := fun c hc => (ascii_of_mem_lengthLine hc).1
  rw [Utf8.encode_ascii hascii, Utf8.encode_ascii fun c hc => hascii c (List.mem_of_mem_take hc),
    List.map_take]

theorem read_lengthLine {n : Nat} (h : n < UInt64.size) (ending : Ending) (rest : List UInt8) :
    read ending (Utf8.encode (lengthLine n) ++ 0x0A :: rest) = readHeader ending ⟨some n, true⟩ [] rest := by
  have hline : readLine (Utf8.encode (lengthLine n) ++ [0x0A]) = .ok (.length n) := by
    have hread := readLine_lengthLine n
    rw [Utf8.encode_append, Decimal.natural_digitChars h] at hread
    exact hread
  rw [read, readHeader_ended (lineFeed_notMem_lengthLine n), hline]

/-- A body that the end of the stream cuts off. -/
theorem readBody_torn {n : Nat} {bs : List UInt8} (hmax : n ≤ maxBody) (h : bs.length < n) :
    ∃ reason, readBody .closed n bs = .fault (.protocol reason) [] := by
  unfold readBody
  rw [if_neg (Nat.not_lt.mpr hmax), if_neg (Nat.not_le.mpr h)]
  exact ⟨_, rfl⟩

/-- The body of a frame is not empty. -/
theorem body_pos {v : Json} (h : Fits v) : 0 < v.bytes.length := by
  have hparse := Json.parse_bytes h.regular h.depth
  refine List.length_pos_iff.mpr ?_
  intro hnil
  rw [hnil] at hparse
  cases hparse

/-- A frame of which some bytes have arrived, and not all, is at fault, wherever the stream ends. -/
theorem read_torn {v : Json} (h : Fits v) {k : Nat} (hk : 0 < k) (hlt : k < (bytes v).length) :
    ∃ reason, read .closed ((bytes v).take k) = .fault (.protocol reason) [] := by
  have hsize := h.size
  have hbound : v.bytes.length < UInt64.size := by
    simp only [maxBody] at hsize
    simp only [UInt64.size]
    omega
  have hline : bytes v = Utf8.encode (lengthLine v.bytes.length) ++ (0x0A :: 0x0D :: 0x0A :: v.bytes) := by
    rw [bytes, encode_header, List.append_assoc]
    rfl
  by_cases hfirst : k ≤ (Utf8.encode (lengthLine v.bytes.length)).length
  · -- inside the line that gives the length, or right before its line feed
    rw [hline, List.take_append_of_le_length hfirst, encode_take_lengthLine, read]
    have htorn := isHeaderLine_take_lengthLine v.bytes.length hk
    rw [readHeader_unended (mt lineFeed_mem_encode_iff.mp htorn.unbroken), List.append_nil]
    exact stopInHeader_encode htorn .empty
  · obtain ⟨j, rfl⟩ := Nat.exists_eq_add_of_lt (Nat.not_le.mp hfirst)
    rw [hline, Nat.add_assoc] at hlt ⊢
    rw [List.take_length_add_append]
    rw [List.length_append] at hlt
    rcases j with _ | _ | j
    · -- the header has not ended
      rw [List.take_succ_cons, List.take_zero, read_lengthLine hbound]
      exact ⟨_, rfl⟩
    · -- the carriage return is taken for the blank line that ends the header
      rw [List.take_succ_cons, List.take_succ_cons, List.take_zero, read_lengthLine hbound]
      exact readBody_torn hsize (body_pos h)
    · -- the header is whole, and the body is not
      have hj : (v.bytes.take j).length < v.bytes.length := by
        simp only [List.length_cons] at hlt
        rw [List.length_take]
        omega
      have hheader : Utf8.encode (lengthLine v.bytes.length) ++ 0x0A :: 0x0D :: 0x0A :: v.bytes.take j =
          Utf8.encode (header v.bytes.length) ++ v.bytes.take j := by
        rw [encode_header, List.append_assoc]
        rfl
      rw [List.take_succ_cons, List.take_succ_cons, List.take_succ_cons, hheader, read_header hbound]
      exact readBody_torn hsize hj

/-! ## Written messages that are cut off -/

/-- A cut behind all frames, or in the first one of those that are left. -/
inductive CutIn : Nat → List Json → Prop where
  | behind : CutIn 0 []
  | inside {k : Nat} {v : Json} (vs : List Json) (hk : k < (bytes v).length) : CutIn k (v :: vs)

/-- Every cut has whole frames in front of it, and falls into the first frame behind them. -/
theorem exists_cutIn (vs : List Json) {cut : Nat} (hcut : cut ≤ (frames vs).length) :
    ∃ (before after : List Json) (k : Nat), vs = before ++ after ∧ CutIn k after ∧
      cut = (frames before).length + k := by
  induction vs generalizing cut with
  | nil =>
    obtain rfl : cut = 0 := Nat.le_zero.mp hcut
    exact ⟨[], [], 0, rfl, .behind, rfl⟩
  | cons v vs ih =>
    by_cases hfirst : cut < (bytes v).length
    · exact ⟨[], v :: vs, cut, rfl, .inside vs hfirst, by simp⟩
    · rw [frames_cons, List.length_append] at hcut
      have hrest : cut - (bytes v).length ≤ (frames vs).length := by omega
      obtain ⟨before, after, k, rfl, hk, hcut⟩ := ih hrest
      refine ⟨v :: before, after, k, rfl, hk, ?_⟩
      rw [frames_cons, List.length_append]
      omega

theorem length_frames_take_le (before after : List Json) {i : Nat} (hi : i ≤ before.length) :
    (frames ((before ++ after).take i)).length ≤ (frames before).length := by
  have hle := length_frames_take_mono (before ++ after) hi
  rwa [List.take_left] at hle

/-- The first of the messages have arrived as a whole exactly if their number is at most that of the messages
in front of the cut. -/
theorem CutIn.frames_take_le_iff {before after : List Json} {k : Nat} (h : CutIn k after) {i : Nat}
    (hi : i ≤ (before ++ after).length) :
    (frames ((before ++ after).take i)).length ≤ (frames before).length + k ↔ i ≤ before.length := by
  constructor
  · intro hle
    by_contra hlt
    obtain ⟨j, rfl⟩ := Nat.exists_eq_add_of_lt (Nat.not_le.mp hlt)
    cases h with
    | behind =>
      rw [List.length_append, List.length_nil] at hi
      omega
    | @inside _ v vs hk =>
      rw [Nat.add_assoc, List.take_length_add_append, List.take_succ_cons, frames_append, frames_cons] at hle
      simp only [List.length_append] at hle
      omega
  · intro hle
    have := length_frames_take_le before after hle
    omega

/-- Messages in front of a cut are read, and then the end between frames, or a fault. -/
theorem CutIn.reads {before after : List Json} {k : Nat} (h : CutIn k after) (hbefore : ∀ v ∈ before, Fits v)
    (hafter : ∀ v ∈ after, Fits v) :
    ∃ conclusion, Reads (frames before ++ (frames after).take k) ⟨before, conclusion, []⟩ ∧
      (k = 0 → conclusion = .clean) ∧ (0 < k → ∃ reason, conclusion = .error (.protocol reason)) := by
  -- the whole frames are read one after the other, and the cut is met behind them
  induction before with
  | nil =>
    rcases Nat.eq_zero_or_pos k with rfl | hk
    · exact ⟨.clean, .finished rfl, fun _ => rfl, fun hk => absurd hk (Nat.lt_irrefl 0)⟩
    · cases h with
      | behind => exact absurd hk (Nat.lt_irrefl 0)
      | @inside _ v vs hlt =>
        obtain ⟨reason, hread⟩ := read_torn (hafter v List.mem_cons_self) hk hlt
        refine ⟨.error (.protocol reason), ?_, fun hzero => absurd hzero (Nat.ne_of_gt hk), fun _ => ⟨reason, rfl⟩⟩
        rw [frames_cons, List.take_append_of_le_length (Nat.le_of_lt hlt)]
        exact .fault hread
  | cons v before ih =>
    obtain ⟨conclusion, hreads, hend⟩ := ih fun w hw => hbefore w (List.mem_cons_of_mem v hw)
    have hv := hbefore v List.mem_cons_self
    refine ⟨conclusion, ?_, hend⟩
    rw [frames_cons, List.append_assoc]
    exact .message (read_bytes hv.regular hv.depth hv.size .closed _) hreads

/-- A cut is noticed: of messages that were written, exactly those are read whose frames lie in front of the cut,
and then the end of the stream between frames, if the cut is between frames, or else an error of the protocol. -/
theorem readStream_cut (vs : List Json) (h : ∀ v ∈ vs, Fits v) (cut : Nat) (hcut : cut ≤ (frames vs).length)
    (chunks : List (List UInt8)) (hchunks : chunks.flatten = (frames vs).take cut) :
    ∃ n ≤ vs.length, (∀ i ≤ vs.length, (frames (vs.take i)).length ≤ cut ↔ i ≤ n) ∧
      ∃ conclusion, readStream (chunks.map .bytes) = ⟨vs.take n, conclusion, []⟩ ∧
        ((∃ i ≤ vs.length, cut = (frames (vs.take i)).length) → conclusion = .clean) ∧
        ((∀ i ≤ vs.length, cut ≠ (frames (vs.take i)).length) → ∃ reason, conclusion = .error (.protocol reason)) := by
  obtain ⟨before, after, k, rfl, hk, rfl⟩ := exists_cutIn vs hcut
  obtain ⟨conclusion, hreads, hboundary, hinside⟩ := hk.reads (fun v hv => h v (List.mem_append_left after hv))
    fun v hv => h v (List.mem_append_right before hv)
  rw [frames_append, List.take_length_add_append] at hchunks
  refine ⟨before.length, by simp, fun i hi => hk.frames_take_le_iff hi, conclusion, ?_, ?_, ?_⟩
  · rw [List.take_left]
    exact readStream_of_reads (hchunks ▸ hreads)
  · rintro ⟨i, hi, hcut⟩
    -- a cut between frames is the one behind the messages in front of it
    have hle := (hk.frames_take_le_iff hi).mp (Nat.le_of_eq hcut.symm)
    have := length_frames_take_le before after hle
    exact hboundary (by omega)
  · intro hall
    refine hinside (Nat.pos_of_ne_zero ?_)
    rintro rfl
    exact hall before.length (by simp) (by simp)

/-- Two messages, the second one of which is cut off behind the first digit of its length. -/
theorem readStream_cut_digit :
    (∀ v ∈ [Json.null, .string "0123456789"], Fits v) ∧
      ∃ reason, readStream ([(frames [Json.null, .string "0123456789"]).take 42].map .bytes) =
        ⟨[Json.null], .error (.protocol reason), []⟩ := by
  have hfits : ∀ v ∈ [Json.null, .string "0123456789"], Fits v := by
    intro v hv
    simp only [List.mem_cons, List.not_mem_nil, or_false] at hv
    rcases hv with rfl | rfl
    · exact ⟨by simp [Json.Regular], by decide, by decide⟩
    · exact ⟨by simp [Json.Regular], by decide, by decide⟩
  obtain ⟨n, -, hwhole, conclusion, hread, -, hinside⟩ :=
    readStream_cut _ hfits 42 (by decide) [(frames [Json.null, .string "0123456789"]).take 42] (by simp)
  have hfirst : 1 ≤ n := (hwhole 1 (by decide)).mp (by decide)
  have hsecond : ¬2 ≤ n := fun h => absurd ((hwhole 2 (by decide)).mpr h) (by decide)
  obtain rfl : n = 1 := by omega
  obtain ⟨reason, rfl⟩ := hinside (by decide)
  exact ⟨hfits, reason, hread⟩

end IndexFs.Frame

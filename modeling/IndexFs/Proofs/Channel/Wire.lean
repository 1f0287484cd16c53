import IndexFs.Proofs.Channel.Queue

/-!
# What is written

A session writes the frames that it is asked for in their order, each one whole and none twice. Only a
writer that breaks leaves a part of a frame, and nothing comes after it (`output_framed`).
-/

namespace IndexFs

/-! ## Writers -/

/-- A writer takes all of a frame, or a part of it and then nothing more. -/
theorem Frame.Writer.write_cases (w : Frame.Writer) (bs : List UInt8) :
    ((w.write bs).1 = bs ∧ (w.write bs).2.1 = .ok () ∧
      ∀ left message, (w.write bs).2.2.limit = some (left, message) →
        ∃ before, w.limit = some (before, message)) ∨
    ∃ left message, w.limit = some (left, message) ∧ left < bs.length ∧
      w.write bs = (bs.take left, .error (.io message), ⟨some (0, message)⟩) := by
  unfold Frame.Writer.write
  split
  · next hlimit =>
    refine .inl ⟨rfl, rfl, fun left message h => ?_⟩
    rw [hlimit] at h
    cases h
  · next left message hlimit =>
    split
    · refine .inl ⟨rfl, rfl, fun left' message' h => ?_⟩
      cases h
      exact ⟨left, hlimit⟩
    · next hlength => exact .inr ⟨left, message, hlimit, by omega, rfl⟩

/-- A writer that has failed takes nothing. -/
theorem Frame.Writer.write_of_exhausted {w : Frame.Writer} {message : String}
    (hlimit : w.limit = some (0, message)) {bs : List UInt8} (hbs : bs ≠ []) :
    w.write bs = ([], .error (.io message), w) := by
  obtain ⟨limit⟩ := w
  cases hlimit
  simp only [Frame.Writer.write]
  rw [if_neg (by simpa using hbs), List.take_zero]

namespace Channel.Session

variable {Call : Type} [DecidableEq Call]

/-! ## The writer and the queue -/

/-- How often the writer broke. -/
def breaks (h : List (Mark Call)) : Nat :=
  (h.filterMap Mark.event?).countP Event.breaks

omit [DecidableEq Call] in
theorem breaks_append (h h' : List (Mark Call)) : breaks (h ++ h') = breaks h + breaks h' := by
  unfold breaks
  rw [List.filterMap_append, List.countP_append]

omit [DecidableEq Call] in
theorem breaks_pos {h : List (Mark Call)} {after : Nat} {message : String}
    (hmem : .event (.breakWriter after message) ∈ h) : 0 < breaks h :=
  List.countP_pos_iff.mpr ⟨_, List.mem_filterMap.mpr ⟨_, hmem, rfl⟩, rfl⟩

/-- What has become of the frames that were taken off the queue: the first ones were written, and the others
failed. Of the first that failed a part may have been written. -/
inductive Wire (h : List (Mark Call)) (s : Session Call) :
    List (Job Call) → List (Job Call) → List UInt8 → Prop where
  | whole {sent : List (Job Call)}
      (hwrites : h.filterMap Mark.write? = sent.map fun job => (job.origin, .ok ()))
      (houtput : s.output = sent.flatMap (·.frame))
      (hbreak : ∀ left message, s.writer.limit = some (left, message) →
        ∃ after, .event (.breakWriter after message) ∈ h) :
      Wire h s sent [] []
  | torn {sent lost : List (Job Call)} {torn : Job Call} {tail : List UInt8} {after : Nat}
      {message : String}
      (hwrites : h.filterMap Mark.write? =
        sent.map (fun job => (job.origin, .ok ())) ++
          (torn :: lost).map fun job => (job.origin, .error (.io message)))
      (houtput : s.output = sent.flatMap (·.frame) ++ tail)
      (hpart : tail <+: torn.frame) (hstrict : tail.length < torn.frame.length)
      (hbreak : .event (.breakWriter after message) ∈ h)
      (hlimit : s.writer.limit = some (0, message)) :
      Wire h s sent (torn :: lost) tail

omit [DecidableEq Call] in
/-- Something happens that does not concern the writer. -/
theorem Wire.skip {h : List (Mark Call)} {s t : Session Call} {m : Mark Call}
    {sent failed : List (Job Call)} {tail : List UInt8} (hs : Wire h s sent failed tail)
    (hm : m.write? = none) (houtput : t.output = s.output) (hwriter : t.writer = s.writer) :
    Wire (h ++ [m]) t sent failed tail := by
  have hwrites : (h ++ [m]).filterMap Mark.write? = h.filterMap Mark.write? := by
    rw [filterMap_concat, hm, Option.toList_none, List.append_nil]
  cases hs with
  | whole hw ho hbreak =>
    refine .whole (hwrites.trans hw) (houtput.trans ho) fun left message hlimit => ?_
    rw [hwriter] at hlimit
    obtain ⟨after, hmem⟩ := hbreak left message hlimit
    exact ⟨after, List.mem_append_left _ hmem⟩
  | torn hw ho hpart hstrict hbreak hlimit =>
    exact .torn (hwrites.trans hw) (houtput.trans ho) hpart hstrict (List.mem_append_left _ hbreak)
      (hwriter ▸ hlimit)

omit [DecidableEq Call] in
/-- The writer breaks for the first time. -/
theorem Wire.break {h : List (Mark Call)} {s t : Session Call} {after : Nat} {message : String}
    {sent failed : List (Job Call)} {tail : List UInt8} (hs : Wire h s sent failed tail)
    (hfirst : ∀ after message, .event (.breakWriter after message) ∉ h) (houtput : t.output = s.output)
    (hwriter : t.writer = ⟨some (after, message)⟩) :
    Wire (h ++ [.event (.breakWriter after message)]) t sent failed tail := by
  cases hs with
  | whole hw ho _ =>
    refine .whole ?_ (houtput.trans ho) fun left message' hlimit => ?_
    · rw [filterMap_concat, hw]
      exact List.append_nil _
    · rw [hwriter] at hlimit
      cases hlimit
      exact ⟨after, List.mem_append_right _ List.mem_cons_self⟩
  | torn _ _ _ _ hbreak _ => exact absurd hbreak (hfirst _ _)

omit [DecidableEq Call] in
/-- The first frame of the queue is written: all of it, or a part, or nothing after an earlier failure. -/
theorem Wire.write {h : List (Mark Call)} {s t : Session Call} {job : Job Call}
    {sent failed : List (Job Call)} {tail : List UInt8} (hs : Wire h s sent failed tail)
    (hjob : job.frame ≠ []) (houtput : t.output = s.output ++ (s.writer.write job.frame).1)
    (hwriter : t.writer = (s.writer.write job.frame).2.2) :
    ∃ sent' failed' tail', sent' ++ failed' = sent ++ failed ++ [job] ∧
      Wire (h ++ [.write job.origin (s.writer.write job.frame).2.1]) t sent' failed' tail' := by
  have hwrites : ∀ r, (h ++ [Mark.write job.origin r]).filterMap Mark.write? =
      h.filterMap Mark.write? ++ [(job.origin, r)] := fun r => filterMap_concat _ _ _
  have hlength : 0 < job.frame.length := List.length_pos_iff.mpr hjob
  cases hs with
  | whole hw ho hbreak =>
    rcases s.writer.write_cases job.frame with
      ⟨hbytes, hok, hlimit⟩ | ⟨left, message, hleft, hlt, hwrite⟩
    · -- the writer takes all of it
      refine ⟨sent ++ [job], [], [], by simp, ?_⟩
      rw [hok]
      refine .whole ?_ ?_ fun left message h' => ?_
      · rw [hwrites, hw, List.map_append]
        rfl
      · rw [houtput, hbytes, ho, List.flatMap_append, List.flatMap_singleton]
      · rw [hwriter] at h'
        obtain ⟨before, hbefore⟩ := hlimit left message h'
        obtain ⟨after, hmem⟩ := hbreak before message hbefore
        exact ⟨after, List.mem_append_left _ hmem⟩
    · -- the writer takes a part of it and fails, since it broke before
      obtain ⟨after, hmem⟩ := hbreak left message hleft
      refine ⟨sent, [job], job.frame.take left, by simp, ?_⟩
      rw [hwrite] at houtput hwriter ⊢
      refine .torn ?_ ?_ (List.take_prefix _ _) ?_ (List.mem_append_left _ hmem) ?_
      · rw [hwrites, hw]
        rfl
      · rw [houtput, ho]
      · rw [List.length_take]
        omega
      · rw [hwriter]
  | @torn lost torn _ after message hw ho hpart hstrict hbreak hlimit =>
    -- the writer takes nothing more, and the frame is lost
    refine ⟨sent, torn :: (lost ++ [job]), tail, by simp, ?_⟩
    rw [Frame.Writer.write_of_exhausted hlimit hjob] at houtput hwriter ⊢
    refine .torn ?_ ?_ hpart hstrict (List.mem_append_left _ hbreak) (hwriter ▸ hlimit)
    · rw [hwrites, hw, List.append_assoc, ← List.cons_append, List.map_append]
      rfl
    · rw [houtput, ho, List.append_nil]

theorem wire_step {h : List (Mark Call)} {s t : Session Call} {m : Mark Call} (hist : History h s)
    (hstep : Step s m t) (hbreaks : breaks (h ++ [m]) ≤ 1) {sent failed : List (Job Call)}
    {tail : List UInt8} (hdone : Drained h s (sent ++ failed)) (hs : Wire h s sent failed tail) :
    ∃ sent' failed' tail',
      Drained (h ++ [m]) t (sent' ++ failed') ∧ Wire (h ++ [m]) t sent' failed' tail' := by
  rcases writer_step hstep with
    ⟨job, rest, hqueue, rfl, hrest, houtput, hwriter⟩ | ⟨hm, houtput, hwriter⟩
  · have hframe := frame_ne_nil hist (hqueue ▸ List.mem_cons_self)
    obtain ⟨sent', failed', tail', heq, ht⟩ := hs.write hframe houtput hwriter
    refine ⟨sent', failed', tail', ?_, ht⟩
    rw [heq]
    exact hdone.write hist hqueue hrest _
  · refine ⟨sent, failed, tail, hdone.skip hist hstep hm, ?_⟩
    rcases hwriter with ⟨after, message, rfl, hwriter⟩ | hwriter
    · refine hs.break (fun after' message' hmem => ?_) houtput hwriter
      -- a second break would make two
      have hearlier := breaks_pos hmem
      have hnow : breaks [(.event (.breakWriter after message) : Mark Call)] = 1 := rfl
      rw [breaks_append] at hbreaks
      omega
    · exact hs.skip hm houtput hwriter

theorem exists_wire {h : List (Mark Call)} {s : Session Call} (hist : History h s)
    (hbreaks : breaks h ≤ 1) :
    ∃ sent failed tail, Drained h s (sent ++ failed) ∧ Wire h s sent failed tail := by
  induction hist with
  | new =>
    refine ⟨[], [], [], ⟨List.nil_sublist _, rfl⟩, .whole rfl rfl fun _ _ hlimit => ?_⟩
    cases hlimit
  | @step h s t m hist hstep ih =>
    have hbefore : breaks h ≤ 1 := by
      rw [breaks_append] at hbreaks
      omega
    obtain ⟨sent, failed, tail, hdone, hs⟩ := ih hbefore
    exact wire_step hist hstep hbreaks hdone hs

/-! ## Nothing more -/

/-- After a failed write, nothing more is written. -/
theorem output_of_failed {before after : List (Mark Call)} {s₀ s : Session Call}
    (hist₀ : History before s₀) (hist : History (before ++ after) s)
    (hbreaks : breaks (before ++ after) ≤ 1) {origin : Origin Call} {e : ChannelError}
    (hmem : .write origin (.error e) ∈ before) : s.output = s₀.output := by
  induction after using List.reverseRecOn generalizing s with
  | nil =>
    rw [List.append_nil] at hist
    rw [history_unique hist₀ hist]
  | append_singleton after m ih =>
    rw [← List.append_assoc] at hist hbreaks
    obtain ⟨t, hist, hstep⟩ := history_concat hist
    have hbefore : breaks (before ++ after) ≤ 1 := by
      rw [breaks_append] at hbreaks
      omega
    rw [← ih hist hbefore]
    obtain ⟨sent, failed, tail, -, ht⟩ := exists_wire hist hbefore
    rcases writer_step hstep with ⟨job, rest, hqueue, -, -, houtput, -⟩ | ⟨-, houtput, -⟩
    · have hframe := frame_ne_nil hist (hqueue ▸ List.mem_cons_self)
      have hwrite : (origin, .error e) ∈ (before ++ after).filterMap Mark.write? :=
        List.mem_filterMap.mpr ⟨_, List.mem_append_left _ hmem, rfl⟩
      cases ht with
      | whole hw =>
        -- here no write has failed
        rw [hw] at hwrite
        obtain ⟨job, -, heq⟩ := List.mem_map.mp hwrite
        cases heq
      | torn _ _ _ _ _ hlimit =>
        rw [houtput, Frame.Writer.write_of_exhausted hlimit hframe, List.append_nil]
    · exact houtput

/-! ## The output -/

/-- What was written: `sent` are the frames that were written, `failed` those that were not, and `tail` is
what was written of the first of these. -/
structure Framed (h : List (Mark Call)) (s : Session Call) (sent failed : List (Job Call))
    (tail : List UInt8) : Prop where
  output : s.output = sent.flatMap (·.frame) ++ tail
  /-- What became of the writes so far; they fail only because the writer broke. -/
  writes : ∃ message,
    h.filterMap Mark.write? =
      sent.map (fun job => (job.origin, .ok ())) ++
        failed.map (fun job => (job.origin, .error (.io message))) ∧
    (failed ≠ [] → ∃ after, .event (.breakWriter after message) ∈ h)
  /-- They keep the order in which they were asked for. -/
  order : (sent ++ failed).Sublist (jobs h)
  /-- Each is the frame of one request or notification that started, or of one rejection. -/
  asked : ∀ job ∈ sent ++ failed, Asked h job
  /-- No call has two frames. -/
  calls : ((sent ++ failed).filterMap (·.origin.call?)).Nodup
  /-- No request of the other side is rejected twice. -/
  rejections : ((sent ++ failed).filterMap Job.rejection?).Sublist (h.filterMap Mark.rejection?)
  ids : ((sent ++ failed).filterMap (·.origin.id?)).Pairwise (· < ·)
  /-- A call that was cancelled while its frame waited has none. -/
  cancelled : ∀ before after call s₀, h = before ++ .event (.cancel call) :: after →
    History before s₀ → s₀.isQueued call = true → ∀ job ∈ sent ++ failed, job.origin.call? ≠ some call
  /-- Without a failure, there is no part of a frame. -/
  whole : failed = [] → tail = []
  /-- With one, it is a part of the first frame that failed, and not all of it. -/
  torn : ∀ torn lost, failed = torn :: lost → tail <+: torn.frame ∧ tail.length < torn.frame.length
  /-- Nothing was written after the first failure. -/
  last : ∀ before after s₀ origin e, h = before ++ after → History before s₀ →
    .write origin (.error e) ∈ before → s.output = s₀.output

theorem framed_of_wire {h : List (Mark Call)} {s : Session Call} (hist : History h s)
    (hfresh : (started h).Nodup) (hbreaks : breaks h ≤ 1)
    {sent failed : List (Job Call)} {tail : List UInt8}
    (hdone : Drained h s (sent ++ failed)) (hs : Wire h s sent failed tail) :
    Framed h s sent failed tail := by
  -- what was written is some of what came into the queue, in its order
  have hjobs : (sent ++ failed).Sublist (jobs h) := (List.sublist_append_left _ _).trans hdone.order
  refine {
    output := ?_
    writes := ?_
    order := hjobs
    asked := fun job hjob => asked_of_mem_jobs hist (hjobs.subset hjob)
    calls := ((hjobs.filterMap _).trans (calls_jobs hist)).nodup hfresh
    rejections := rejections_jobs hist ▸ hjobs.filterMap _
    ids := (ids_jobs hist).1.sublist (hjobs.filterMap _)
    cancelled := ?_
    whole := ?_
    torn := ?_
    last := ?_ }
  · cases hs with
    | whole _ ho => rw [ho, List.append_nil]
    | torn _ ho => exact ho
  · -- at most the last frame was cut, and it is the first that failed
    cases hs with
    | whole hw =>
      refine ⟨"", ?_, fun hfailed => absurd rfl hfailed⟩
      rw [hw]
      exact (List.append_nil _).symm
    | torn hw _ _ _ hbreak _ => exact ⟨_, hw, fun _ => ⟨_, hbreak⟩⟩
  · rintro before after call s₀ rfl hist₀ hqueued job hjob
    -- a job that was done has its mark, and a cancelled call has none
    obtain ⟨r, hmem⟩ := (hdone.mem_writes job.origin).mpr (List.mem_map.mpr ⟨job, hjob, rfl⟩)
    exact unwritten_of_cancel hist hfresh hist₀ hqueued job.origin r hmem
  · rintro rfl
    cases hs with
    | whole => rfl
  · rintro torn lost rfl
    cases hs with
    | torn _ _ hpart hstrict _ _ => exact ⟨hpart, hstrict⟩
  · rintro before after s₀ origin e rfl hist₀ hmem
    exact output_of_failed hist₀ hist hbreaks hmem

/-- In every session with at most one break of the writer, whatever happens and in whatever order, the
output consists of whole frames, in the order in which they were asked for, and perhaps of a part of one
more, in which the writer broke. -/
theorem output_framed (events : List (Event Call)) (hcalls : (events.filterMap Event.starts?).Nodup)
    (hbreaks : events.countP Event.breaks ≤ 1) :
    (∃ h : List (Mark Call), h.filterMap Mark.event? = events ∧ History h (events.foldl apply .new)) ∧
      ∀ h s, h.filterMap Mark.event? = events → History h s →
        ∃ sent failed tail, Framed h s sent failed tail := by
  refine ⟨history_foldl_apply events, fun h s hevents hist => ?_⟩
  have hfresh : (started h).Nodup := by
    rw [started_eq, hevents]
    exact hcalls
  have hbroken : breaks h ≤ 1 := by
    unfold breaks
    rw [hevents]
    exact hbreaks
  obtain ⟨sent, failed, tail, hdone, hs⟩ := exists_wire hist hbroken
  exact ⟨sent, failed, tail, framed_of_wire hist hfresh hbroken hdone hs⟩

/-- Four frames wait for the writer; one of their calls is cancelled, and the writer breaks in the second of
the others. -/
theorem output_framed_torn :
    let events : List (Event Nat) :=
      [.block, .request 7 "a" .null, .request 8 "b" .null, .notify 9 "c" .null, .request 5 "d" .null,
        .cancel 8, .breakWriter 80 "gone", .unblock]
    (events.filterMap Event.starts?).Nodup ∧ events.countP Event.breaks ≤ 1 ∧
      (events.foldl apply new).output = Utf8.ofString ("Content-Length: 51\r\n\r\n" ++
        "\x7b\"id\":1,\"jsonrpc\":\"2.0\",\"method\":\"a\",\"params\":null\x7d" ++ "Content") ∧
      ∃ h sent failed tail, h.filterMap Mark.event? = events ∧
        Framed h (events.foldl apply new) sent failed tail := by
  intro events
  have hcalls : (events.filterMap Event.starts?).Nodup := by
    show [7, 8, 9, 5].Nodup
    decide
  have hbreaks : events.countP Event.breaks ≤ 1 := by decide
  obtain ⟨⟨h, hevents, hist⟩, hall⟩ := output_framed events hcalls hbreaks
  obtain ⟨sent, failed, tail, hframed⟩ := hall h _ hevents hist
  exact ⟨hcalls, hbreaks, rfl, h, sent, failed, tail, hevents, hframed⟩

end Channel.Session

end IndexFs

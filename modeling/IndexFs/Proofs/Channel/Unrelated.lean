import IndexFs.Proofs.Channel.Flow
import IndexFs.Proofs.Channel.Streams

/-!
# Unrelated traffic

Notifications, values that are no messages, and responses that nobody waits for may arrive at any time. With
a writer that takes everything they are as good as not sent: a session from whose input their frames are
taken out gives the same results, writes the same bytes and closes at the same time. A request of the other
side is answered with one rejection, and taking its frame out takes away this rejection and nothing else.
-/

namespace IndexFs.Channel

variable {Call : Type}

/-! ## Frames that are left out -/

/-- A message that means nothing to a session. -/
inductive Unrelated (s : Session Call) (m : Json) : Prop where
  | notification {method : String} (hmethod : (m.get? "method").bind Json.string? = some method)
      (hid : m.get? "id" = none)
  | noObject (hm : ∀ members, m ≠ .object members)
  /-- Neither a request nor a notification, and without an id. -/
  | anonymous (hmethod : (m.get? "method").bind Json.string? = none) (hid : m.get? "id" = none)
  /-- A response whose id is no integer. -/
  | misaddressed {id : Json} (hmethod : (m.get? "method").bind Json.string? = none)
      (hid : m.get? "id" = some id) (hn : id.signed? = none)
  /-- A response to a request that does not wait for it, or that there never was. -/
  | unawaited {id : Json} {n : Int} (hmethod : (m.get? "method").bind Json.string? = none)
      (hid : m.get? "id" = some id) (hn : id.signed? = some n)
      (hnone : ∀ p ∈ s.pending, (p.1 : Int) ≠ n)

namespace Session

/-- The reader is about to read a frame of which `part` has arrived. -/
structure Facing (s : Session Call) (part : List UInt8) : Prop where
  closed : s.closed = false
  ending : s.ending = .unknown
  input : ∃ passed, Frame.PassedOver passed ∧ s.input = passed ++ part

variable [DecidableEq Call]

/-- `s.Omits part events thin replies`: of the events that happen to the session from now on, `thin` are
those that are left when the bytes of some frames are taken out, of the first of which `part` has arrived
before. `replies` are the ids and methods of the requests among them. -/
inductive Omits : Session Call → List UInt8 → List (Event Call) → List (Event Call) →
    List (Json × String) → Prop where
  | nil (s : Session Call) : Omits s [] [] [] []
  /-- An event that stays. Calls may come while a frame is arriving. -/
  | keep {s : Session Call} {part : List UInt8} {e : Event Call} {events thin : List (Event Call)}
      {replies : List (Json × String)} (he : part = [] ∨ e.isCall = true)
      (h : Omits (s.apply e) part events thin replies) : Omits s part (e :: events) (e :: thin) replies
  /-- Some bytes of a frame that is taken out. -/
  | part {s : Session Call} {part bytes : List UInt8} {events thin : List (Event Call)}
      {replies : List (Json × String)} (hs : Facing s part)
      (hread : Frame.read .unknown (part ++ bytes) = .pending)
      (h : Omits (s.apply (.receive bytes)) (part ++ bytes) events thin replies) :
      Omits s part (.receive bytes :: events) thin replies
  /-- The last bytes of the frame of an unrelated message. -/
  | unrelated {s : Session Call} {part bytes : List UInt8} {m : Json} {events thin : List (Event Call)}
      {replies : List (Json × String)} (hs : Facing s part)
      (hread : Frame.read .unknown (part ++ bytes) = .message m []) (hm : Unrelated s m)
      (h : Omits (s.apply (.receive bytes)) [] events thin replies) :
      Omits s part (.receive bytes :: events) thin replies
  /-- The last bytes of the frame of a request, with an id of any shape. -/
  | request {s : Session Call} {part bytes : List UInt8} {m id : Json} {method : String}
      {events thin : List (Event Call)} {replies : List (Json × String)} (hs : Facing s part)
      (hread : Frame.read .unknown (part ++ bytes) = .message m [])
      (hmethod : (m.get? "method").bind Json.string? = some method) (hid : m.get? "id" = some id)
      (h : Omits (s.apply (.receive bytes)) [] events thin replies) :
      Omits s part (.receive bytes :: events) thin ((id, method) :: replies)
  /-- Bytes that arrive after the end of reading. -/
  | late {s : Session Call} {bytes : List UInt8} {events thin : List (Event Call)}
      {replies : List (Json × String)} (hs : s.closed = true)
      (h : Omits (s.apply (.receive bytes)) [] events thin replies) :
      Omits s [] (.receive bytes :: events) thin replies

end Session

/-- Two sessions after the same events, except that `replies` were asked for in `s` alone: `h` is what
happened in `s`, and `sent` are the frames that it wrote, and whether `t` wrote them as well. -/
structure Spared [DecidableEq Call] (replies : List (Json × String)) (s t : Session Call)
    (h : List (Mark Call)) (sent : List (Job Call × Bool)) : Prop where
  results : t.results = s.results
  closed : t.closed = s.closed
  nextId : t.nextId = s.nextId
  pending : t.pending = s.pending
  history : Session.History h s
  asked : sent.map (·.1) = jobs h
  output : s.output = wireBytes (sent.map (·.1))
  /-- The other session wrote the same frames in the same order, -/
  kept : t.output = wireBytes ((sent.filter (·.2)).map (·.1))
  /-- but not the rejections of the requests that it did not get. -/
  missing : (sent.filter fun job => !job.2).map (·.1) = replies.map fun r => .ofRejection r.1 r.2
  /-- Each request that arrived was rejected once, in the order of arrival. -/
  rejections : (jobs h).filterMap Job.rejection? = h.filterMap Mark.rejection?

namespace Session

variable [DecidableEq Call] {h : List (Mark Call)} {s t : Session Call} {part bytes : List UInt8}

/-! ## What arrives at a session at rest -/

theorem incoming_of_request {m id : Json} {method : String}
    (hmethod : (m.get? "method").bind Json.string? = some method) (hid : m.get? "id" = some id) :
    Incoming.of m = .request id method := by
  simp only [Incoming.of, hmethod, hid]

omit [DecidableEq Call] in
/-- An unrelated message is nothing to this side, or a response that nobody waits for. -/
theorem incoming_of_unrelated {m : Json} (hm : Unrelated s m) :
    Incoming.of m = .other ∨
      ∃ n r, Incoming.of m = .response n r ∧ ∀ p ∈ s.pending, (p.1 : Int) ≠ n := by
  cases hm with
  | notification hmethod hid => exact .inl (by simp only [Incoming.of, hmethod, hid])
  | noObject hm =>
    cases m with
    | object members => exact absurd rfl (hm members)
    | _ => exact .inl rfl
  | anonymous hmethod hid => exact .inl (by simp only [Incoming.of, hmethod, hid])
  | misaddressed hmethod hid hn => exact .inl (by simp only [Incoming.of, hmethod, hid, hn])
  | unawaited hmethod hid hn hnone =>
    exact .inr ⟨_, Message.outcome m, by simp only [Incoming.of, hmethod, hid, hn], hnone⟩

theorem dispatch_of_unrelated {m : Json} (hm : Unrelated s m) : s.dispatch m = s := by
  rcases incoming_of_unrelated hm with hincoming | ⟨n, r, hincoming, hnone⟩
  · simp only [dispatch, hincoming]
  · have hcall : s.pendingCall? n = none := by
      cases hcall : s.pendingCall? n with
      | none => rfl
      | some call =>
        obtain ⟨k, hk, hmem⟩ := mem_of_pendingCall? hcall
        exact absurd hk (hnone _ hmem)
    simp only [dispatch, hincoming, hcall]

omit [DecidableEq Call] in
theorem not_rejected_of_unrelated {m : Json} (hm : Unrelated s m) : ¬Rejected m := by
  rintro ⟨id, method, hrequest⟩
  rcases incoming_of_unrelated hm with hincoming | ⟨n, r, hincoming, -⟩
  · rw [hincoming] at hrequest
    cases hrequest
  · rw [hincoming] at hrequest
    cases hrequest

theorem Resting.read (hs : Resting h s) (hopen : s.closed = false) :
    Frame.read s.ending s.input = .pending := by
  have hrest := hs.rest
  rw [advance?_of_idle (.inr hs.queue), readNext?_eq, hopen, hs.rejecting] at hrest
  cases hread : Frame.read s.ending s.input with
  | pending => rfl
  | _ =>
    rw [hread] at hrest
    cases hrest

omit [DecidableEq Call] in
theorem Facing.read_more (hs : Facing s part) (bytes : List UInt8) :
    Frame.read (s.more bytes).ending (s.more bytes).input = Frame.read .unknown (part ++ bytes) := by
  obtain ⟨passed, hpassed, hinput⟩ := hs.input
  show Frame.read s.ending (s.input ++ bytes) = _
  rw [hs.ending, hinput, List.append_assoc]
  exact hpassed .unknown (part ++ bytes)

/-- A part of a frame is kept until the rest of it arrives. -/
theorem resting_part (hs : Resting h s) (hf : Facing s part)
    (hread : Frame.read .unknown (part ++ bytes) = .pending) :
    s.apply (.receive bytes) = s.more bytes ∧
      Resting (h ++ [.event (.receive bytes)]) (s.apply (.receive bytes)) := by
  have hoccur := receive_of_unknown hf.ending bytes
  have hrest : (s.more bytes).advance? = none := by
    have hidle : (s.more bytes).blocked = true ∨ (s.more bytes).queue = [] := .inr hs.queue
    rw [advance?_of_idle hidle, readNext?_eq, hf.read_more, hread]
    split <;> rfl
  have hist := hs.history.step (.event s (.receive bytes))
  rw [apply, hoccur, settle_of_none hrest]
  rw [hoccur] at hist
  exact ⟨rfl, hist, ⟨hs.flowing.blocked, hs.flowing.writer⟩, hrest⟩

/-- A message is taken as soon as its frame is complete. -/
theorem advance?_message (hs : Resting h s) (hf : Facing s part) {m : Json}
    (hread : Frame.read .unknown (part ++ bytes) = .message m []) :
    (s.occur (.receive bytes)).advance? = some ({ s with input := [] }.dispatch m) ∧
      History (h ++ [.event (.receive bytes), .message m]) ({ s with input := [] }.dispatch m) := by
  have hoccur := receive_of_unknown hf.ending bytes
  have hclosed : (s.more bytes).closed = false := hf.closed
  have hrejecting : (s.more bytes).rejecting = false := hs.rejecting
  have hist : History (h ++ [.event (.receive bytes)]) (s.more bytes) := by
    rw [← hoccur]
    exact hs.history.step (.event s (.receive bytes))
  constructor
  · have hidle : (s.more bytes).blocked = true ∨ (s.more bytes).queue = [] := .inr hs.queue
    rw [hoccur, advance?_of_idle hidle, readNext?_eq, hclosed, hrejecting, hf.read_more, hread]
    rfl
  · have hstep := hist.step (.message hclosed hrejecting ((hf.read_more bytes).trans hread))
    rwa [List.append_assoc] at hstep

theorem advance?_of_emptied (hf : Facing s part) (hqueue : s.queue = []) (output : List UInt8) :
    (s.withStreams [] output).advance? = none := by
  have hidle : (s.withStreams [] output).blocked = true ∨ (s.withStreams [] output).queue = [] :=
    .inr hqueue
  have hread : Frame.read (s.withStreams [] output).ending (s.withStreams [] output).input = .pending := by
    show Frame.read s.ending [] = _
    rw [hf.ending]
    rfl
  rw [advance?_of_idle hidle, readNext?_eq, hread]
  split <;> rfl

omit [DecidableEq Call] in
theorem jobs_receive (h : List (Mark Call)) (bytes : List UInt8) :
    jobs (h ++ [.event (.receive bytes)]) = jobs h := by
  unfold jobs
  rw [jobsFrom_concat]
  exact List.append_nil _

omit [DecidableEq Call] in
theorem jobs_message (h : List (Mark Call)) (m : Json) :
    jobs (h ++ [.message m]) =
      jobs h ++ ((Mark.message m : Mark Call).rejection?.map (⟨.rejection, ·⟩)).toList := by
  unfold jobs
  rw [jobsFrom_concat]
  rfl

omit [DecidableEq Call] in
theorem jobs_write (h : List (Mark Call)) (origin : Origin Call) (r : Except ChannelError Unit) :
    jobs (h ++ [.write origin r]) = jobs h := by
  unfold jobs
  rw [jobsFrom_concat]
  exact List.append_nil _

/-- An unrelated message leaves nothing behind. -/
theorem resting_unrelated (hs : Resting h s) (hf : Facing s part) {m : Json}
    (hread : Frame.read .unknown (part ++ bytes) = .message m []) (hm : Unrelated s m) :
    s.apply (.receive bytes) = s.withStreams [] s.output ∧
      Resting (h ++ [.event (.receive bytes), .message m]) (s.apply (.receive bytes)) ∧
      jobs (h ++ [.event (.receive bytes), .message m]) = jobs h := by
  -- whether a message is unrelated depends on the pending calls alone
  have hm' : Unrelated { s with input := [] } m := by
    cases hm with
    | notification hmethod hid => exact .notification hmethod hid
    | noObject hm => exact .noObject hm
    | anonymous hmethod hid => exact .anonymous hmethod hid
    | misaddressed hmethod hid hn => exact .misaddressed hmethod hid hn
    | unawaited hmethod hid hn hnone => exact .unawaited hmethod hid hn hnone
  have hsame : { s with input := [] }.dispatch m = s.withStreams [] s.output := dispatch_of_unrelated hm'
  obtain ⟨hstep, hist⟩ := advance?_message hs hf hread
  have hrest := advance?_of_emptied hf hs.queue s.output
  rw [hsame] at hstep hist
  rw [apply, settle_of_some hstep, settle_of_none hrest]
  refine ⟨rfl, ⟨hist, ⟨hs.flowing.blocked, hs.flowing.writer⟩, hrest⟩, ?_⟩
  rw [List.append_cons, jobs_message, jobs_receive,
    Mark.rejection?_of_not_rejected (not_rejected_of_unrelated hm)]
  exact List.append_nil _

/-- A request is rejected at once. -/
theorem resting_request (hs : Resting h s) (hf : Facing s part) {m id : Json} {method : String}
    (hread : Frame.read .unknown (part ++ bytes) = .message m []) (hm : Incoming.of m = .request id method) :
    ∃ ms : List (Mark Call), ms.filterMap Mark.event? = [.receive bytes] ∧
      s.apply (.receive bytes) =
        s.withStreams [] (s.output ++ wireBytes [(Job.ofRejection id method : Job Call)]) ∧
      Resting (h ++ ms) (s.apply (.receive bytes)) ∧
      jobs (h ++ ms) = jobs h ++ [Job.ofRejection id method] := by
  let job : Job Call := Job.ofRejection id method
  let u : Session Call := { s with input := [], queue := [job], rejecting := true }
  let v : Session Call := s.withStreams [] (s.output ++ job.frame)
  obtain ⟨hstep, hist⟩ := advance?_message hs hf hread
  have hu : { s with input := [] }.dispatch m = u := by
    rw [dispatch_of_request hm, ← Job.ofRejection_eq]
    show { s with input := [], queue := s.queue ++ [job], rejecting := true } = u
    rw [hs.queue, List.nil_append]
  rw [hu] at hstep hist
  -- the rejection is the only frame in the queue, and the writer takes it
  have hwrote : u.wrote job [] = v := by
    have hwriter : u.writer = .unlimited := hs.flowing.writer
    unfold wrote popped
    rw [hwriter]
    show { s with
      input := [], queue := [], rejecting := false, writer := .unlimited,
      output := s.output ++ job.frame } = v
    rw [← hs.flowing.writer, ← hs.queue, ← hs.rejecting]
    rfl
  have hnext : u.advance? = some v := by
    rw [← hwrote]
    exact advance?_of_queue hs.flowing.blocked rfl
  have hwrite : Step u (.write .rejection (u.writer.write job.frame).2.1) v := by
    have hstep : Step u (.write job.origin (u.writer.write job.frame).2.1) (u.wrote job []) :=
      .write hs.flowing.blocked rfl
    rwa [hwrote] at hstep
  have hrest : v.advance? = none := advance?_of_emptied hf hs.queue _
  have hframe : wireBytes [job] = job.frame := List.append_nil _
  refine ⟨[.event (.receive bytes), .message m, .write .rejection (u.writer.write job.frame).2.1], rfl, ?_,
    ?_, ?_⟩
  · rw [apply, settle_of_some hstep, settle_of_some hnext, settle_of_none hrest, hframe]
  · rw [apply, settle_of_some hstep, settle_of_some hnext, settle_of_none hrest]
    refine ⟨?_, ⟨hs.flowing.blocked, hs.flowing.writer⟩, hrest⟩
    have hlast := hist.step hwrite
    rwa [List.append_assoc] at hlast
  · rw [List.append_cons, List.append_cons, jobs_write, jobs_message, jobs_receive]
    simp only [Mark.rejection?, hm]
    rfl

/-- After the end of reading, bytes are kept or not seen. -/
theorem resting_late (hs : Resting h s) (hclosed : s.closed = true) (bytes : List UInt8) :
    (∃ input, s.apply (.receive bytes) = s.withStreams input s.output) ∧
      Resting (h ++ [.event (.receive bytes)]) (s.apply (.receive bytes)) := by
  have hoccur : ∃ input, s.occur (.receive bytes) = s.withStreams input s.output := by
    by_cases hending : s.ending = .unknown
    · exact ⟨_, receive_of_unknown hending bytes⟩
    · exact ⟨s.input, receive_of_ended hending bytes⟩
  have hist := hs.history.step (.event s (.receive bytes))
  obtain ⟨input, hoccur⟩ := hoccur
  have hrest : (s.withStreams input s.output).advance? = none :=
    advance?_of_closed hclosed (.inr hs.queue)
  rw [hoccur] at hist
  rw [apply, hoccur, settle_of_none hrest]
  exact ⟨⟨input, rfl⟩, hist, ⟨hs.flowing.blocked, hs.flowing.writer⟩, hrest⟩

/-! ## The two sessions side by side -/

/-- What another session has in front of it, when `part` has arrived of a frame that it does not get. -/
inductive Opposite (s : Session Call) : List UInt8 → List UInt8 → Prop where
  /-- There is nothing more to read. -/
  | closed {part input : List UInt8} (h : s.closed = true) : Opposite s part input
  /-- Both have the same in front of them. -/
  | whole {input : List UInt8} (h : Frame.ReadAlike input s.input) : Opposite s [] input
  /-- Apart from the frame, both wait for the next one. -/
  | torn {passed part input : List UInt8} (hending : s.ending = .unknown)
      (hinput : s.input = passed ++ part) (hpassed : Frame.PassedOver passed)
      (hother : Frame.PassedOver input) : Opposite s part input

/-- The other session is the same but for its streams. -/
structure Shadow (part : List UInt8) (s t : Session Call) : Prop where
  same : t = s.withStreams t.input t.output
  opposite : s.Opposite part t.input

omit [DecidableEq Call] in
theorem Shadow.ending (hst : Shadow part s t) : t.ending = s.ending := by
  rw [hst.same]
  rfl

omit [DecidableEq Call] in
/-- In front of a frame that is taken out, the other session has nothing to read. -/
theorem Shadow.passedOver (hst : Shadow part s t) (hf : Facing s part) : Frame.PassedOver t.input := by
  obtain ⟨passed, hpassed, hinput⟩ := hf.input
  cases hst.opposite with
  | closed h =>
    rw [hf.closed] at h
    cases h
  | whole h =>
    rw [hinput, List.append_nil] at h
    exact h.trans hpassed
  | torn _ _ _ hother => exact hother

/-- As long as both find the same, an event does the same to both. -/
theorem Shadow.apply_of_readsSame (hst : Shadow part s t) {e : Event Call}
    (hwriter : e.sparesWriter = true) (hreads : (s.occur e).ReadsSame (t.input ++ e.arriving s.ending)) :
    ∃ input out, (s.apply e).output = s.output ++ out ∧
      t.apply e = (s.apply e).withStreams input (t.output ++ out) ∧
      ((s.apply e).input = s.input ++ e.arriving s.ending ∧ input = t.input ++ e.arriving s.ending ∨
        input = (s.apply e).input) := by
  have hoccur : t.occur e = (s.occur e).withStreams (t.input ++ e.arriving s.ending) t.output := by
    rw [← occur_withStreams, ← hst.same]
  have houtput : (s.occur e).output = s.output :=
    (occur_writer s (Event.breaks_of_sparesWriter hwriter)).1
  obtain ⟨input, out, hout, hsettle, hkept⟩ := settle_withStreams (s.occur e) hreads t.output
  rw [houtput] at hout
  rw [occur_input] at hkept
  refine ⟨input, out, hout, ?_, hkept⟩
  unfold Session.apply
  rw [hoccur, hsettle]

/-- Both sessions wrote the same upon an event, and go on side by side. -/
structure Abreast (part : List UInt8) (s t s' t' : Session Call) : Prop where
  shadow : Shadow part s' t'
  wrote : ∃ out, s'.output = s.output ++ out ∧ t'.output = t.output ++ out

theorem abreast_closed (hst : Shadow part s t) {e : Event Call} (hwriter : e.sparesWriter = true)
    (hclosed : s.closed = true) : Abreast part s t (s.apply e) (t.apply e) := by
  have hclosed' : (s.occur e).closed = true := (occur_frame s e).2.trans hclosed
  obtain ⟨input, out, houtput, ht, -⟩ := hst.apply_of_readsSame hwriter (.inl hclosed')
  rw [ht]
  exact ⟨⟨rfl, .closed (settle_closed hclosed')⟩, out, houtput, rfl⟩

theorem abreast_whole (hst : Shadow [] s t) {e : Event Call} (hwriter : e.sparesWriter = true)
    (halike : Frame.ReadAlike t.input s.input) : Abreast [] s t (s.apply e) (t.apply e) := by
  have halike' := halike.append (e.arriving s.ending)
  have hreads : (s.occur e).ReadsSame (t.input ++ e.arriving s.ending) := by
    refine .inr ?_
    rw [occur_input]
    exact halike'.read _
  obtain ⟨input, out, houtput, ht, hkept⟩ := hst.apply_of_readsSame hwriter hreads
  rw [ht]
  refine ⟨⟨rfl, .whole ?_⟩, out, houtput, rfl⟩
  show Frame.ReadAlike input _
  rcases hkept with ⟨hleft, rfl⟩ | rfl
  · rwa [hleft]
  · exact .refl _

/-- As long as the rest of a frame is missing, a call changes neither input. -/
theorem input_apply {e : Event Call} (he : e.isCall = true)
    (hread : Frame.read s.ending s.input = .pending) :
    (s.apply e).input = s.input ∧ (s.apply e).ending = s.ending := by
  obtain ⟨hending, hnothing⟩ := occur_ending he s
  have hinput : (s.occur e).input = s.input := by
    rw [occur_input, hnothing, List.append_nil]
  have hread' : Frame.read (s.occur e).ending (s.occur e).input = .pending := by
    rw [hending, hinput]
    exact hread
  exact ⟨(input_settle hread').trans hinput, (settle_outside _).1.trans hending⟩

theorem abreast_torn (hs : Resting h s) (hst : Shadow part s t) {e : Event Call}
    (hwriter : e.sparesWriter = true) (he : e.isCall = true) (hopen : s.closed = false)
    {passed : List UInt8} (hending : s.ending = .unknown) (hinput : s.input = passed ++ part)
    (hpassed : Frame.PassedOver passed) (hother : Frame.PassedOver t.input) :
    Abreast part s t (s.apply e) (t.apply e) := by
  have hread := hs.read hopen
  have hread' : Frame.read t.ending t.input = .pending := by
    rw [hst.ending, hending, hother.read]
    rfl
  obtain ⟨hsame, hnothing⟩ := occur_ending he s
  -- neither session finds a whole frame, before the call and after it
  have hreads : (s.occur e).ReadsSame (t.input ++ e.arriving s.ending) := by
    refine .inr ?_
    rw [occur_input, hnothing, List.append_nil, List.append_nil, hsame, hread, ← hst.ending]
    exact hread'
  obtain ⟨input, out, houtput, ht, -⟩ := hst.apply_of_readsSame hwriter hreads
  obtain ⟨hleft, hleft'⟩ := input_apply he hread
  obtain ⟨hright, -⟩ := input_apply he hread'
  refine ⟨⟨?_, ?_⟩, out, houtput, ?_⟩
  · rw [ht]
    rfl
  · rw [hright]
    exact .torn (hleft'.trans hending) (hleft.trans hinput) hpassed hother
  · rw [ht]
    rfl

/-- An event that stays does the same to both sessions. -/
theorem abreast_apply (hs : Resting h s) (hst : Shadow part s t) {e : Event Call}
    (hwriter : e.sparesWriter = true) (he : part = [] ∨ e.isCall = true) :
    Abreast part s t (s.apply e) (t.apply e) := by
  cases hopen : s.closed with
  | true => exact abreast_closed hst hwriter hopen
  | false =>
    cases hst.opposite with
    | closed hclosed =>
      rw [hopen] at hclosed
      cases hclosed
    | whole halike => exact abreast_whole hst hwriter halike
    | torn hending hinput hpassed hother =>
      rcases he with rfl | he
      · refine abreast_whole hst hwriter ?_
        rw [hinput, List.append_nil]
        exact hother.trans hpassed.symm
      · exact abreast_torn hs hst hwriter he hopen hending hinput hpassed hother

/-! ## Runs -/

/-- Some events have led from `s` to `s'`, and from `t` to `t'` without the frames of some requests, which
have the `replies`: `ms` is what happened in the first session, and `sent` are the frames that it wrote, and
whether the other wrote them as well. -/
structure Thinned (h : List (Mark Call)) (s t : Session Call) (events : List (Event Call))
    (replies : List (Json × String)) (ms : List (Mark Call)) (sent : List (Job Call × Bool))
    (part : List UInt8) (s' t' : Session Call) : Prop where
  events : ms.filterMap Mark.event? = events
  resting : Resting (h ++ ms) s'
  shadow : Shadow part s' t'
  asked : jobs (h ++ ms) = jobs h ++ sent.map (·.1)
  output : s'.output = s.output ++ wireBytes (sent.map (·.1))
  kept : t'.output = t.output ++ wireBytes ((sent.filter (·.2)).map (·.1))
  missing : (sent.filter fun job => !job.2).map (·.1) = replies.map fun r => .ofRejection r.1 r.2

theorem Thinned.trans {u v s' t' : Session Call} {ms ms' : List (Mark Call)}
    {events events' : List (Event Call)} {replies replies' : List (Json × String)}
    {sent sent' : List (Job Call × Bool)} {part part' : List UInt8}
    (hst : Thinned h s t events replies ms sent part u v)
    (huv : Thinned (h ++ ms) u v events' replies' ms' sent' part' s' t') :
    Thinned h s t (events ++ events') (replies ++ replies') (ms ++ ms') (sent ++ sent') part' s' t' where
  events := by rw [List.filterMap_append, hst.events, huv.events]
  resting := by
    rw [← List.append_assoc]
    exact huv.resting
  shadow := huv.shadow
  asked := by rw [← List.append_assoc, huv.asked, hst.asked, List.map_append, List.append_assoc]
  output := by rw [huv.output, hst.output, List.map_append, wireBytes_append, List.append_assoc]
  kept := by
    rw [huv.kept, hst.kept, List.filter_append, List.map_append, wireBytes_append, List.append_assoc]
  missing := by rw [List.filter_append, List.map_append, hst.missing, huv.missing, List.map_append]

theorem Thinned.refl (hs : Resting h s) (hst : Shadow part s t) :
    Thinned h s t [] [] [] [] part s t where
  events := rfl
  resting := by rwa [List.append_nil]
  shadow := hst
  asked := by rw [List.append_nil, List.map_nil, List.append_nil]
  output := (List.append_nil _).symm
  kept := (List.append_nil _).symm
  missing := rfl

/-- Both sessions write what an event that stays asks for. -/
theorem thinned_keep (hs : Resting h s) (hst : Shadow part s t) {e : Event Call}
    (hwriter : e.sparesWriter = true) (he : part = [] ∨ e.isCall = true) :
    ∃ ms sent, Thinned h s t [e] [] ms sent part (s.apply e) (t.apply e) := by
  obtain ⟨ms, js, hms, hrest, hjobs, houtput⟩ := resting_apply hs hwriter
  obtain ⟨hshadow, out, hout, hout'⟩ := abreast_apply hs hst hwriter he
  -- the other session has written the same, so none of these frames is missing there
  have hsame : out = wireBytes js := List.append_cancel_left (hout.symm.trans houtput)
  have hall : (js.map fun job => (job, true)).map (·.1) = js := by
    rw [List.map_map]
    exact List.map_id js
  have hkept : ((js.map fun job => (job, true)).filter (·.2)).map (·.1) = js := by
    rw [List.filter_eq_self.mpr, hall]
    intro job hjob
    obtain ⟨_, -, rfl⟩ := List.mem_map.mp hjob
    rfl
  have hmissing : (js.map fun job => (job, true)).filter (fun job => !job.2) = [] := by
    rw [List.filter_eq_nil_iff]
    intro job hjob
    obtain ⟨_, -, rfl⟩ := List.mem_map.mp hjob
    exact Bool.false_ne_true
  exact ⟨ms, js.map fun job => (job, true), hms, hrest, hshadow, by rw [hall, hjobs],
    by rw [hall, houtput], by rw [hkept, hout', hsame], by rw [hmissing]; rfl⟩

/-- Bytes that are taken out and to which nothing is written. -/
theorem Thinned.silent {ms : List (Mark Call)} {e : Event Call} (hms : ms.filterMap Mark.event? = [e])
    (hrest : Resting (h ++ ms) (s.apply e)) (hjobs : jobs (h ++ ms) = jobs h)
    (houtput : (s.apply e).output = s.output) (hshadow : Shadow part (s.apply e) t) :
    Thinned h s t [e] [] ms [] part (s.apply e) t where
  events := hms
  resting := hrest
  shadow := hshadow
  asked := by rw [hjobs, List.map_nil, List.append_nil]
  output := by
    rw [houtput]
    exact (List.append_nil _).symm
  kept := (List.append_nil _).symm
  missing := rfl

theorem thinned_part (hs : Resting h s) (hst : Shadow part s t) (hf : Facing s part)
    (hread : Frame.read .unknown (part ++ bytes) = .pending) :
    ∃ ms sent, Thinned h s t [.receive bytes] [] ms sent (part ++ bytes) (s.apply (.receive bytes)) t := by
  obtain ⟨happly, hrest⟩ := resting_part hs hf hread
  obtain ⟨passed, hpassed, hinput⟩ := hf.input
  have hshadow : Shadow (part ++ bytes) (s.more bytes) t := by
    refine ⟨hst.same, .torn hf.ending ?_ hpassed (hst.passedOver hf)⟩
    show s.input ++ bytes = _
    rw [hinput, List.append_assoc]
  exact ⟨_, [], .silent rfl hrest (jobs_receive h bytes) (by rw [happly]; rfl) (by rwa [happly])⟩

omit [DecidableEq Call] in
theorem shadow_emptied (hst : Shadow part s t) (hf : Facing s part) (output : List UInt8) :
    Shadow [] (s.withStreams [] output) t :=
  ⟨hst.same, .whole (hst.passedOver hf)⟩

theorem thinned_unrelated (hs : Resting h s) (hst : Shadow part s t) (hf : Facing s part) {m : Json}
    (hread : Frame.read .unknown (part ++ bytes) = .message m []) (hm : Unrelated s m) :
    ∃ ms sent, Thinned h s t [.receive bytes] [] ms sent [] (s.apply (.receive bytes)) t := by
  obtain ⟨happly, hrest, hjobs⟩ := resting_unrelated hs hf hread hm
  have hshadow := shadow_emptied hst hf s.output
  exact ⟨_, [], .silent rfl hrest hjobs (by rw [happly]; rfl) (by rwa [happly])⟩

theorem thinned_request (hs : Resting h s) (hst : Shadow part s t) (hf : Facing s part) {m id : Json}
    {method : String} (hread : Frame.read .unknown (part ++ bytes) = .message m [])
    (hm : Incoming.of m = .request id method) :
    ∃ ms sent,
      Thinned h s t [.receive bytes] [(id, method)] ms sent [] (s.apply (.receive bytes)) t := by
  obtain ⟨ms, hms, happly, hrest, hjobs⟩ := resting_request hs hf hread hm
  have hshadow := shadow_emptied hst hf (s.output ++ wireBytes [(Job.ofRejection id method : Job Call)])
  refine ⟨ms, [(Job.ofRejection id method, false)], hms, hrest, by rwa [happly], hjobs, ?_, ?_, rfl⟩
  · rw [happly]
    rfl
  · exact (List.append_nil _).symm

theorem thinned_late (hs : Resting h s) (hst : Shadow [] s t) (hclosed : s.closed = true)
    (bytes : List UInt8) :
    ∃ ms sent, Thinned h s t [.receive bytes] [] ms sent [] (s.apply (.receive bytes)) t := by
  obtain ⟨⟨input, happly⟩, hrest⟩ := resting_late hs hclosed bytes
  have hshadow : Shadow [] (s.withStreams input s.output) t := ⟨hst.same, .closed hclosed⟩
  exact ⟨_, [], .silent rfl hrest (jobs_receive h bytes) (by rw [happly]; rfl) (by rwa [happly])⟩

/-- Side by side through all events. -/
theorem thinned_foldl {events thin : List (Event Call)} {replies : List (Json × String)}
    (homits : s.Omits part events thin replies) (hs : Resting h s) (hst : Shadow part s t)
    (hwriter : ∀ e ∈ events, e.sparesWriter = true) :
    ∃ ms sent, Thinned h s t events replies ms sent [] (events.foldl apply s) (thin.foldl apply t) := by
  -- the events are gone through as they are left out: each step adds its own part
  induction homits generalizing h t with
  | nil s => exact ⟨[], [], .refl hs hst⟩
  | keep he _ ih =>
    obtain ⟨hwriter, hlater⟩ := List.forall_mem_cons.mp hwriter
    obtain ⟨ms, sent, hstep⟩ := thinned_keep hs hst hwriter he
    obtain ⟨ms', sent', hrun⟩ := ih hstep.resting hstep.shadow hlater
    exact ⟨_, _, hstep.trans hrun⟩
  | part hf hread _ ih =>
    obtain ⟨-, hlater⟩ := List.forall_mem_cons.mp hwriter
    obtain ⟨ms, sent, hstep⟩ := thinned_part hs hst hf hread
    obtain ⟨ms', sent', hrun⟩ := ih hstep.resting hstep.shadow hlater
    exact ⟨_, _, hstep.trans hrun⟩
  | unrelated hf hread hm _ ih =>
    obtain ⟨-, hlater⟩ := List.forall_mem_cons.mp hwriter
    obtain ⟨ms, sent, hstep⟩ := thinned_unrelated hs hst hf hread hm
    obtain ⟨ms', sent', hrun⟩ := ih hstep.resting hstep.shadow hlater
    exact ⟨_, _, hstep.trans hrun⟩
  | request hf hread hmethod hid _ ih =>
    obtain ⟨-, hlater⟩ := List.forall_mem_cons.mp hwriter
    obtain ⟨ms, sent, hstep⟩ := thinned_request hs hst hf hread (incoming_of_request hmethod hid)
    obtain ⟨ms', sent', hrun⟩ := ih hstep.resting hstep.shadow hlater
    exact ⟨_, _, hstep.trans hrun⟩
  | late hclosed _ ih =>
    obtain ⟨-, hlater⟩ := List.forall_mem_cons.mp hwriter
    obtain ⟨ms, sent, hstep⟩ := thinned_late hs hst hclosed _
    obtain ⟨ms', sent', hrun⟩ := ih hstep.resting hstep.shadow hlater
    exact ⟨_, _, hstep.trans hrun⟩

/-- With a writer that takes everything, taking the frames of unrelated messages out of the input of a
session changes neither a result nor the bytes written nor the end of reading. Taking out the frames of
requests as well takes away their rejections and changes nothing else. The bytes may arrive in any pieces,
with calls in between. -/
theorem unrelated_inert {events thin events' thin' : List (Event Call)} {replies : List (Json × String)}
    (hwriter : ∀ e ∈ events, e.sparesWriter = true) (homits : new.Omits [] events thin replies)
    (hevents : SameArrivals events events') (hthin : SameArrivals thin thin') :
    ∃ h sent, h.filterMap Mark.event? = events ∧
      Spared replies (events'.foldl apply new) (thin'.foldl apply new) h sent := by
  have hshadow : Shadow [] (new : Session Call) new := ⟨rfl, .whole (.refl [])⟩
  obtain ⟨h, sent, hrun⟩ := thinned_foldl homits Resting.new hshadow hwriter
  rw [foldl_of_sameArrivals hevents, foldl_of_sameArrivals hthin] at hrun
  have hsame := hrun.shadow.same
  refine ⟨h, sent, hrun.events, ?_⟩
  exact {
    results := by rw [hsame]; rfl
    closed := by rw [hsame]; rfl
    nextId := by rw [hsame]; rfl
    pending := by rw [hsame]; rfl
    history := hrun.resting.history
    asked := hrun.asked.symm
    output := hrun.output
    kept := hrun.kept
    missing := hrun.missing
    rejections := rejections_jobs hrun.resting.history }

/-- Between a request and its response, the other side sends a notification, a response to nobody, and a
request under the same id, which arrives in two pieces. Without them, the rejection of that request is
missing from what is written. -/
theorem unrelated_inert_between :
    let log : Json := .object [("method", .string "log")]
    let stray : Json := .object [("id", .ofNat 5)]
    let ping : Json := .object [("id", .ofNat 1), ("method", .string "ping")]
    let answer : Json := .object [("id", .ofNat 1)]
    let whole := Frame.bytes log ++ Frame.bytes stray ++ Frame.bytes ping ++ Frame.bytes answer
    let thin : List (Event Nat) := [.request 7 "stat" .null, .receive (Frame.bytes answer)]
    let events : List (Event Nat) :=
      [.request 7 "stat" .null, .receive (Frame.bytes log), .receive (Frame.bytes stray),
        .receive ((Frame.bytes ping).take 9), .receive ((Frame.bytes ping).drop 9),
        .receive (Frame.bytes answer)]
    (∀ e ∈ events, e.sparesWriter = true) ∧ new.Omits [] events thin [(.ofNat 1, "ping")] ∧
      SameArrivals events [.request 7 "stat" .null, .receive whole] ∧ SameArrivals thin thin ∧
      (thin.foldl apply new).output = Utf8.ofString ("Content-Length: 54\r\n\r\n" ++
        "\x7b\"id\":1,\"jsonrpc\":\"2.0\",\"method\":\"stat\",\"params\":null\x7d") ∧
      ∃ h sent, h.filterMap Mark.event? = events ∧
        Spared [(.ofNat 1, "ping")]
          (([.request 7 "stat" .null, .receive whole] : List (Event Nat)).foldl apply new)
          (thin.foldl apply new) h sent ∧
        (sent.filter fun job => !job.2).map (·.1.frame) = [Utf8.ofString ("Content-Length: 83\r\n\r\n" ++
          "\x7b\"error\":\x7b\"code\":-32601,\"message\":\"Method not found: ping\"\x7d," ++
          "\"id\":1,\"jsonrpc\":\"2.0\"\x7d")] := by
  have hreads : Frame.read .unknown (Frame.bytes (.object [("method", .string "log")])) =
        .message (.object [("method", .string "log")]) [] ∧
      Frame.read .unknown (Frame.bytes (.object [("id", .ofNat 5)])) =
        .message (.object [("id", .ofNat 5)]) [] := by
    constructor <;> rfl
  let frame := Frame.bytes (.object [("id", .ofNat 1), ("method", .string "ping")])
  have hpieces : Frame.read .unknown (frame.take 9) = .pending ∧
      Frame.read .unknown (frame.take 9 ++ frame.drop 9) =
        .message (.object [("id", .ofNat 1), ("method", .string "ping")]) [] := by
    constructor <;> rfl
  have htext : (Job.ofRejection (.ofNat 1) "ping" : Job Nat).frame = Utf8.ofString
      ("Content-Length: 83\r\n\r\n" ++
        "\x7b\"error\":\x7b\"code\":-32601,\"message\":\"Method not found: ping\"\x7d," ++
        "\"id\":1,\"jsonrpc\":\"2.0\"\x7d") := by
    decide
  have hthin : (([.request 7 "stat" .null, .receive (Frame.bytes (.object [("id", .ofNat 1)]))] :
      List (Event Nat)).foldl apply new).output = Utf8.ofString ("Content-Length: 54\r\n\r\n" ++
        "\x7b\"id\":1,\"jsonrpc\":\"2.0\",\"method\":\"stat\",\"params\":null\x7d") := by
    rfl
  intro log stray ping answer whole thin events
  have hread : Frame.read .unknown ([] ++ Frame.bytes log) = .message log [] := hreads.1
  have hread' : Frame.read .unknown ([] ++ Frame.bytes stray) = .message stray [] := hreads.2
  have htorn : Frame.read .unknown ([] ++ (Frame.bytes ping).take 9) = .pending := hpieces.1
  have htaken : Frame.read .unknown ([] ++ (Frame.bytes ping).take 9 ++ (Frame.bytes ping).drop 9) =
      .message ping [] := hpieces.2
  have hwriter : ∀ e ∈ events, e.sparesWriter = true := by
    simp [events, Event.sparesWriter]
  have homits : new.Omits [] events thin [(.ofNat 1, "ping")] := by
    -- each state is known from the one before it, so that none is computed from the start
    have hnew : Resting [] (new : Session Nat) := .new
    have hspares : (Event.request 7 "stat" .null : Event Nat).sparesWriter = true := rfl
    obtain ⟨ms, js, -, hasked, -⟩ := resting_apply hnew hspares
    have hfacing : Facing (new.apply (.request 7 "stat" .null) : Session Nat) [] :=
      ⟨rfl, rfl, [], Frame.passedOver_nil, rfl⟩
    have hpending : (new.apply (.request 7 "stat" .null) : Session Nat).pending = [(1, 7)] := rfl
    refine .keep (.inl rfl) ?_
    generalize (new.apply (.request 7 "stat" .null) : Session Nat) = s at hasked hfacing hpending ⊢
    have hempty : ∀ output, Facing (s.withStreams [] output) [] := fun output =>
      ⟨hfacing.closed, hfacing.ending, [], Frame.passedOver_nil, rfl⟩
    have hlog : Unrelated s log := .notification rfl rfl
    have hstray : ∀ output, Unrelated (s.withStreams [] output) stray := by
      intro output
      refine .unawaited rfl rfl rfl fun p hp => ?_
      have hp : p ∈ s.pending := hp
      rw [hpending, List.mem_singleton] at hp
      rw [hp]
      decide
    obtain ⟨hs₁, hrest₁, -⟩ := resting_unrelated hasked hfacing hread hlog
    refine .unrelated hfacing hread hlog ?_
    rw [hs₁] at hrest₁ ⊢
    obtain ⟨hs₂, hrest₂, -⟩ :=
      resting_unrelated hrest₁ (hempty _) hread' (hstray _)
    refine .unrelated (hempty _) hread' (hstray _) ?_
    rw [hs₂] at hrest₂ ⊢
    obtain ⟨hs₃, -⟩ := resting_part hrest₂ (hempty _) htorn
    refine .part (hempty _) htorn ?_
    rw [hs₃]
    refine .request ⟨hfacing.closed, hfacing.ending, [], Frame.passedOver_nil, rfl⟩ htaken rfl rfl ?_
    exact .keep (.inl rfl) (.nil _)
  have hevents : SameArrivals events [.request 7 "stat" .null, .receive whole] := by
    have hping : Frame.bytes ping = (Frame.bytes ping).take 9 ++ (Frame.bytes ping).drop 9 :=
      (List.take_append_drop 9 _).symm
    have hwhole : whole = Frame.bytes log ++ (Frame.bytes stray ++ ((Frame.bytes ping).take 9 ++
        ((Frame.bytes ping).drop 9 ++ Frame.bytes answer))) := by
      rw [← List.append_assoc ((Frame.bytes ping).take 9), ← hping]
      simp only [whole, List.append_assoc]
    rw [hwhole]
    simp only [SameArrivals, events, List.flatMap_cons, List.flatMap_nil, Event.bytewise, List.map_append,
      List.append_nil]
  obtain ⟨h, sent, hh, hspared⟩ := unrelated_inert hwriter homits hevents rfl
  refine ⟨hwriter, homits, hevents, rfl, hthin, h, sent, hh, hspared, ?_⟩
  have hframes := congrArg (List.map Job.frame) hspared.missing
  rw [List.map_map] at hframes
  rw [← htext]
  exact hframes

end Session

end IndexFs.Channel

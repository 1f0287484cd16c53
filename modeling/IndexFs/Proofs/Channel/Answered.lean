import IndexFs.Proofs.Channel.Flow
import IndexFs.Proofs.Channel.Streams
import IndexFs.Proofs.Json.Keys
import IndexFs.Proofs.Server

/-!
# Sessions that are only answered

The other side of the connection to a server sends responses and nothing else (`Responses`), so that this side
never has to reject anything: it writes what it was asked for (`calling_settle`), reads what has arrived up to
the end, and is quiet then (`quiet_settle`), without ever waiting inside of a frame.
-/

namespace IndexFs

/-! ## Responses are not rejected -/

namespace Message

/-- A response has none but these keys. -/
theorem response_members (id : Json) (r : Except (Int × String) Json) :
    ∃ members, response id r = .object members ∧ "method" ∉ members.map (·.1) := by
  rcases r with ⟨code, text⟩ | v
  · exact ⟨_, response_error_eq id code text, by simp⟩
  · exact ⟨_, response_ok_eq id v, by simp⟩

/-- Whatever became of its numbers on the way, a response does not turn into a request. -/
theorem not_rejected_of_response {id w : Json} {r : Except (Int × String) Json}
    (h : Json.parse (response id r).bytes = .ok w) : ¬Channel.Rejected w := by
  obtain ⟨members, hmembers, hmethod⟩ := response_members id r
  rw [hmembers] at h
  have hkeys := Json.keys_of_parse h
  have hnone : w.get? "method" = none := by
    cases hget : w.get? "method" with
    | none => rfl
    | some v => exact absurd (hkeys "method" v hget) hmethod
  rintro ⟨i, method, hincoming⟩
  unfold Incoming.of at hincoming
  rw [hnone] at hincoming
  cases hid : w.get? "id" with
  | none =>
    rw [hid] at hincoming
    cases hincoming
  | some i =>
    rw [hid] at hincoming
    simp only [Option.bind_none] at hincoming
    split at hincoming <;> cases hincoming

end Message

namespace Channel.Session

variable {Call : Type} [DecidableEq Call]

/-! ## Writing -/

/-- A session that has read everything, or will read no more, and may still have frames to write. -/
structure Calling (s : Session Call) : Prop where
  flowing : s.Flowing
  rejecting : s.rejecting = false
  input : s.closed = true ∨ s.input = [] ∧ s.ending = .unknown

omit [DecidableEq Call] in
theorem calling_new : (Session.new : Session Call).Calling :=
  ⟨⟨rfl, rfl⟩, rfl, .inr ⟨rfl, rfl⟩⟩

theorem Calling.readNext? {s : Session Call} (h : s.Calling) : s.readNext? = none := by
  rw [readNext?_eq]
  rcases h.input with hclosed | ⟨hinput, hending⟩
  · rw [hclosed]
    rfl
  · rw [hinput, hending]
    split <;> rfl

theorem calling_occur {s : Session Call} (h : s.Calling) {e : Event Call} (hwriter : e.sparesWriter = true)
    (hcall : e.isCall = true) : (s.occur e).Calling := by
  obtain ⟨hending, harriving⟩ := occur_ending hcall s
  have hinput : (s.occur e).input = s.input := by
    rw [occur_input, harriving, List.append_nil]
  refine ⟨occur_flowing h.flowing hwriter, (occur_rejecting s e).1.trans h.rejecting, ?_⟩
  refine h.input.imp (occur_frame s e).2.trans ?_
  exact fun hrest => ⟨hinput.trans hrest.1, hending.trans hrest.2⟩

theorem wrote_calling {s : Session Call} (h : s.Calling) (job : Job Call) (rest : List (Job Call)) :
    (s.wrote job rest).Calling := by
  obtain ⟨-, hclosed, -, hinput⟩ :=
    written_frame (s.popped job rest) job.origin (s.writer.write job.frame).2.1
  obtain ⟨hending, hblocked⟩ :=
    written_outside (s.popped job rest) job.origin (s.writer.write job.frame).2.1
  obtain ⟨-, -, hwriter⟩ := wrote_wire s job rest
  rw [h.flowing.writer] at hwriter
  refine ⟨⟨hblocked.trans h.flowing.blocked, hwriter⟩, ?_, ?_⟩
  · -- once its rejection is written, the reader goes on
    by_cases horigin : job.origin = .rejection
    · unfold wrote
      rw [horigin]
      rfl
    · have hshared := written_shared (s.popped job rest) horigin (s.writer.write job.frame).2.1
      exact (shared_eq_iff.mp hshared).2.2.1.trans h.rejecting
  · refine h.input.imp hclosed.trans ?_
    exact fun hrest => ⟨hinput.trans hrest.1, hending.trans hrest.2⟩

/-- A session to which nothing more has arrived writes what it was asked for, and comes to rest. -/
theorem calling_settle {s : Session Call} (h : s.Calling) : s.settle.Calling ∧ s.settle.queue = [] := by
  induction s using settle_induction with
  | hnone s hnone =>
    have hidle := idle_of_rest hnone
    rw [h.flowing.blocked] at hidle
    rw [settle_of_none hnone]
    exact ⟨h, hidle.resolve_left Bool.false_ne_true⟩
  | hsome s t hadvance ih =>
    rw [settle_of_some hadvance]
    refine ih ?_
    rcases advance?_eq_some hadvance with hwrite | ⟨-, hread⟩
    · obtain ⟨-, job, rest, -, rfl⟩ := writeNext?_eq_some hwrite
      exact wrote_calling h job rest
    · rw [h.readNext?] at hread
      cases hread

/-! ## Reading -/

/-- A session that has nothing to write and may still have responses to read. -/
structure Awaiting (s : Session Call) : Prop where
  flowing : s.Flowing
  rejecting : s.rejecting = false
  queue : s.queue = []
  output : s.output = []
  input : s.closed = true ∨ Responses s.input

/-- A session with nothing left to do, all of whose bytes were taken away. -/
structure Quiet (s : Session Call) : Prop where
  calling : s.Calling
  queue : s.queue = []
  output : s.output = []

omit [DecidableEq Call] in
/-- What was written is taken away. -/
theorem quiet_of_calling {s : Session Call} (h : s.Calling) (hqueue : s.queue = []) :
    { s with output := [] }.Quiet :=
  ⟨⟨⟨h.flowing.blocked, h.flowing.writer⟩, h.rejecting, h.input⟩, hqueue, rfl⟩

omit [DecidableEq Call] in
theorem Quiet.collected {s : Session Call} (h : s.Quiet) : { s with results := [] }.Quiet :=
  ⟨⟨⟨h.calling.flowing.blocked, h.calling.flowing.writer⟩, h.calling.rejecting, h.calling.input⟩, h.queue,
    h.output⟩

theorem Quiet.rest {s : Session Call} (h : s.Quiet) : s.advance? = none := by
  rw [advance?_of_idle (.inr h.queue), h.calling.readNext?]

theorem awaiting_dispatch {s : Session Call} (h : s.Awaiting) {m : Json} (hm : ¬Rejected m) :
    (s.dispatch m).Awaiting := by
  obtain ⟨hshared, hqueue⟩ := dispatch_of_not_rejected hm s
  obtain ⟨-, hclosed, hrejecting, hinput, -, hblocked⟩ := shared_eq_iff.mp hshared
  refine ⟨⟨hblocked.trans h.flowing.blocked, (dispatch_writer s m).trans h.flowing.writer⟩, ?_, ?_, ?_, ?_⟩
  · exact hrejecting.trans h.rejecting
  · exact hqueue.trans h.queue
  · exact (dispatch_output s m).trans h.output
  · rw [hclosed, hinput]
    exact h.input

theorem awaiting_close {s : Session Call} (h : s.Awaiting) (input : List UInt8) :
    { s with input := input }.close.Awaiting := by
  rw [close_eq]
  exact ⟨⟨h.flowing.blocked, h.flowing.writer⟩, h.rejecting, h.queue, h.output, .inl rfl⟩

/-- A response is read, or reading ends; after the last response there is nothing left to do. -/
theorem awaiting_advance? {s : Session Call} (h : s.Awaiting) :
    s.Quiet ∨ ∃ t, s.advance? = some t ∧ t.Awaiting := by
  rw [advance?_of_idle (.inr h.queue), readNext?_eq, h.rejecting, Bool.or_false]
  cases hclosed : s.closed with
  | true => exact .inl ⟨⟨h.flowing, h.rejecting, .inl hclosed⟩, h.queue, h.output⟩
  | false =>
    rw [if_neg Bool.false_ne_true]
    have hresponses := h.input.resolve_left (by rw [hclosed]; exact Bool.false_ne_true)
    generalize hinput : s.input = input at hresponses
    cases hresponses with
    | nil =>
      cases hending : s.ending with
      | unknown => exact .inl ⟨⟨h.flowing, h.rejecting, .inr ⟨hinput, hending⟩⟩, h.queue, h.output⟩
      | closed => exact .inr ⟨_, rfl, awaiting_close h []⟩
      | failed m => exact .inr ⟨_, rfl, awaiting_close h s.input⟩
    | @cons rest id r hrest =>
      -- a number in the response may be too large to be read, and that ends reading
      rcases Frame.read_frame (Message.response id r) s.ending rest with ⟨w, hparse, hread⟩ | ⟨e, left, hread⟩
      · have hshorter : { s with input := rest }.Awaiting :=
          ⟨⟨h.flowing.blocked, h.flowing.writer⟩, h.rejecting, h.queue, h.output, .inr hrest⟩
        rw [hread]
        exact .inr ⟨_, rfl, awaiting_dispatch hshorter (Message.not_rejected_of_response hparse)⟩
      · rw [hread]
        exact .inr ⟨_, rfl, awaiting_close h left⟩

/-- All responses are read, up to the end of reading at most. -/
theorem quiet_settle {s : Session Call} (h : s.Awaiting) : s.settle.Quiet := by
  induction s using settle_induction with
  | hnone s hnone =>
    rw [settle_of_none hnone]
    rcases awaiting_advance? h with hquiet | ⟨t, hadvance, -⟩
    · exact hquiet
    · rw [hnone] at hadvance
      cases hadvance
  | hsome s t hadvance ih =>
    rw [settle_of_some hadvance]
    rcases awaiting_advance? h with hquiet | ⟨t', hadvance', ht'⟩
    · rw [hquiet.rest] at hadvance
      cases hadvance
    · rw [hadvance] at hadvance'
      cases hadvance'
      exact ih ht'

omit [DecidableEq Call] in
/-- Responses arrive, and perhaps the end of the input behind them. -/
theorem awaiting_receive {s : Session Call} (h : s.Quiet) {bytes : List UInt8} (hbytes : Responses bytes) :
    (s.receive bytes).Awaiting ∧ ∀ ending, ((s.receive bytes).endInput ending).Awaiting := by
  have hreceive : (s.receive bytes).Awaiting := by
    rcases h.calling.input with hclosed | ⟨hinput, hending⟩
    · unfold receive
      split
      · exact ⟨⟨h.calling.flowing.blocked, h.calling.flowing.writer⟩, h.calling.rejecting, h.queue, h.output,
          .inl hclosed⟩
      · exact ⟨h.calling.flowing, h.calling.rejecting, h.queue, h.output, .inl hclosed⟩
    · unfold receive
      rw [hending]
      refine ⟨⟨h.calling.flowing.blocked, h.calling.flowing.writer⟩, h.calling.rejecting, h.queue, h.output,
        .inr ?_⟩
      show Responses (s.input ++ bytes)
      rwa [hinput]
  refine ⟨hreceive, fun ending => ?_⟩
  unfold endInput
  split
  · exact ⟨⟨hreceive.flowing.blocked, hreceive.flowing.writer⟩, hreceive.rejecting, hreceive.queue,
      hreceive.output, hreceive.input⟩
  · exact hreceive

end Channel.Session

end IndexFs

import IndexFs.Proofs.Channel.Alike
import IndexFs.Proofs.Channel.Correlation
import IndexFs.Proofs.Channel.Message

/-!
# Writers that stall

The reader writes its rejections itself, and before one has been written it reads nothing. So a writer that
is blocked does not hold the reader back unless there is something to reject: then the responses behind it
are not read, and the end of the input is not found (`reading_side_exact`).
-/

namespace IndexFs

/-- Reading takes these messages off the bytes, one after the other, and leaves the rest. -/
inductive Frame.Takes (ending : Ending) : List UInt8 → List Json → List UInt8 → Prop where
  | nil (bs : List UInt8) : Takes ending bs [] bs
  | cons {bs rest left : List UInt8} {m : Json} {ms : List Json}
      (hread : Frame.read ending bs = .message m rest) (htakes : Takes ending rest ms left) :
      Takes ending bs (m :: ms) left

theorem Frame.Takes.split {ending : Ending} {ms ms' : List Json} {bs left : List UInt8}
    (h : Takes ending bs (ms ++ ms') left) :
    ∃ between, Takes ending bs ms between ∧ Takes ending between ms' left := by
  induction ms generalizing bs with
  | nil => exact ⟨bs, .nil bs, h⟩
  | cons m ms ih =>
    cases h with
    | cons hread htakes =>
      obtain ⟨between, hfirst, hlast⟩ := ih htakes
      exact ⟨between, .cons hread hfirst, hlast⟩

namespace Channel

/-- A message that the reader has to reject. -/
def Rejected (m : Json) : Prop :=
  ∃ id method, Incoming.of m = .request id method

/-- What comes from the other side, or instead of it. -/
inductive Event.Inbound {Call : Type} : Event Call → Prop where
  | receive (bytes : List UInt8) : Inbound (.receive bytes)
  | endInput (ending : Ending) : Inbound (.endInput ending)

namespace Session

variable {Call : Type} [DecidableEq Call]

/-- Nothing keeps the reader from taking these messages: the writer is not blocked, or there is nothing to
reject, neither among them nor from before. -/
def Flows (s : Session Call) (ms : List Json) : Prop :=
  s.blocked = false ∨ s.rejecting = false ∧ ∀ m ∈ ms, ¬Rejected m

/-! ## Messages and the queue -/

/-- A message that is not rejected leaves what belongs to no call, and the queue. -/
theorem dispatch_of_not_rejected {m : Json} (hm : ¬Rejected m) (s : Session Call) :
    (s.dispatch m).shared = s.shared ∧ (s.dispatch m).queue = s.queue := by
  unfold dispatch
  split
  · split
    · exact ⟨deliver_shared _ _ _, deliver_queue _ _ _⟩
    · exact ⟨rfl, rfl⟩
  · next id method hincoming => exact absurd ⟨id, method, hincoming⟩ hm
  · exact ⟨rfl, rfl⟩

theorem dispatch_of_request {m id : Json} {method : String} (hm : Incoming.of m = .request id method)
    (s : Session Call) :
    s.dispatch m =
      { s with
        queue := s.queue ++ [⟨.rejection, Frame.bytes (Message.rejection id method)⟩]
        rejecting := true } := by
  simp only [dispatch, hm]

/-- Nothing from outside makes the reader wait, or takes away what it waits for. -/
theorem occur_rejecting (s : Session Call) (e : Event Call) :
    (s.occur e).rejecting = s.rejecting ∧
      (.rejection ∈ s.queue.map (·.origin) → .rejection ∈ (s.occur e).queue.map (·.origin)) := by
  cases e with
  | request call method params =>
    simp only [occur, request]
    split
    · exact ⟨rfl, id⟩
    · exact ⟨rfl, fun hmem => by rw [List.map_append]; exact List.mem_append_left _ hmem⟩
  | notify call method params =>
    simp only [occur, notify]
    split
    · exact ⟨rfl, id⟩
    · exact ⟨rfl, fun hmem => by rw [List.map_append]; exact List.mem_append_left _ hmem⟩
  | cancel call =>
    -- cancelling takes out frames of the call, and a rejection is none
    refine ⟨rfl, fun hmem => ?_⟩
    show .rejection ∈ (s.cancel call).queue.map (·.origin)
    rw [map_cancel_queue, List.mem_filter]
    exact ⟨hmem, rfl⟩
  | receive bytes =>
    simp only [occur, receive]
    split <;> exact ⟨rfl, id⟩
  | endInput ending =>
    simp only [occur, endInput]
    split <;> exact ⟨rfl, id⟩
  | _ => exact ⟨rfl, id⟩

/-- The reader waits only for a rejection that is in the queue. -/
theorem rejection_queued {h : List (Mark Call)} {s : Session Call} (hist : History h s)
    (hrejecting : s.rejecting = true) : .rejection ∈ s.queue.map (·.origin) := by
  induction hist with
  | new => cases hrejecting
  | step hist hstep ih =>
    rename_i h s t mark
    cases hstep with
    | event e =>
      rw [(occur_rejecting _ e).1] at hrejecting
      exact (occur_rejecting _ e).2 (ih hrejecting)
    | @write job rest hblocked hqueue =>
      have hrest : (s.wrote job rest).queue = rest := (written_frame _ _ _).2.2.1
      by_cases horigin : job.origin = .rejection
      · -- once it is written, the reader goes on
        have hfree : (s.wrote job rest).rejecting = false := by
          unfold wrote
          rw [horigin]
          rfl
        rw [hfree] at hrejecting
        cases hrejecting
      · have hsame : (s.wrote job rest).shared = (s.popped job rest).shared :=
          written_shared _ horigin _
        obtain ⟨-, -, hkept, -, -, -⟩ := shared_eq_iff.mp hsame
        rw [hkept] at hrejecting
        have hmem := ih hrejecting
        rw [hqueue, List.map_cons, List.mem_cons] at hmem
        rw [hrest]
        exact hmem.resolve_left fun heq => horigin heq.symm
    | @message m rest hclosed hfree hread =>
      by_cases hm : Rejected m
      · obtain ⟨id, method, hincoming⟩ := hm
        rw [dispatch_of_request hincoming, List.map_append]
        exact List.mem_append_right _ List.mem_cons_self
      · obtain ⟨hshared, -⟩ := dispatch_of_not_rejected hm { s with input := rest }
        obtain ⟨-, -, hkept, -, -, -⟩ := shared_eq_iff.mp hshared
        rw [hkept] at hrejecting
        rw [hfree] at hrejecting
        cases hrejecting
    | ended hclosed hfree hends =>
      rw [close_eq] at hrejecting
      rw [hfree] at hrejecting
      cases hrejecting

/-! ## Readers -/

/-- A reader that waits for a blocked writer does nothing. -/
theorem advance?_of_rejecting {s : Session Call} (hblocked : s.blocked = true)
    (hrejecting : s.rejecting = true) : s.advance? = none := by
  rw [advance?_of_idle (.inl hblocked), readNext?_eq, hrejecting, Bool.or_true, if_pos rfl]

/-- It is the reader's turn. -/
structure Listening (s : Session Call) : Prop where
  closed : s.closed = false
  rejecting : s.rejecting = false
  idle : s.blocked = true ∨ s.queue = []
  numbered : s.Numbered

theorem Listening.advance? {s : Session Call} (hs : s.Listening) :
    s.advance? = s.after (Frame.read s.ending s.input) := by
  rw [advance?_of_idle hs.idle, readNext?_eq, hs.closed, hs.rejecting]
  rfl

omit [DecidableEq Call] in
theorem Ends.congr {s t : Session Call} {rest : List UInt8} (h : s.Ends rest)
    (hending : t.ending = s.ending) (hinput : t.input = s.input) : t.Ends rest := by
  cases h with
  | fault h => exact .fault (by rwa [hending, hinput])
  | finished h => exact .finished (by rwa [hending, hinput])
  | failed h =>
    rw [← hinput]
    exact .failed (by rwa [hending, hinput])

theorem after_of_ends {s : Session Call} {rest : List UInt8} (h : s.Ends rest) :
    s.after (Frame.read s.ending s.input) = some { s with input := rest }.close := by
  cases h with
  | fault h => rw [h]; rfl
  | finished h => rw [h]; rfl
  | failed h => rw [h]; rfl

/-- A closed session does nothing that does not need the writer. -/
theorem advance?_of_closed {s : Session Call} (hclosed : s.closed = true)
    (hidle : s.blocked = true ∨ s.queue = []) : s.advance? = none := by
  rw [advance?_of_idle hidle, readNext?_eq, hclosed, Bool.true_or, if_pos rfl]

/-- A call that waits goes on waiting while other messages are taken. -/
def KeepsWaiting (ms : List Json) (s t : Session Call) : Prop :=
  ∀ call id queued, (∀ m ∈ ms, ¬Answers id m) → s.At call (.waiting id queued) →
    t.At call (.waiting id queued)

theorem KeepsWaiting.mono {ms ms' : List Json} {s t : Session Call} (h : KeepsWaiting ms s t)
    (hsubset : ms ⊆ ms') : KeepsWaiting ms' s t :=
  fun call id queued hall hwaits => h call id queued (fun m hm => hall m (hsubset hm)) hwaits

theorem KeepsWaiting.trans {ms : List Json} {s t u : Session Call} (hst : KeepsWaiting ms s t)
    (htu : KeepsWaiting ms t u) : KeepsWaiting ms s u :=
  fun call id queued hall hwaits => htu call id queued hall (hst call id queued hall hwaits)

/-- One message is taken, and then the others. -/
theorem KeepsWaiting.cons {m : Json} {ms : List Json} {s t u : Session Call}
    (hst : KeepsWaiting [m] s t) (htu : KeepsWaiting ms t u) : KeepsWaiting (m :: ms) s u :=
  (hst.mono (List.cons_subset_cons m (List.nil_subset ms))).trans (htu.mono (List.subset_cons_self m ms))

theorem keepsWaiting_message {s t : Session Call} {m : Json} (hstep : Step s (.message m) t)
    (hnum : s.Numbered) : KeepsWaiting [m] s t := by
  intro call id queued hm hs
  have ht := at_step hstep hnum hs fun hstart => by cases hstart
  have hsame : (Phase.waiting id queued).receive m = .waiting id queued := by
    apply receive_eq_self
    intro n r hn hincoming
    cases hn
    exact hm m List.mem_cons_self (answers_of_incoming hincoming)
  rwa [Phase.next, hsame] at ht

theorem keepsWaiting_rejection {s t : Session Call} {r : Except ChannelError Unit}
    (hstep : Step s (.write .rejection r) t) (hnum : s.Numbered) (ms : List Json) :
    KeepsWaiting ms s t := by
  intro call id queued _ hs
  exact at_step hstep hnum hs fun hstart => by cases hstart

/-- The reader has got from one state to another by itself, taking these messages. -/
structure Onward (ms : List Json) (s t : Session Call) : Prop where
  settle : s.settle = t.settle
  listening : t.Listening
  ending : t.ending = s.ending
  blocked : t.blocked = s.blocked
  waiting : KeepsWaiting ms s t

/-- A message is taken and, if need be, rejected. -/
theorem onward_message {s : Session Call} (hs : s.Listening) {m : Json} {rest : List UInt8}
    (hread : Frame.read s.ending s.input = .message m rest)
    (hm : s.blocked = false ∨ ¬Rejected m) : ∃ t, Onward [m] s t ∧ t.input = rest := by
  have hadvance : s.advance? = some ({ s with input := rest }.dispatch m) := by
    rw [hs.advance?, hread]
    rfl
  have hstep : Step s (.message m) ({ s with input := rest }.dispatch m) :=
    .message hs.closed hs.rejecting hread
  have hnum := numbered_step hstep hs.numbered
  have hwaiting := keepsWaiting_message hstep hs.numbered
  by_cases hrejected : Rejected m
  · have hblocked := hm.resolve_right fun hnot => hnot hrejected
    obtain ⟨id, method, hincoming⟩ := hrejected
    have hempty : s.queue = [] := hs.idle.resolve_left (by simp [hblocked])
    let job : Job Call := ⟨.rejection, Frame.bytes (Message.rejection id method)⟩
    let u : Session Call := { s with input := rest, queue := [job], rejecting := true }
    have hu : { s with input := rest }.dispatch m = u := by
      rw [dispatch_of_request hincoming]
      show { s with input := rest, queue := s.queue ++ [job], rejecting := true } = u
      rw [hempty, List.nil_append]
    rw [hu] at hadvance hnum hwaiting
    -- the rejection is the only frame in the queue, and so it is written next
    have hnext : u.advance? = some (u.wrote job []) := advance?_of_queue hblocked rfl
    have hwrite : Step u (.write .rejection (u.writer.write job.frame).2.1) (u.wrote job []) :=
      @Step.write Call _ u job [] hblocked rfl
    refine ⟨u.wrote job [], ⟨?_, ?_, rfl, rfl, ?_⟩, rfl⟩
    · rw [settle_of_some hadvance, settle_of_some hnext]
    · exact ⟨hs.closed, rfl, .inr rfl, numbered_step hwrite hnum⟩
    · exact hwaiting.trans (keepsWaiting_rejection hwrite hnum [m])
  · obtain ⟨hshared, hqueue⟩ := dispatch_of_not_rejected hrejected { s with input := rest }
    obtain ⟨-, hclosed, hrejecting, hinput, hending, hblocked⟩ := shared_eq_iff.mp hshared
    refine ⟨_, ⟨settle_of_some hadvance, ?_, hending, hblocked, hwaiting⟩, hinput⟩
    refine ⟨hclosed.trans hs.closed, hrejecting.trans hs.rejecting, ?_, hnum⟩
    rw [hblocked, hqueue]
    exact hs.idle

/-- All messages are taken and, if need be, rejected. -/
theorem onward_takes {s : Session Call} (hs : s.Listening) {ms : List Json} {left : List UInt8}
    (htakes : Frame.Takes s.ending s.input ms left)
    (hms : s.blocked = false ∨ ∀ m ∈ ms, ¬Rejected m) : ∃ t, Onward ms s t ∧ t.input = left := by
  induction ms generalizing s with
  | nil =>
    cases htakes
    exact ⟨s, ⟨rfl, hs, rfl, rfl, fun _ _ _ _ hwaits => hwaits⟩, rfl⟩
  | cons m ms ih =>
    cases htakes with
    | cons hread htakes =>
      obtain ⟨t, hst, rfl⟩ :=
        onward_message hs hread (hms.imp_right fun hall => hall m List.mem_cons_self)
      rw [← hst.ending] at htakes
      have hrest : t.blocked = false ∨ ∀ m ∈ ms, ¬Rejected m := by
        rw [hst.blocked]
        exact hms.imp_right fun hall m' hm' => hall m' (List.mem_cons_of_mem m hm')
      obtain ⟨u, htu, hinput⟩ := ih hst.listening htakes hrest
      exact ⟨u, ⟨hst.settle.trans htu.settle, htu.listening, htu.ending.trans hst.ending,
        htu.blocked.trans hst.blocked, hst.waiting.cons htu.waiting⟩, hinput⟩

/-- With a blocked writer, the first message to be rejected is the last that is taken. -/
theorem settle_of_rejected {s : Session Call} (hs : s.Listening) {ms : List Json} {left : List UInt8}
    (htakes : Frame.Takes s.ending s.input ms left) (hblocked : s.blocked = true)
    (hms : ∃ m ∈ ms, Rejected m) : s.settle.closed = false ∧ KeepsWaiting ms s s.settle := by
  induction ms generalizing s with
  | nil =>
    obtain ⟨m, hm, -⟩ := hms
    cases hm
  | cons m ms ih =>
    cases htakes with
    | @cons _ rest _ _ _ hread htakes =>
      by_cases hrejected : Rejected m
      · -- the session reads the request, and then stands: its rejection cannot be written
        have hadvance : s.advance? = some ({ s with input := rest }.dispatch m) := by
          rw [hs.advance?, hread]
          rfl
        have hstep : Step s (.message m) ({ s with input := rest }.dispatch m) :=
          .message hs.closed hs.rejecting hread
        have hwaiting := keepsWaiting_message hstep hs.numbered
        obtain ⟨id, method, hincoming⟩ := hrejected
        have hstuck : ({ s with input := rest }.dispatch m).advance? = none := by
          rw [dispatch_of_request hincoming]
          exact advance?_of_rejecting hblocked rfl
        rw [settle_of_some hadvance, settle_of_none hstuck]
        refine ⟨(dispatch_frame _ _).2.1.trans hs.closed, ?_⟩
        exact hwaiting.mono (List.cons_subset_cons m (List.nil_subset ms))
      · -- the message passes, and the request is among the later ones
        obtain ⟨t, hst, rfl⟩ := onward_message hs hread (.inr hrejected)
        rw [← hst.ending] at htakes
        obtain ⟨m', hm', hrejected'⟩ := hms
        have hlater : m' ∈ ms := (List.mem_cons.mp hm').resolve_left fun heq =>
          hrejected (heq ▸ hrejected')
        obtain ⟨hclosed, hwaiting⟩ :=
          ih hst.listening htakes (hst.blocked.trans hblocked) ⟨m', hlater, hrejected'⟩
        rw [hst.settle]
        exact ⟨hclosed, hst.waiting.cons hwaiting⟩

/-! ## What arrives in a step -/

theorem occur_inbound {e : Event Call} (he : e.Inbound) (s : Session Call) :
    ∃ input ending, s.occur e = { s with input := input, ending := ending } := by
  cases he with
  | receive bytes =>
    simp only [occur, receive]
    split
    · next hending => exact ⟨_, .unknown, by rw [hending]⟩
    · exact ⟨s.input, s.ending, rfl⟩
  | endInput ending =>
    simp only [occur, endInput]
    split
    · exact ⟨s.input, ending, rfl⟩
    · exact ⟨s.input, s.ending, rfl⟩

/-- A session at rest: what it still has to write waits for the writer, and so does its reader. -/
structure AtRest (s : Session Call) : Prop where
  closed : s.closed = false
  idle : s.blocked = true ∨ s.queue = []
  rejecting : s.rejecting = true → s.blocked = true
  numbered : s.Numbered

theorem idle_of_rest {s : Session Call} (hrest : s.advance? = none) :
    s.blocked = true ∨ s.queue = [] := by
  cases hblocked : s.blocked with
  | true => exact .inl rfl
  | false =>
    cases hqueue : s.queue with
    | nil => exact .inr rfl
    | cons job rest =>
      rw [advance?_of_queue hblocked hqueue] at hrest
      cases hrest

theorem atRest_of_history {h : List (Mark Call)} {s : Session Call} (hist : History h s)
    (hrest : s.advance? = none) (hopen : s.closed = false) : s.AtRest := by
  have hidle := idle_of_rest hrest
  refine ⟨hopen, hidle, fun hrejecting => hidle.resolve_right fun hempty => ?_, numbered_history hist⟩
  have hmem := rejection_queued hist hrejecting
  rw [hempty] at hmem
  cases hmem

section

variable {s : Session Call} {e : Event Call} {ms : List Json} {left : List UInt8}

theorem keepsWaiting_inbound (he : e.Inbound) (ms : List Json) : KeepsWaiting ms s (s.occur e) := by
  intro call id queued _ hs
  obtain ⟨input, ending, heq⟩ := occur_inbound he s
  rw [heq]
  exact ⟨hs.pending, hs.queue, hs.answered, hs.results⟩

theorem listening_inbound (hs : s.AtRest) (he : e.Inbound) (hrejecting : s.rejecting = false) :
    (s.occur e).Listening ∧ (s.occur e).blocked = s.blocked := by
  obtain ⟨input, ending, heq⟩ := occur_inbound he s
  have hnum := numbered_occur hs.numbered e
  rw [heq] at hnum ⊢
  exact ⟨⟨hs.closed, hrejecting, hs.idle, hnum⟩, rfl⟩

theorem onward_inbound (hs : s.AtRest) (he : e.Inbound)
    (htakes : Frame.Takes (s.occur e).ending (s.occur e).input ms left) (hflows : s.Flows ms) :
    ∃ t, Onward ms (s.occur e) t ∧ t.input = left := by
  have hrejecting : s.rejecting = false := by
    rcases hflows with hblocked | ⟨hrejecting, -⟩
    · rw [← Bool.not_eq_true]
      intro hrejecting
      rw [hs.rejecting hrejecting] at hblocked
      cases hblocked
    · exact hrejecting
  obtain ⟨hlistening, hblocked⟩ := listening_inbound hs he hrejecting
  apply onward_takes hlistening htakes
  rw [hblocked]
  exact hflows.imp_right And.right

/-- The reader waits for the writer, and nobody learns anything. -/
theorem apply_of_stalled (hs : s.AtRest) (he : e.Inbound)
    (htakes : Frame.Takes (s.occur e).ending (s.occur e).input ms left) (hstalled : ¬s.Flows ms) :
    (s.apply e).closed = false ∧ KeepsWaiting ms s (s.apply e) := by
  unfold Flows at hstalled
  rw [not_or, Bool.not_eq_false, not_and] at hstalled
  obtain ⟨hblocked, hrejected⟩ := hstalled
  have hwaiting := keepsWaiting_inbound (s := s) he ms
  cases hrejecting : s.rejecting with
  -- the session stands already, and what arrives does not move it
  | true =>
    obtain ⟨input, ending, heq⟩ := occur_inbound he s
    have hstuck : (s.occur e).advance? = none := by
      rw [heq]
      exact advance?_of_rejecting hblocked hrejecting
    unfold apply
    rw [settle_of_none hstuck]
    exact ⟨by rw [heq]; exact hs.closed, hwaiting⟩
  -- the session still reads, up to the request that stops it
  | false =>
    obtain ⟨hlistening, hsame⟩ := listening_inbound hs he hrejecting
    have hsome : ∃ m ∈ ms, Rejected m := by
      by_contra hnone
      exact hrejected hrejecting fun m hm hrejected' => hnone ⟨m, hm, hrejected'⟩
    obtain ⟨hclosed, hlater⟩ :=
      settle_of_rejected hlistening htakes (hsame.trans hblocked) hsome
    exact ⟨hclosed, hwaiting.trans hlater⟩

end

theorem not_result_of_waiting {s : Session Call} {call : Call} {id : Nat} {queued : Bool}
    (hs : s.At call (.waiting id queued)) (r : Result) : (call, r) ∉ s.results := by
  rw [hs.mem_results]
  show ¬none = some r
  exact (Option.some_ne_none r).symm

/-- The call behind an entry waits, and perhaps its frame does. -/
theorem at_of_pending {h : List (Mark Call)} {s : Session Call} (hist : History h s)
    (hfresh : (started h).Nodup) {id : Nat} {call : Call} (hmem : (id, call) ∈ s.pending) :
    s.At call (.waiting id (s.isQueued call)) := by
  obtain ⟨p, hs⟩ := exists_at hist hfresh call
  have hid := (hs.mem_pending id).mp hmem
  cases p with
  | waiting n queued =>
    cases hid
    have hqueued : s.isQueued call = queued := by
      rw [hs.isQueued]
      cases queued <;> rfl
    rwa [hqueued]
  | _ => cases hid

/-! ## The reading side -/

/-- A session to which events happen does all that it can do before the next one. -/
theorem advance?_foldl (events : List (Event Call)) :
    (events.foldl apply (new : Session Call)).advance? = none := by
  rw [← settle_foldl]
  exact advance?_settle _

/-- What becomes of the calls that wait when something arrives. -/
structure ReadingSide (s : Session Call) : Prop where
  /-- A response ends its call in the step in which it arrives exactly if the reader gets to it. -/
  answered : ∀ e ms m left id call, Event.Inbound e →
    Frame.Takes (s.occur e).ending (s.occur e).input (ms ++ [m]) left →
    (id, call) ∈ s.pending → s.isQueued call = false →
    (∀ m' ∈ ms, ¬Answers id m') → Answers id m →
      (s.Flows ms → (call, Message.outcome m) ∈ (s.apply e).results) ∧
      (¬s.Flows ms → ∀ r, (call, r) ∉ (s.apply e).results)
  /-- The end of the input closes the session in the step in which it comes exactly if the reader gets to
  it. Then nobody is left waiting, and whose frame has been written is told so. -/
  ended : ∀ e ms left rest, Event.Inbound e →
    Frame.Takes (s.occur e).ending (s.occur e).input ms left →
    { s.occur e with input := left }.Ends rest →
      ((s.apply e).closed = true ↔ s.Flows ms) ∧
      (s.Flows ms → (s.apply e).pending = []) ∧
      ∀ id call, (id, call) ∈ s.pending → (∀ m ∈ ms, ¬Answers id m) →
        (s.Flows ms ∧ s.isQueued call = false → (call, .error .closed) ∈ (s.apply e).results) ∧
        (¬(s.Flows ms ∧ s.isQueued call = false) → ∀ r, (call, r) ∉ (s.apply e).results)

theorem apply_answered {h : List (Mark Call)} {s : Session Call} (hist : History h s)
    (hfresh : (started h).Nodup) (hs : s.AtRest) {e : Event Call} (he : e.Inbound) {ms : List Json}
    {m : Json} {left : List UInt8}
    (htakes : Frame.Takes (s.occur e).ending (s.occur e).input (ms ++ [m]) left) {id : Nat}
    {call : Call} (hmem : (id, call) ∈ s.pending) (hwritten : s.isQueued call = false)
    (hother : ∀ m' ∈ ms, ¬Answers id m') (hanswers : Answers id m) (hflows : s.Flows ms) :
    (call, Message.outcome m) ∈ (s.apply e).results := by
  have hwaits := at_of_pending hist hfresh hmem
  rw [hwritten] at hwaits
  obtain ⟨between, hfirst, hlast⟩ := htakes.split
  obtain ⟨t, hst, rfl⟩ := onward_inbound hs he hfirst hflows
  have ht := hst.waiting call id false hother (keepsWaiting_inbound he ms call id false hother hwaits)
  rw [← hst.ending] at hlast
  cases hlast with
  | @cons _ rest _ _ _ hread _ =>
    have hadvance : t.advance? = some ({ t with input := rest }.dispatch m) := by
      rw [hst.listening.advance?, hread]
      rfl
    have hstep : Step t (.message m) ({ t with input := rest }.dispatch m) :=
      .message hst.listening.closed hst.listening.rejecting hread
    -- the call has been answered, and keeps its result
    have hanswered := at_step hstep hst.listening.numbered ht fun hstart => by cases hstart
    simp only [Phase.next, Phase.receive, incoming_of_answers hanswers, if_pos, Phase.deliver] at hanswered
    unfold apply
    rw [hst.settle, settle_of_some hadvance]
    exact results_settle _ ((hanswered.mem_results _).mpr rfl)

/-- A session that has got to the end of its input closes, and does nothing more. -/
theorem settle_of_ends {s : Session Call} (hs : s.Listening) {rest : List UInt8} (hends : s.Ends rest) :
    s.settle = { s with input := rest }.close ∧
      ∀ call id queued, s.At call (.waiting id queued) →
        s.settle.At call (Phase.deliver (.error .closed) (.waiting id queued)) := by
  have hadvance : s.advance? = some { s with input := rest }.close := by
    rw [hs.advance?]
    exact after_of_ends hends
  have hlast : ({ s with input := rest }.close).advance? = none := by
    rw [close_eq]
    exact advance?_of_closed rfl hs.idle
  have hstep : Step s .ended { s with input := rest }.close := .ended hs.closed hs.rejecting hends
  rw [settle_of_some hadvance, settle_of_none hlast]
  refine ⟨rfl, fun call id queued hwaits => ?_⟩
  exact at_step hstep hs.numbered hwaits fun hstart => by cases hstart

theorem apply_ended {s : Session Call} (hs : s.AtRest) {e : Event Call} (he : e.Inbound)
    {ms : List Json} {left rest : List UInt8}
    (htakes : Frame.Takes (s.occur e).ending (s.occur e).input ms left)
    (hends : { s.occur e with input := left }.Ends rest) (hflows : s.Flows ms) :
    (s.apply e).closed = true ∧ (s.apply e).pending = [] ∧
      ∀ call id queued, (∀ m ∈ ms, ¬Answers id m) → s.At call (.waiting id queued) →
        (s.apply e).At call (Phase.deliver (.error .closed) (.waiting id queued)) := by
  obtain ⟨t, hst, rfl⟩ := onward_inbound hs he htakes hflows
  obtain ⟨heq, hlater⟩ := settle_of_ends hst.listening (hends.congr hst.ending rfl)
  unfold apply
  rw [hst.settle]
  refine ⟨?_, ?_, fun call id queued hother hwaits => ?_⟩
  · rw [heq, close_eq]
  · rw [heq, close_eq]
  · exact hlater call id queued (hst.waiting call id queued hother
      (keepsWaiting_inbound he ms call id queued hother hwaits))

/-- In a session that is not closed, what arrives has its effect in the same step unless the reader waits
for a blocked writer to write its rejection; and a call whose own frame still waits for the writer learns of
the end only when this has been written. -/
theorem reading_side_exact (events : List (Event Call)) (hcalls : (events.filterMap Event.starts?).Nodup)
    (hopen : (events.foldl apply (new : Session Call)).closed = false) :
    ReadingSide (events.foldl apply (new : Session Call)) := by
  obtain ⟨h, hevents, hist⟩ := history_foldl_apply events
  have hfresh : (started h).Nodup := by
    rw [started_eq, hevents]
    exact hcalls
  have hs := atRest_of_history hist (advance?_foldl events) hopen
  refine ⟨?_, ?_⟩
  · -- a response after some messages
    intro e ms m left id call he htakes hmem hwritten hother hanswers
    refine ⟨apply_answered hist hfresh hs he htakes hmem hwritten hother hanswers, ?_⟩
    intro hstalled
    -- what stops the session stands before the response, which is then never read
    obtain ⟨between, hfirst, -⟩ := htakes.split
    obtain ⟨-, hwaiting⟩ := apply_of_stalled hs he hfirst hstalled
    exact not_result_of_waiting (hwaiting call id _ hother (at_of_pending hist hfresh hmem))
  · -- the end of the stream after some messages
    intro e ms left rest he htakes hends
    refine ⟨⟨fun hclosed => ?_, fun hflows => (apply_ended hs he htakes hends hflows).1⟩,
      fun hflows => (apply_ended hs he htakes hends hflows).2.1, fun id call hmem hother => ?_⟩
    · by_contra hstalled
      rw [(apply_of_stalled hs he htakes hstalled).1] at hclosed
      cases hclosed
    · have hwaits := at_of_pending hist hfresh hmem
      constructor
      · rintro ⟨hflows, hwritten⟩
        have hlater := (apply_ended hs he htakes hends hflows).2.2 call id _ hother hwaits
        rw [hwritten] at hlater
        exact (hlater.mem_results _).mpr rfl
      · intro hnot
        -- either the session stands before the end, or the frame of the call is still in the queue
        by_cases hflows : Flows (events.foldl apply new) ms
        · have hqueued : (events.foldl apply new).isQueued call = true := by
            rw [← Bool.not_eq_false]
            exact fun hwritten => hnot ⟨hflows, hwritten⟩
          have hlater := (apply_ended hs he htakes hends hflows).2.2 call id _ hother hwaits
          rw [hqueued] at hlater
          intro r hr
          cases (hlater.mem_results r).mp hr
        · exact not_result_of_waiting
            ((apply_of_stalled hs he htakes hflows).2 call id _ hother hwaits)

/-- The writer is blocked, but there is nothing to reject: the response ends its call. -/
theorem reading_side_exact_blocked :
    let events : List (Event Nat) := [.request 7 "a" .null, .block]
    let response := Message.response (.ofNat 1) (.ok .null)
    (events.filterMap Event.starts?).Nodup ∧ (events.foldl apply new).closed = false ∧
      (7, Message.outcome response) ∈
        ((events.foldl apply new).apply (.receive (Frame.bytes response))).results := by
  intro events response
  have hcalls : (events.filterMap Event.starts?).Nodup := by
    show [7].Nodup
    decide
  have hopen : (events.foldl apply new).closed = false := rfl
  have hfits : Frame.Fits response := by
    apply Message.fits_response_ok
    · decide
    · trivial
    · decide
    · rw [Message.response_ok_eq]
      decide
  have hread : Frame.read .unknown (Frame.bytes response) = .message response [] := by
    have := Frame.read_bytes hfits.regular hfits.depth hfits.size .unknown []
    rwa [List.append_nil] at this
  have htakes : Frame.Takes .unknown (Frame.bytes response) ([] ++ [response]) [] :=
    .cons hread (.nil [])
  have hside := (reading_side_exact events hcalls hopen).answered _ [] response [] 1 7
    (.receive (Frame.bytes response)) htakes List.mem_cons_self rfl (by simp) ⟨rfl, rfl⟩
  exact ⟨hcalls, hopen, hside.1 (.inr ⟨rfl, by simp⟩)⟩

/-- The writer is blocked, and there is something to reject: neither the response nor the end is found. And
a call whose own frame is not written does not learn that reading has ended. -/
theorem reader_held_back :
    let run := fun events : List (Event Nat) => events.foldl apply new
    let ping : Json := .object [("id", .ofNat 9), ("method", .string "ping")]
    let stalled : List (Event Nat) := [.request 7 "a" .null, .block, .receive (Frame.bytes ping)]
    let response := Message.response (.ofNat 1) (.ok .null)
    ((run stalled).pending = [(1, 7)] ∧ (run stalled).isQueued 7 = false) ∧
      (run (stalled ++ [.receive (Frame.bytes response)])).results = [] ∧
      ((run (stalled ++ [.endInput .closed])).closed = false ∧
        (run (stalled ++ [.endInput .closed])).results = []) ∧
      (run [.block, .request 7 "a" .null, .endInput .closed]).closed = true ∧
      (run [.block, .request 7 "a" .null, .endInput .closed]).results = [] :=
  ⟨⟨by rfl, by rfl⟩, by rfl, ⟨by rfl, by rfl⟩, by rfl, by rfl⟩

end Session

end Channel

end IndexFs

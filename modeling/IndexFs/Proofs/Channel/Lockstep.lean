import IndexFs.Proofs.Channel.Alike

/-!
# Sessions in lockstep

Two sessions that differ in other calls only, and have the same frames to write with the same writer, do
the same at every step, even if the writer fails (`inStep_foldl`). So a call gets the same result in both
of them.
-/

namespace IndexFs.Channel.Session

variable {Call : Type} [DecidableEq Call]

/-- Two sessions that are alike, and write the same from now on. -/
structure InStep (call : Call) (s t : Session Call) : Prop where
  alike : Alike call s t
  queue : t.queue = s.queue
  writer : t.writer = s.writer

/-! ## The writer -/

/-- The end of a write leaves the writer as it is. -/
theorem written_writer (s : Session Call) (origin : Origin Call) (r : Except ChannelError Unit) :
    (s.written origin r).writer = s.writer := by
  cases origin with
  | request id call =>
    cases r with
    | ok _ =>
      simp only [written, requestWritten]
      split <;> rfl
    | error e => rfl
  | _ => rfl

/-- An answer leaves the writer as it is. -/
theorem deliver_writer (s : Session Call) (call : Call) (r : Result) :
    (s.deliver call r).writer = s.writer := by
  unfold deliver
  split <;> rfl

/-- A message leaves the writer as it is. -/
theorem dispatch_writer (s : Session Call) (m : Json) : (s.dispatch m).writer = s.writer := by
  unfold dispatch
  split
  · split
    · rw [deliver_writer]
    · rfl
  · rfl
  · rfl

/-- What a message puts into the queue depends on the message alone. -/
theorem dispatch_queue {s t : Session Call} (h : t.queue = s.queue) (m : Json) :
    (t.dispatch m).queue = (s.dispatch m).queue := by
  have hresponse : ∀ (u : Session Call) n r, Incoming.of m = .response n r →
      (u.dispatch m).queue = u.queue := by
    intro u n r hm
    cases hcall : u.pendingCall? n with
    | none => simp only [dispatch, hm, hcall]
    | some c =>
      simp only [dispatch, hm, hcall]
      exact deliver_queue _ c r
  cases hm : Incoming.of m with
  | response n r => rw [hresponse t n r hm, hresponse s n r hm, h]
  | request id method =>
    simp only [dispatch, hm]
    rw [h]
  | other =>
    simp only [dispatch, hm]
    exact h

/-! ## Steps -/

/-- Both sessions write the same frame with the same writer, and so with the same end. -/
theorem inStep_wrote {call : Call} {s t : Session Call} (h : InStep call s t)
    (hblocked : s.blocked = false) {job : Job Call} {rest : List (Job Call)}
    (hqueue : s.queue = job :: rest) : InStep call (s.wrote job rest) (t.wrote job rest) := by
  have hqueue' : t.queue = job :: rest := h.queue.trans hqueue
  have hwriter : (t.popped job rest).writer = (s.popped job rest).writer := by
    unfold popped
    rw [h.writer]
  refine ⟨?_, ?_, ?_⟩
  · cases hjob : Origin.concerns call job.origin with
    | true =>
      have hpopped : Alike call (s.popped job rest) (t.popped job rest) :=
        alike_popped h.alike hqueue hqueue' rfl
      unfold wrote
      rw [h.writer]
      exact alike_written hpopped hjob _
    | false =>
      -- the frame is of another call, and each session writes it without touching this one
      have hblocked' : t.blocked = false := by
        obtain ⟨-, -, -, -, -, hsame⟩ := shared_eq_iff.mp h.alike.shared
        exact hsame.trans hblocked
      have hleft := alike_wrote_left h.alike hblocked hqueue hjob
      exact (alike_wrote_left hleft.symm hblocked' hqueue' hjob).symm
  · unfold wrote
    rw [(written_frame _ _ _).2.2.1, (written_frame _ _ _).2.2.1]
    rfl
  · unfold wrote
    rw [written_writer, written_writer, hwriter]

/-- Both sessions receive the same message. -/
theorem inStep_dispatch {call : Call} {s t : Session Call} (h : InStep call s t) (rest : List UInt8)
    (m : Json) :
    InStep call ({ s with input := rest }.dispatch m) ({ t with input := rest }.dispatch m) := by
  have hqueue : { t with input := rest }.queue = { s with input := rest }.queue := h.queue
  refine ⟨alike_dispatch (alike_input h.alike rest) m, dispatch_queue hqueue m, ?_⟩
  rw [dispatch_writer, dispatch_writer]
  exact h.writer

/-- Both sessions close. -/
theorem inStep_close {call : Call} {s t : Session Call} (h : InStep call s t) :
    InStep call s.close t.close := by
  refine ⟨alike_close h.alike, ?_, ?_⟩
  · rw [close_eq, close_eq]
    exact h.queue
  · rw [close_eq, close_eq]
    exact h.writer

/-- Both sessions do the same with what was read. -/
theorem inStep_after {call : Call} {s t : Session Call} (h : InStep call s t) (o : Frame.Outcome) :
    (s.after o = none ∧ t.after o = none) ∨
      ∃ s' t', s.after o = some s' ∧ t.after o = some t' ∧ InStep call s' t' := by
  have hinput : ∀ rest, InStep call { s with input := rest } { t with input := rest } := fun rest =>
    ⟨alike_input h.alike rest, h.queue, h.writer⟩
  cases o with
  | pending => exact .inl ⟨rfl, rfl⟩
  | message m rest => exact .inr ⟨_, _, rfl, rfl, inStep_dispatch h rest m⟩
  | fault e rest => exact .inr ⟨_, _, rfl, rfl, inStep_close (hinput rest)⟩
  | finished => exact .inr ⟨_, _, rfl, rfl, inStep_close (hinput [])⟩
  | failed m => exact .inr ⟨_, _, rfl, rfl, inStep_close h⟩

/-- Both sessions do the same next. -/
theorem inStep_advance? {call : Call} {s t : Session Call} (h : InStep call s t) :
    (s.advance? = none ∧ t.advance? = none) ∨
      ∃ s' t', s.advance? = some s' ∧ t.advance? = some t' ∧ InStep call s' t' := by
  obtain ⟨-, hclosed, hrejecting, hinput, hending, hblocked⟩ := shared_eq_iff.mp h.alike.shared
  have hread : (s.blocked = true ∨ s.queue = []) → (s.advance? = none ∧ t.advance? = none) ∨
      ∃ s' t', s.advance? = some s' ∧ t.advance? = some t' ∧ InStep call s' t' := by
    intro hidle
    rw [advance?_of_idle hidle, advance?_of_idle (by rwa [hblocked, h.queue]), readNext?_eq, readNext?_eq,
      hclosed, hrejecting, hinput, hending]
    split
    · exact .inl ⟨rfl, rfl⟩
    · exact inStep_after h _
  cases hb : s.blocked with
  | true => exact hread (.inl hb)
  | false =>
    cases hqueue : s.queue with
    | nil => exact hread (.inr hqueue)
    | cons job rest =>
      have hs := advance?_of_queue hb hqueue
      have ht := advance?_of_queue (hblocked.trans hb) (h.queue.trans hqueue)
      exact .inr ⟨_, _, hs, ht, inStep_wrote h hb hqueue⟩

/-- Both sessions come to rest in step. -/
theorem inStep_settle {call : Call} {s t : Session Call} (h : InStep call s t) :
    InStep call s.settle t.settle := by
  induction s using settle_induction generalizing t with
  | hnone s hs =>
    rcases inStep_advance? h with ⟨-, ht⟩ | ⟨s', t', hs', -, -⟩
    · rw [settle_of_none hs, settle_of_none ht]
      exact h
    · rw [hs] at hs'
      cases hs'
  | hsome s s' hs ih =>
    rcases inStep_advance? h with ⟨hs', -⟩ | ⟨u, t', hs', ht, h'⟩
    · rw [hs] at hs'
      cases hs'
    · rw [hs] at hs'
      cases hs'
      rw [settle_of_some hs, settle_of_some ht]
      exact ih h'

/-! ## Events -/

/-- The same event happens to both sessions. -/
theorem inStep_occur {call : Call} {s t : Session Call} (h : InStep call s t) (e : Event Call) :
    InStep call (s.occur e) (t.occur e) := by
  -- what decides about an event is the same in both sessions
  obtain ⟨hid, hclosed, -, -, hending, -⟩ := shared_eq_iff.mp h.alike.shared
  have halike := alike_occur h.alike e
  cases e with
  | request c method params =>
    refine ⟨halike, ?_, ?_⟩
    · simp only [occur, request, hclosed, hid]
      split
      · exact h.queue
      · exact congrArg (· ++ _) h.queue
    · simp only [occur, request, hclosed]
      split <;> exact h.writer
  | notify c method params =>
    refine ⟨halike, ?_, ?_⟩
    · -- the new frame goes behind queues that are the same
      simp only [occur, notify, hclosed]
      split
      · exact h.queue
      · exact congrArg (· ++ _) h.queue
    · simp only [occur, notify, hclosed]
      split <;> exact h.writer
  | cancel c => exact ⟨halike, congrArg (List.filter _) h.queue, h.writer⟩
  | receive bytes =>
    refine ⟨halike, ?_, ?_⟩
    · simp only [occur, receive, hending]
      split <;> exact h.queue
    · simp only [occur, receive, hending]
      split <;> exact h.writer
  | endInput ending =>
    refine ⟨halike, ?_, ?_⟩
    · simp only [occur, endInput, hending]
      split <;> exact h.queue
    · simp only [occur, endInput, hending]
      split <;> exact h.writer
  | breakWriter after message => exact ⟨halike, h.queue, rfl⟩
  | block => exact ⟨halike, h.queue, h.writer⟩
  | unblock => exact ⟨halike, h.queue, h.writer⟩

/-- Whatever happens to both sessions from now on. -/
theorem inStep_foldl {call : Call} {s t : Session Call} (h : InStep call s t)
    (events : List (Event Call)) : InStep call (events.foldl apply s) (events.foldl apply t) := by
  induction events generalizing s t with
  | nil => exact h
  | cons e events ih => exact ih (inStep_settle (inStep_occur h e))

/-! ## What makes no difference -/

/-- A call whose frame has been written can be cancelled. -/
theorem inStep_cancel {call c : Call} (hc : c ≠ call) {s : Session Call} (hs : s.Numbered)
    (hqueued : s.isQueued c = false) : InStep call s (s.cancel c) := by
  refine ⟨alike_cancel hc hs, ?_, rfl⟩
  show s.queue.filter _ = s.queue
  rw [List.filter_eq_self]
  intro job hjob
  have hother := List.any_eq_false.mp hqueued job hjob
  rw [Bool.not_eq_true] at hother
  rw [hother]
  rfl

/-- A frame of another call was written, or failed to be. -/
theorem inStep_written {call : Call} {s : Session Call} (hs : s.Numbered) {job : Job Call}
    {rest : List (Job Call)} (hqueue : s.queue = job :: rest) {id : Nat} {c : Call}
    (hjob : job.origin = .request id c) (hc : c ≠ call) (r r' : Except ChannelError Unit) :
    InStep call ((s.popped job rest).written job.origin r) ((s.popped job rest).written job.origin r') := by
  have hpopped := numbered_popped hs hqueue
  have horigin : Origin.belongsTo call job.origin = false := by
    rw [hjob]
    exact decide_eq_false hc
  -- the call itself is not pending under the id of the frame
  have howner : ∀ n d, job.origin = .request n d → (n, call) ∉ (s.popped job rest).pending := by
    intro n d hd hmem
    rw [hjob] at hd
    cases hd
    exact hc (hs.owner id call c hmem (by simp [hqueue, hjob]))
  have hrejection : job.origin ≠ .rejection := by
    rw [hjob]
    intro h
    cases h
  have hqueues : ((s.popped job rest).written job.origin r').queue =
      ((s.popped job rest).written job.origin r).queue := by
    rw [(written_frame _ _ _).2.2.1, (written_frame _ _ _).2.2.1]
  -- the two ends differ in what the other call gets, and in nothing else
  refine ⟨⟨numbered_written hpopped _ _, numbered_written hpopped _ _, ?_, ?_, ?_⟩, hqueues, ?_⟩
  · rw [written_shared _ hrejection, written_shared _ hrejection]
  · exact (written_other horigin howner r).symm.trans (written_other horigin howner r')
  · unfold concerned
    rw [hqueues]
  · rw [written_writer, written_writer]

end IndexFs.Channel.Session

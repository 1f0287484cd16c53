import IndexFs.Proofs.Channel.Pieces

/-!
# Writers that take everything at once

With a writer that is neither blocked nor broken, a session at rest has nothing left to write. Whatever it
was asked for has been written, in this order (`resting_apply`): a call that is cancelled has got its frame
through before, and the reader waits for nothing.
-/

namespace IndexFs.Channel

variable {Call : Type}

/-- Whether an event leaves the writer alone. -/
def Event.sparesWriter : Event Call → Bool
  | .breakWriter .. => false
  | .block => false
  | _ => true

theorem Event.breaks_of_sparesWriter {e : Event Call} (h : e.sparesWriter = true) : e.breaks = false := by
  cases e with
  | breakWriter => cases h
  | _ => rfl

/-- The bytes of frames, one after the other. -/
def wireBytes (jobs : List (Job Call)) : List UInt8 :=
  jobs.flatMap (·.frame)

theorem wireBytes_append (jobs jobs' : List (Job Call)) :
    wireBytes (jobs ++ jobs') = wireBytes jobs ++ wireBytes jobs' :=
  List.flatMap_append

/-- A message that is not rejected asks for no frame. -/
theorem Mark.rejection?_of_not_rejected {m : Json} (hm : ¬Rejected m) :
    (Mark.message m : Mark Call).rejection? = none := by
  cases hincoming : Incoming.of m with
  | request id method => exact absurd ⟨id, method, hincoming⟩ hm
  | response n r => simp only [Mark.rejection?, hincoming]
  | other => simp only [Mark.rejection?, hincoming]

namespace Session

variable [DecidableEq Call]

/-- A writer that takes everything, and need not wait. -/
structure Flowing (s : Session Call) : Prop where
  blocked : s.blocked = false
  writer : s.writer = .unlimited

/-! ## Conservation -/

/-- Events put what they ask for into the queue. A call that is cancelled takes its frame away, unless the
queue is empty. -/
theorem occur_conserved {s : Session Call} {e : Event Call} (hwriter : e.sparesWriter = true)
    (hcancel : ∀ call, e = .cancel call → s.queue = []) :
    (s.occur e).queue = s.queue ++ ((Mark.event e).job? s.nextId s.closed).toList := by
  cases e with
  | request call method params =>
    simp only [occur, request, Mark.job?, Job.ofRequest_eq]
    split
    · exact (List.append_nil s.queue).symm
    · rfl
  | notify call method params =>
    simp only [occur, notify, Mark.job?, Job.ofNotification_eq]
    split
    · exact (List.append_nil s.queue).symm
    · rfl
  | cancel call =>
    show s.queue.filter _ = s.queue ++ []
    rw [hcancel call rfl]
    rfl
  | receive bytes =>
    -- what arrives is read later
    obtain ⟨input, ending, heq⟩ := occur_inbound (.receive bytes) s
    rw [heq]
    exact (List.append_nil s.queue).symm
  | endInput ending =>
    obtain ⟨input, ending, heq⟩ := occur_inbound (.endInput ending) s
    rw [heq]
    exact (List.append_nil s.queue).symm
  | breakWriter => cases hwriter
  | block => cases hwriter
  | unblock => exact (List.append_nil s.queue).symm

theorem occur_flowing {s : Session Call} (hs : s.Flowing) {e : Event Call}
    (hwriter : e.sparesWriter = true) : (s.occur e).Flowing := by
  refine ⟨?_, (occur_writer s (Event.breaks_of_sparesWriter hwriter)).2.trans hs.writer⟩
  cases e with
  | request call method params =>
    simp only [occur, request]
    split <;> exact hs.blocked
  | notify call method params =>
    simp only [occur, notify]
    split <;> exact hs.blocked
  | receive bytes =>
    obtain ⟨input, ending, heq⟩ := occur_inbound (.receive bytes) s
    rw [heq]
    exact hs.blocked
  | endInput ending =>
    obtain ⟨input, ending, heq⟩ := occur_inbound (.endInput ending) s
    rw [heq]
    exact hs.blocked
  | block => cases hwriter
  | unblock => rfl
  | _ => exact hs.blocked

/-- What was written, followed by what is about to be, grows by what a step asks for. -/
theorem step_conserved {s t : Session Call} {m : Mark Call} (hs : s.Flowing) (hstep : Step s m t)
    (hm : m.event? = none) :
    t.Flowing ∧ t.output ++ wireBytes t.queue =
      s.output ++ wireBytes (s.queue ++ (m.job? s.nextId s.closed).toList) := by
  cases hstep with
  | event e => cases hm
  | @write job rest hblocked hqueue =>
    obtain ⟨hrest, houtput, hwriter⟩ := wrote_wire s job rest
    have hblocked' : (s.wrote job rest).blocked = false := (written_outside _ _ _).2.trans hblocked
    rw [hs.writer] at houtput hwriter
    refine ⟨⟨hblocked', hwriter⟩, ?_⟩
    -- the frame leaves the queue for the end of the output
    have hpopped : wireBytes s.queue = job.frame ++ wireBytes rest := by
      rw [hqueue]
      rfl
    have htaken : (Frame.Writer.unlimited.write job.frame).1 = job.frame := rfl
    rw [hrest, houtput, htaken, List.append_assoc, ← hpopped]
    exact congrArg _ (congrArg wireBytes (List.append_nil s.queue).symm)
  | @message m rest hclosed hrejecting hread =>
    have hflowing : ({ s with input := rest }.dispatch m).Flowing :=
      ⟨(dispatch_outside _ _).2.trans hs.blocked, (dispatch_writer _ _).trans hs.writer⟩
    refine ⟨hflowing, ?_⟩
    rw [dispatch_output]
    by_cases hrejected : Rejected m
    · obtain ⟨id, method, hincoming⟩ := hrejected
      rw [dispatch_of_request hincoming]
      simp only [Mark.job?, Mark.rejection?, hincoming, Job.ofRejection_eq]
      rfl
    · rw [(dispatch_of_not_rejected hrejected _).2]
      simp only [Mark.job?, Mark.rejection?_of_not_rejected hrejected]
      exact congrArg _ (congrArg wireBytes (List.append_nil s.queue).symm)
  | ended =>
    rw [close_eq]
    refine ⟨⟨hs.blocked, hs.writer⟩, ?_⟩
    exact congrArg _ (congrArg wireBytes (List.append_nil s.queue).symm)

/-! ## Coming to rest -/

/-- A session with a history, a writer that takes everything, and nothing left to do. -/
structure Resting (h : List (Mark Call)) (s : Session Call) : Prop where
  history : History h s
  flowing : s.Flowing
  rest : s.advance? = none

namespace Resting

variable {h : List (Mark Call)} {s : Session Call}

theorem queue (hs : Resting h s) : s.queue = [] := by
  have hidle := idle_of_rest hs.rest
  rw [hs.flowing.blocked] at hidle
  exact hidle.resolve_left Bool.false_ne_true

theorem rejecting (hs : Resting h s) : s.rejecting = false := by
  rw [← Bool.not_eq_true]
  intro hrejecting
  have hmem := rejection_queued hs.history hrejecting
  rw [hs.queue] at hmem
  cases hmem

theorem new : Resting [] (Session.new : Session Call) :=
  ⟨.new, ⟨rfl, rfl⟩, rfl⟩

end Resting

/-- On the way to rest, everything that is asked for is written, and so is what waits. -/
theorem resting_settle {h : List (Mark Call)} {s : Session Call} (hist : History h s) (hs : s.Flowing) :
    ∃ ms js, ms.filterMap Mark.event? = [] ∧ Resting (h ++ ms) s.settle ∧ jobs (h ++ ms) = jobs h ++ js ∧
      s.settle.output = s.output ++ wireBytes (s.queue ++ js) := by
  -- the history grows with each step of the session, so it cannot be fixed
  induction s using settle_induction generalizing h with
  | hnone s hnone =>
    rw [settle_of_none hnone]
    have hrest : Resting h s := ⟨hist, hs, hnone⟩
    refine ⟨[], [], rfl, by rwa [List.append_nil], ?_, ?_⟩
    · rw [List.append_nil, List.append_nil]
    · rw [hrest.queue]
      exact (List.append_nil s.output).symm
  | hsome s t hadvance ih =>
    obtain ⟨m, hm, hstep⟩ := step_of_advance? hadvance
    obtain ⟨hflowing, hconserved⟩ := step_conserved hs hstep hm
    obtain ⟨ms, js, hms, hrest, hjobs, houtput⟩ := ih (hist.step hstep) hflowing
    rw [settle_of_some hadvance]
    refine ⟨m :: ms, (m.job? s.nextId s.closed).toList ++ js, ?_, ?_, ?_, ?_⟩
    · rw [List.filterMap_cons_none hm, hms]
    · rwa [List.append_cons]
    · rw [List.append_cons, hjobs, jobs_concat hist, List.append_assoc]
    · rw [houtput, wireBytes_append, ← List.append_assoc, hconserved, ← List.append_assoc s.queue,
        wireBytes_append (s.queue ++ _), ← List.append_assoc]

/-- A session at rest that is left alone after an event writes what it is asked for, and nothing else. -/
theorem resting_apply {h : List (Mark Call)} {s : Session Call} (hs : Resting h s) {e : Event Call}
    (hwriter : e.sparesWriter = true) :
    ∃ ms js, ms.filterMap Mark.event? = [e] ∧ Resting (h ++ ms) (s.apply e) ∧
      jobs (h ++ ms) = jobs h ++ js ∧ (s.apply e).output = s.output ++ wireBytes js := by
  have hqueue := occur_conserved hwriter fun _ _ => hs.queue
  have hoccur : (s.occur e).output = s.output :=
    (occur_writer s (Event.breaks_of_sparesWriter hwriter)).1
  obtain ⟨ms, js, hms, hrest, hjobs, houtput⟩ :=
    resting_settle (hs.history.step (.event s e)) (occur_flowing hs.flowing hwriter)
  refine ⟨.event e :: ms, ((Mark.event e).job? s.nextId s.closed).toList ++ js, ?_, ?_, ?_, ?_⟩
  · rw [List.filterMap_cons, hms]
    rfl
  · rwa [List.append_cons]
  · rw [List.append_cons, hjobs, jobs_concat hs.history, List.append_assoc]
  · rw [apply, houtput, hoccur, hqueue, hs.queue, List.nil_append]

end Session

end IndexFs.Channel

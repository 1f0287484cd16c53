import IndexFs.Proofs.Channel.Others

/-!
# Phases

Seen from one call, a session is in one of a few phases, and whatever happens moves it from one phase to
the next (`Phase.next`). `At` says that the lists of a session hold of the call just what its phase says,
each thing at most once, and every step keeps it (`at_step`).
-/

namespace IndexFs.Channel

variable {Call : Type} [DecidableEq Call]

/-- How far a call has come. -/
inductive Phase where
  | absent
  /-- Its request has this id and waits for the response, and perhaps its frame waits for its turn. -/
  | waiting (id : Nat) (queued : Bool)
  /-- The result of its request is known, and its frame still waits for its turn. -/
  | answered (id : Nat) (r : Result)
  | notifying
  | finished (r : Result)
  | cancelled

namespace Phase

/-- The id under which the call is pending. -/
def pending? : Phase → Option Nat
  | .waiting id _ => some id
  | _ => none

/-- Whose frame waits for its turn. -/
def origin? (call : Call) : Phase → Option (Origin Call)
  | .waiting id true => some (.request id call)
  | .answered id _ => some (.request id call)
  | .notifying => some (.notification call)
  | _ => none

/-- The answer that waits for the frame of the call. -/
def answer? : Phase → Option Result
  | .answered _ r => some r
  | _ => none

/-- What the call has ended with. -/
def result? : Phase → Option Result
  | .finished r => some r
  | _ => none

/-- A result arrives: it is kept until the frame is written, or ends the call. -/
def deliver (r : Result) : Phase → Phase
  | .waiting id true => .answered id r
  | .waiting _ false => .finished r
  | p => p

/-- The frame of the call was written or was not, and a failure ends the call. -/
def written : Phase → Except ChannelError Unit → Phase
  | .waiting id true, .ok () => .waiting id false
  | .waiting _ true, .error e => .finished (.error e)
  | .answered _ r, .ok () => .finished r
  | .answered _ _, .error e => .finished (.error e)
  | .notifying, r => .finished (r.map fun _ => .null)
  | p, _ => p

/-- A message arrives, which matters only if it is the response to the call. -/
def receive (m : Json) : Phase → Phase
  | .waiting id queued =>
    match Incoming.of m with
    | .response n r => if n = id then deliver r (.waiting id queued) else .waiting id queued
    | _ => .waiting id queued
  | p => p

/-- The call is given up, which changes nothing before it starts and after it has ended. -/
def cancel : Phase → Phase
  | .absent => .absent
  | .finished r => .finished r
  | _ => .cancelled

/-- What becomes of a call; `id` is the next id, and `closed` whether the session is closed. -/
def next (call : Call) (id : Nat) (closed : Bool) (p : Phase) : Mark Call → Phase
  | .event (.request c _ _) =>
    if c = call then if closed then .finished (.error .closed) else .waiting id true else p
  | .event (.notify c _ _) =>
    if c = call then if closed then .finished (.error .closed) else .notifying else p
  | .event (.cancel c) => if c = call then p.cancel else p
  | .event _ => p
  | .write origin r => if Session.Origin.belongsTo call origin then p.written r else p
  | .message m => p.receive m
  | .ended => p.deliver (.error .closed)

end Phase

namespace Session

/-- The frame that a phase has in the queue is one of the call's own. -/
theorem belongsTo_origin? {p : Phase} {call : Call} {origin : Origin Call}
    (h : p.origin? call = some origin) (c : Call) :
    Origin.belongsTo c origin = decide (call = c) := by
  cases p with
  | waiting id queued =>
    cases queued with
    | true =>
      cases h
      rfl
    | false => cases h
  | answered id r =>
    cases h
    rfl
  | notifying =>
    cases h
    rfl
  | _ => cases h

/-- What the lists of a session hold of a call. -/
structure At (s : Session Call) (call : Call) (p : Phase) : Prop where
  pending : (s.pending.filter fun e => e.2 = call) = p.pending?.toList.map fun id => (id, call)
  queue : ((s.queue.map (·.origin)).filter (Origin.belongsTo call)) = (p.origin? call).toList
  answered : (s.answered.filter fun e => e.1 = call) = p.answer?.toList.map fun r => (call, r)
  results : (s.results.filter fun e => e.1 = call) = p.result?.toList.map fun r => (call, r)

namespace At

/-- The phase knows under which id the call is pending. -/
theorem mem_pending {s : Session Call} {call : Call} {p : Phase} (hs : s.At call p) (id : Nat) :
    (id, call) ∈ s.pending ↔ p.pending? = some id := by
  rw [mem_iff_mem_filter (p := fun e => e.2 = call) (decide_eq_true rfl), hs.pending]
  simp

/-- The phase knows what the call has ended with. -/
theorem mem_results {s : Session Call} {call : Call} {p : Phase} (hs : s.At call p) (r : Result) :
    (call, r) ∈ s.results ↔ p.result? = some r := by
  rw [mem_iff_mem_filter (p := fun e => e.1 = call) (decide_eq_true rfl), hs.results]
  simp

/-- The phase knows the answer that waits for the frame of the call. -/
theorem mem_answered {s : Session Call} {call : Call} {p : Phase} (hs : s.At call p) (r : Result) :
    (call, r) ∈ s.answered ↔ p.answer? = some r := by
  rw [mem_iff_mem_filter (p := fun e => e.1 = call) (decide_eq_true rfl), hs.answered]
  simp

/-- The phase knows which frame of the call is in the queue. -/
theorem mem_queue {s : Session Call} {call : Call} {p : Phase} (hs : s.At call p)
    {origin : Origin Call} (hcall : Origin.belongsTo call origin) :
    origin ∈ s.queue.map (·.origin) ↔ p.origin? call = some origin := by
  rw [mem_iff_mem_filter hcall, hs.queue]
  simp

/-- A call has a frame in the queue if and only if its phase has one. -/
theorem isQueued {s : Session Call} {call : Call} {p : Phase} (hs : s.At call p) :
    s.isQueued call = (p.origin? call).isSome := by
  have : s.isQueued call =
      ((s.queue.map (·.origin)).filter (Origin.belongsTo call)).any fun _ => true := by
    simp [Session.isQueued, List.any_filter, List.any_map, Function.comp_def]
  rw [this, hs.queue]
  cases p.origin? call <;> rfl

/-- A new session holds nothing of any call. -/
theorem new (call : Call) : (Session.new : Session Call).At call .absent :=
  ⟨rfl, rfl, rfl, rfl⟩

/-- What leaves a call and its frame as they are leaves it in its phase. -/
theorem of_sameFor {s t : Session Call} {call : Call} {p : Phase} (hs : s.At call p)
    (hsame : SameFor call s t)
    (hqueue : (t.queue.map (·.origin)).filter (Origin.belongsTo call) =
      (s.queue.map (·.origin)).filter (Origin.belongsTo call)) : t.At call p :=
  ⟨hsame.pending.trans hs.pending, hqueue.trans hs.queue, hsame.answered.trans hs.answered,
    hsame.results.trans hs.results⟩

end At

/-! ## Events -/

/-- A call that the lists hold nothing of has ended as soon as it gets a result. -/
theorem at_finish {s : Session Call} {call : Call} (hs : s.At call .absent) (r : Result) :
    (s.finish call r).At call (.finished r) := by
  refine ⟨hs.pending, hs.queue, hs.answered, ?_⟩
  show (s.results ++ [(call, r)]).filter _ = _
  rw [List.filter_append, hs.results]
  simp [Phase.result?]

/-- A frame of somebody else at the end of the queue is none of the call's. -/
theorem filter_enqueue {call : Call} (queue : List (Job Call)) {job : Job Call}
    (hjob : Origin.belongsTo call job.origin = false) :
    ((queue ++ [job]).map (·.origin)).filter (Origin.belongsTo call) =
      (queue.map (·.origin)).filter (Origin.belongsTo call) := by
  rw [List.map_append, List.filter_append]
  simp [hjob]

/-- A call waits for its response from its start on, unless the session is closed. -/
theorem at_request {s : Session Call} {call : Call} {p : Phase} (hs : s.At call p) (c : Call)
    (method : String) (params : Json) (hfresh : c = call → p = .absent) :
    (s.request c method params).At call
      (p.next call s.nextId s.closed (.event (.request c method params))) := by
  by_cases hc : c = call
  · subst hc
    -- the call is new, so that the lists hold nothing of it yet
    cases hfresh rfl
    simp only [request, Phase.next, if_pos]
    split
    · refine at_finish ?_ _
      exact ⟨hs.pending, hs.queue, hs.answered, hs.results⟩
    · refine ⟨?_, ?_, hs.answered, hs.results⟩
      · rw [List.filter_append, hs.pending]
        simp [Phase.pending?]
      · rw [List.map_append, List.filter_append, hs.queue]
        simp [Phase.origin?, Origin.belongsTo]
  · -- the request of another call adds an entry and a frame of its own
    simp only [Phase.next, if_neg hc]
    refine hs.of_sameFor (request_other hc s method params) ?_
    simp only [request]
    split
    · rfl
    · exact filter_enqueue s.queue (decide_eq_false hc)

/-- A notification waits for its turn from its start on, unless the session is closed. -/
theorem at_notify {s : Session Call} {call : Call} {p : Phase} (hs : s.At call p) (c : Call)
    (method : String) (params : Json) (hfresh : c = call → p = .absent) :
    (s.notify c method params).At call
      (p.next call s.nextId s.closed (.event (.notify c method params))) := by
  by_cases hc : c = call
  · subst hc
    cases hfresh rfl
    simp only [notify, Phase.next, if_pos]
    split
    · exact at_finish hs _
    · refine ⟨hs.pending, ?_, hs.answered, hs.results⟩
      rw [List.map_append, List.filter_append, hs.queue]
      simp [Phase.origin?, Origin.belongsTo]
  · simp only [Phase.next, if_neg hc]
    refine hs.of_sameFor (notify_other hc s method params) ?_
    unfold notify
    split
    · rfl
    · exact filter_enqueue s.queue (decide_eq_false hc)

/-- A call that is cancelled leaves no trace but its result, if it has one. -/
theorem at_cancel {s : Session Call} {call : Call} {p : Phase} (hs : s.At call p) (c : Call) :
    (s.cancel c).At call (p.next call s.nextId s.closed (.event (.cancel c))) := by
  by_cases hc : c = call
  · subst hc
    simp only [Phase.next, if_pos]
    -- everything of the call goes but its result
    refine ⟨?_, ?_, ?_, ?_⟩
    · show (s.pending.filter fun e => e.2 ≠ c).filter _ = _
      rw [List.filter_filter]
      cases p <;> simp [Phase.cancel, Phase.pending?]
    · rw [map_cancel_queue, List.filter_filter]
      cases p <;> simp [Phase.cancel, Phase.origin?]
    · show (s.answered.filter fun e => e.1 ≠ c).filter _ = _
      rw [List.filter_filter]
      cases p <;> simp [Phase.cancel, Phase.answer?]
    · show s.results.filter _ = _
      rw [hs.results]
      cases p <;> rfl
  · simp only [Phase.next, if_neg hc]
    refine hs.of_sameFor (cancel_other hc s) ?_
    rw [map_cancel_queue, List.filter_comm, hs.queue, List.filter_eq_self]
    intro o ho
    rw [belongsTo_origin? (Option.mem_toList.mp ho) c]
    simpa using Ne.symm hc

/-! ## Writing -/

/-- The frame of a call is no longer in the queue, but what becomes of the call is not noted yet: the lists
hold of it what its phase says, apart from the queue. -/
theorem at_written_own {s : Session Call} {call : Call} {p : Phase} {origin : Origin Call}
    (horigin : p.origin? call = some origin)
    (hpending : (s.pending.filter fun e => e.2 = call) = p.pending?.toList.map fun id => (id, call))
    (hqueue : ((s.queue.map (·.origin)).filter (Origin.belongsTo call)) = [])
    (hanswered : (s.answered.filter fun e => e.1 = call) = p.answer?.toList.map fun r => (call, r))
    (hresults : (s.results.filter fun e => e.1 = call) = p.result?.toList.map fun r => (call, r))
    (r : Except ChannelError Unit) : (s.written origin r).At call (p.written r) := by
  have hlookup : s.answered.lookup call = p.answer? := by
    rw [lookup_eq, hanswered]
    cases p.answer? <;> rfl
  have hdropped : (s.answered.filter fun a => a.1 ≠ call).filter (fun e => e.1 = call) = [] := by
    simp
  cases p with
  -- the frame may come before the response or after it
  | waiting id queued =>
    cases queued with
    | false => cases horigin
    | true =>
      cases horigin
      cases r with
      | ok _ =>
        simp only [written, requestWritten, hlookup]
        exact ⟨hpending, hqueue, hanswered, hresults⟩
      | error e =>
        refine at_finish ?_ _
        refine ⟨?_, hqueue, hdropped, hresults⟩
        show (s.pending.filter fun p => p.1 ≠ id).filter _ = _
        rw [List.filter_comm, hpending]
        simp [Phase.pending?]
  | answered id a =>
    -- the response came first, and waited for the frame to be written
    cases horigin
    cases r with
    | ok _ =>
      simp only [written, requestWritten, hlookup]
      refine at_finish ?_ _
      exact ⟨hpending, hqueue, hdropped, hresults⟩
    | error e =>
      refine at_finish ?_ _
      refine ⟨?_, hqueue, hdropped, hresults⟩
      show (s.pending.filter fun p => p.1 ≠ id).filter _ = _
      rw [List.filter_comm, hpending]
      rfl
  | notifying =>
    cases horigin
    exact at_finish ⟨hpending, hqueue, hanswered, hresults⟩ _
  | _ => cases horigin

/-- What is written is the first frame of the queue: that of the call, if it has one there, or another. -/
theorem at_wrote {s : Session Call} {call : Call} {p : Phase} (hnum : s.Numbered) (hs : s.At call p)
    {job : Job Call} {rest : List (Job Call)} (hqueue : s.queue = job :: rest) :
    (s.wrote job rest).At call
      (p.next call s.nextId s.closed (.write job.origin (s.writer.write job.frame).2.1)) := by
  have horigins := hs.queue
  rw [hqueue, List.map_cons] at horigins
  simp only [Phase.next]
  by_cases hjob : Origin.belongsTo call job.origin = true
  · -- the phase has at most one frame in the queue, which is then this one
    rw [List.filter_cons_of_pos hjob] at horigins
    rw [if_pos hjob]
    cases hp : p.origin? call with
    | none =>
      rw [hp] at horigins
      cases horigins
    | some origin =>
      rw [hp] at horigins
      injection horigins with horigin hrest
      rw [← horigin] at hp
      unfold wrote
      refine at_written_own hp ?_ ?_ ?_ ?_ _
      · exact hs.pending
      · exact hrest
      · exact hs.answered
      · exact hs.results
  · rw [List.filter_cons_of_neg hjob] at horigins
    rw [if_neg hjob]
    unfold wrote
    have hpopped : (s.popped job rest).At call p :=
      ⟨hs.pending, horigins, hs.answered, hs.results⟩
    refine hpopped.of_sameFor (written_other (Bool.not_eq_true _ ▸ hjob) ?_ _) ?_
    · -- a frame under the id of the call would be its own
      intro id c hid hmem
      have hc : c = call := hnum.owner id call c hmem (by simp [hqueue, hid])
      rw [hid, hc] at hjob
      simp [Origin.belongsTo] at hjob
    · rw [(written_frame _ _ _).2.2.1]

/-! ## Reading -/

/-- A call that waits gets its result; its entry has been taken out of those that wait. -/
theorem at_deliver_own {s : Session Call} {call : Call} {id : Nat} {queued : Bool}
    (hs : s.At call (.waiting id queued)) {ps : List (Nat × Call)}
    (hps : (ps.filter fun e => e.2 = call) = []) (r : Result) :
    ({ s with pending := ps }.deliver call r).At call (.deliver r (.waiting id queued)) := by
  have hqueued : { s with pending := ps }.isQueued call = queued := by
    refine hs.isQueued.trans ?_
    cases queued <;> rfl
  cases queued with
  | true =>
    simp only [deliver, hqueued, if_true]
    refine ⟨hps, hs.queue, ?_, hs.results⟩
    show (s.answered ++ [(call, r)]).filter _ = _
    rw [List.filter_append, hs.answered]
    simp [Phase.answer?, Phase.deliver]
  | false =>
    simp only [deliver, hqueued, Bool.false_eq_true, if_false]
    refine at_finish ?_ r
    exact ⟨hps, hs.queue, hs.answered, hs.results⟩

/-- A message that is not the response to the call changes nothing. -/
theorem receive_eq_self {p : Phase} {m : Json}
    (h : ∀ id r, p.pending? = some id → Incoming.of m ≠ .response id r) : p.receive m = p := by
  cases p with
  | waiting id queued =>
    simp only [Phase.receive]
    split
    · next n r hm =>
      have : n ≠ id := fun hn => h id r rfl (hn ▸ hm)
      rw [if_neg this]
    · rfl
  | _ => rfl

/-- A message moves the one call that it answers. -/
theorem at_dispatch {s : Session Call} {call : Call} {p : Phase} (hnum : s.Numbered) (hs : s.At call p)
    (m : Json) : (s.dispatch m).At call (p.receive m) := by
  -- either the message is the response to this call, or it leaves the call as it is
  by_cases hmine : ∃ id r, (id, call) ∈ s.pending ∧ Incoming.of m = .response id r
  · obtain ⟨id, r, hmem, hm⟩ := hmine
    have hid := (hs.mem_pending id).mp hmem
    have hpending : (s.pending.filter fun p => (p.1 : Int) ≠ id).filter (fun e => e.2 = call) = [] := by
      rw [List.filter_comm, hs.pending, hid]
      simp
    cases p with
    | waiting id' queued =>
      cases hid
      simp only [dispatch, Phase.receive, hm, pendingCall?_eq_some hnum hmem, if_pos]
      exact at_deliver_own hs hpending r
    | _ => cases hid
  · have hother : ∀ id r, (id, call) ∈ s.pending → Incoming.of m ≠ .response id r :=
      fun id r hmem hm => hmine ⟨id, r, hmem, hm⟩
    rw [receive_eq_self fun id r hid => hother id r ((hs.mem_pending id).mpr hid)]
    refine hs.of_sameFor (dispatch_other hnum hother) ?_
    unfold dispatch
    split
    · split
      · rw [deliver_queue]
      · rfl
    · exact filter_enqueue s.queue rfl
    · rfl

/-- Closing moves the calls that wait, and no other. -/
theorem at_close {s : Session Call} {call : Call} {p : Phase} (hs : s.At call p) :
    s.close.At call (p.deliver (.error .closed)) := by
  rw [close_eq]
  refine ⟨?_, ?_, ?_, ?_⟩
  · cases p with
    | waiting id queued => cases queued <;> rfl
    | _ => rfl
  · rw [hs.queue]
    cases p with
    | waiting id queued => cases queued <;> rfl
    | _ => rfl
  · rw [List.filter_append, filter_closed, hs.answered, hs.pending, hs.isQueued]
    cases p with
    | waiting id queued => cases queued <;> rfl
    | _ => rfl
  · rw [List.filter_append, filter_closed _ _ fun c => !s.isQueued c, hs.results, hs.pending, hs.isQueued]
    cases p with
    | waiting id queued => cases queued <;> rfl
    | _ => rfl

/-- Whatever happens, the lists hold of a call what its next phase says. -/
theorem at_step {s t : Session Call} {m : Mark Call} (hstep : Step s m t) (hnum : s.Numbered)
    {call : Call} {p : Phase} (hs : s.At call p) (hfresh : m.starts? = some call → p = .absent) :
    t.At call (p.next call s.nextId s.closed m) := by
  cases hstep with
  | event e =>
    cases e with
    | request c method params => exact at_request hs c method params fun hc => hfresh (congrArg some hc)
    | notify c method params => exact at_notify hs c method params fun hc => hfresh (congrArg some hc)
    | cancel c => exact at_cancel hs c
    | receive bytes =>
      simp only [occur, receive]
      split <;> exact ⟨hs.pending, hs.queue, hs.answered, hs.results⟩
    | endInput ending =>
      simp only [occur, endInput]
      split <;> exact ⟨hs.pending, hs.queue, hs.answered, hs.results⟩
    | breakWriter after message => exact ⟨hs.pending, hs.queue, hs.answered, hs.results⟩
    | block => exact ⟨hs.pending, hs.queue, hs.answered, hs.results⟩
    | unblock => exact ⟨hs.pending, hs.queue, hs.answered, hs.results⟩
  | write hblocked hqueue => exact at_wrote hnum hs hqueue
  | message =>
    apply at_dispatch
    · -- what was read is taken off the input, which no phase looks at
      exact hnum.mono (Nat.le_refl _) (List.Sublist.refl _) fun _ _ h => h
    · exact ⟨hs.pending, hs.queue, hs.answered, hs.results⟩
  | ended =>
    apply at_close
    exact ⟨hs.pending, hs.queue, hs.answered, hs.results⟩

end Session

end IndexFs.Channel

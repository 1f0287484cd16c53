import IndexFs.Proofs.Channel.Lockstep
import IndexFs.Proofs.Channel.Stall
import IndexFs.Proofs.Frame.Stream

/-!
# The frames that are asked for

The requests and notifications that start before the end of reading, and the requests of the other side that
the reader rejects, ask for one frame each. A history lists these frames in the order of what asks for them
(`jobs`); each of them joins the end of the queue.
-/

namespace IndexFs.Channel

variable {Call : Type}

theorem filterMap_toList {α β : Type} (f : α → Option β) (o : Option α) :
    o.toList.filterMap f = (o.bind f).toList := by
  cases o with
  | none => rfl
  | some a =>
    rw [Option.toList_some, List.filterMap_cons, Option.bind_some]
    cases f a <;> rfl

theorem filterMap_concat {α β : Type} (f : α → Option β) (l : List α) (a : α) :
    (l ++ [a]).filterMap f = l.filterMap f ++ (f a).toList := by
  rw [List.filterMap_append, show [a] = (some a).toList from rfl, filterMap_toList, Option.bind_some]

def Event.breaks : Event Call → Bool
  | .breakWriter .. => true
  | _ => false

/-- The call whose frame it is. -/
def Origin.call? : Origin Call → Option Call
  | .request _ call => some call
  | .notification call => some call
  | .rejection => none

/-- The id in the frame of a request. -/
def Origin.id? : Origin Call → Option Nat
  | .request id _ => some id
  | _ => none

namespace Job

/-! ## The frames by their members -/

/-- The frame of a request: its id, its method and its parameters. -/
def ofRequest (id : Nat) (call : Call) (method : String) (params : Json) : Job Call :=
  ⟨.request id call,
    Frame.bytes (.object
      [("id", .ofNat id), ("jsonrpc", .string "2.0"), ("method", .string method), ("params", params)])⟩

/-- The frame of a notification: like a request, but without an id. -/
def ofNotification (call : Call) (method : String) (params : Json) : Job Call :=
  ⟨.notification call,
    Frame.bytes (.object [("jsonrpc", .string "2.0"), ("method", .string method), ("params", params)])⟩

/-- The frame that rejects a request of the other side: an error with the code -32601 under the id of the
request, whatever its shape. -/
def ofRejection (id : Json) (method : String) : Job Call :=
  ⟨.rejection,
    Frame.bytes (.object
      [("error", .object
          [("code", .ofInt (-32601)), ("message", .string ("Method not found: " ++ method))]),
        ("id", id), ("jsonrpc", .string "2.0")])⟩

/-! What a session puts into its queue are these frames. -/

theorem ofRequest_eq (id : Nat) (call : Call) (method : String) (params : Json) :
    ofRequest id call method params =
      ⟨.request id call, Frame.bytes (Message.request id method params)⟩ := by
  rw [Message.request_eq, ofRequest]

theorem ofNotification_eq (call : Call) (method : String) (params : Json) :
    ofNotification call method params =
      ⟨.notification call, Frame.bytes (Message.notification method params)⟩ := by
  rw [Message.notification_eq, ofNotification]

theorem ofRejection_eq (id : Json) (method : String) :
    (ofRejection id method : Job Call) =
      ⟨.rejection, Frame.bytes (Message.rejection id method)⟩ := by
  rw [Message.rejection_eq, ofRejection]

/-- The frame of a rejection. -/
def rejection? (job : Job Call) : Option (List UInt8) :=
  match job.origin with
  | .rejection => some job.frame
  | _ => none

end Job

namespace Mark

/-- A frame that was written, or failed to be. -/
def write? : Mark Call → Option (Origin Call × Except ChannelError Unit)
  | .write origin r => some (origin, r)
  | _ => none

def isEnded : Mark Call → Bool
  | .ended => true
  | _ => false

/-- The frame that rejects what is read here. -/
def rejection? : Mark Call → Option (List UInt8)
  | .message m =>
    match Incoming.of m with
    | .request id method => some (Job.ofRejection id method : Job Call).frame
    | _ => none
  | _ => none

/-- The frame that is asked for here; `id` is the next id, and `closed` whether the session is closed. -/
def job? (id : Nat) (closed : Bool) : Mark Call → Option (Job Call)
  | .event (.request call method params) =>
    if closed then none
    else some (.ofRequest id call method params)
  | .event (.notify call method params) =>
    if closed then none
    else some (.ofNotification call method params)
  | .event _ => none
  | .write .. => none
  | .message m => (Mark.message m : Mark Call).rejection?.map (⟨.rejection, ·⟩)
  | .ended => none

end Mark

/-- The frames that a part of a history asks for; `id` is the next id before it, and `closed` whether the
session is closed before it. -/
def jobsFrom (id : Nat) (closed : Bool) : List (Mark Call) → List (Job Call)
  | [] => []
  | m :: h =>
    (m.job? id closed).toList ++
      jobsFrom (id + if m.isRequest then 1 else 0) (closed || m.isEnded) h

/-- The frames that a history asks for, in this order. -/
def jobs (h : List (Mark Call)) : List (Job Call) :=
  jobsFrom 1 false h

theorem jobsFrom_concat (h : List (Mark Call)) (m : Mark Call) (id : Nat) (closed : Bool) :
    jobsFrom id closed (h ++ [m]) =
      jobsFrom id closed h ++
        (m.job? (id + h.countP Mark.isRequest) (closed || h.any Mark.isEnded)).toList := by
  induction h generalizing id closed with
  | nil => simp [jobsFrom]
  | cons m' h ih =>
    rw [List.cons_append, jobsFrom, ih, jobsFrom, List.append_assoc, List.countP_cons, List.any_cons,
      Bool.or_assoc, Nat.add_assoc, Nat.add_comm (h.countP Mark.isRequest)]

namespace Mark

theorem job?_call? (id : Nat) (closed : Bool) (m : Mark Call) :
    (m.job? id closed).bind (·.origin.call?) = if closed then none else m.starts? := by
  cases m with
  | event e =>
    cases e with
    | request call method params => cases closed <;> rfl
    | notify call method params => cases closed <;> rfl
    | _ => cases closed <;> rfl
  | message m =>
    simp only [job?]
    cases (Mark.message m : Mark Call).rejection? <;> cases closed <;> rfl
  | _ => cases closed <;> rfl

theorem job?_id? (id : Nat) (closed : Bool) (m : Mark Call) :
    (m.job? id closed).bind (·.origin.id?) = if m.isRequest && !closed then some id else none := by
  cases m with
  | event e =>
    cases e with
    | request call method params => cases closed <;> rfl
    | notify call method params => cases closed <;> rfl
    | _ => rfl
  | message m =>
    simp only [job?]
    cases (Mark.message m : Mark Call).rejection? <;> rfl
  | _ => rfl

theorem job?_rejection? (id : Nat) (closed : Bool) (m : Mark Call) :
    (m.job? id closed).bind Job.rejection? = m.rejection? := by
  cases m with
  | event e =>
    cases e with
    | request call method params => cases closed <;> rfl
    | notify call method params => cases closed <;> rfl
    | _ => rfl
  | message m =>
    simp only [job?]
    cases (Mark.message m : Mark Call).rejection? <;> rfl
  | _ => rfl

end Mark

/-- A frame is asked for by one thing that happens: a request or a notification before the end of reading,
or a request of the other side. -/
inductive Asked (h : List (Mark Call)) : Job Call → Prop where
  | request {before after : List (Mark Call)} {call : Call} {method : String} {params : Json}
      (hsplit : h = before ++ .event (.request call method params) :: after) (hopen : .ended ∉ before) :
      Asked h (.ofRequest (idAfter before) call method params)
  | notification {before after : List (Mark Call)} {call : Call} {method : String} {params : Json}
      (hsplit : h = before ++ .event (.notify call method params) :: after) (hopen : .ended ∉ before) :
      Asked h (.ofNotification call method params)
  | rejection {before after : List (Mark Call)} {m id : Json} {method : String}
      (hsplit : h = before ++ .message m :: after) (hm : Incoming.of m = .request id method) :
      Asked h (.ofRejection id method)

theorem Asked.concat {h : List (Mark Call)} {job : Job Call} (hjob : Asked h job) (m : Mark Call) :
    Asked (h ++ [m]) job := by
  cases hjob with
  | request hsplit hopen => exact .request (by rw [hsplit, List.append_assoc, List.cons_append]) hopen
  | notification hsplit hopen =>
    exact .notification (by rw [hsplit, List.append_assoc, List.cons_append]) hopen
  | rejection hsplit hm => exact .rejection (by rw [hsplit, List.append_assoc, List.cons_append]) hm

theorem Asked.frame_ne_nil {h : List (Mark Call)} {job : Job Call} (hjob : Asked h job) :
    job.frame ≠ [] := by
  cases hjob <;> exact Frame.bytes_ne_nil _

/-- The next id and whether the session is closed are those of the history before. -/
theorem asked_of_job? {h : List (Mark Call)} {m : Mark Call} {closed : Bool} {job : Job Call}
    (hclosed : closed = true ↔ .ended ∈ h) (hjob : m.job? (idAfter h) closed = some job) :
    Asked (h ++ [m]) job := by
  -- a session that is open has not ended
  have hopen : closed = false → .ended ∉ h := fun hopen hmem => by
    rw [hclosed.mpr hmem] at hopen
    cases hopen
  cases m with
  | event e =>
    cases e with
    | request call method params =>
      simp only [Mark.job?] at hjob
      split at hjob
      · cases hjob
      · next hc =>
        cases hjob
        exact .request rfl (hopen (Bool.eq_false_iff.mpr hc))
    | notify call method params =>
      simp only [Mark.job?] at hjob
      split at hjob
      · cases hjob
      · next hc =>
        cases hjob
        exact .notification rfl (hopen (Bool.eq_false_iff.mpr hc))
    | _ => cases hjob
  | message m =>
    simp only [Mark.job?, Mark.rejection?] at hjob
    -- a message puts a frame into the queue only if it is a request of the other side
    split at hjob
    · next id method hm =>
      cases hjob
      exact .rejection rfl hm
    · cases hjob
  | _ => cases hjob

namespace Session

variable [DecidableEq Call]

/-- One more thing that happens asks for one frame more, or for none. -/
theorem jobs_concat {h : List (Mark Call)} {s : Session Call} (hist : History h s) (m : Mark Call) :
    jobs (h ++ [m]) = jobs h ++ (m.job? s.nextId s.closed).toList := by
  have hclosed : h.any Mark.isEnded = s.closed := by
    rw [Bool.eq_iff_iff, closed_history hist, List.any_eq_true]
    constructor
    · rintro ⟨m, hm, hended⟩
      cases m <;> first | exact hm | cases hended
    · exact fun hmem => ⟨_, hmem, rfl⟩
  -- the next id and the end of reading can be seen in the history
  unfold jobs
  rw [jobsFrom_concat, hclosed, nextId_history hist, idAfter, Nat.add_comm, Bool.false_or]

theorem asked_of_mem_jobs {h : List (Mark Call)} {s : Session Call} (hist : History h s) {job : Job Call}
    (hjob : job ∈ jobs h) : Asked h job := by
  induction hist with
  | new => cases hjob
  | @step h s t m hist hstep ih =>
    rw [jobs_concat hist, List.mem_append, Option.mem_toList] at hjob
    rcases hjob with hjob | hjob
    · exact (ih hjob).concat m
    · rw [nextId_history hist] at hjob
      exact asked_of_job? (closed_history hist) hjob

/-- Each call asks for one frame at most. -/
theorem calls_jobs {h : List (Mark Call)} {s : Session Call} (hist : History h s) :
    ((jobs h).filterMap (·.origin.call?)).Sublist (started h) := by
  induction hist with
  | new => exact List.Sublist.refl []
  | @step h s t m hist hstep ih =>
    rw [jobs_concat hist, List.filterMap_append, filterMap_toList, Mark.job?_call?, started,
      filterMap_concat]
    refine ih.append ?_
    split
    · exact List.nil_sublist _
    · exact List.Sublist.refl _

/-- Each request of the other side asks for one frame. -/
theorem rejections_jobs {h : List (Mark Call)} {s : Session Call} (hist : History h s) :
    (jobs h).filterMap Job.rejection? = h.filterMap Mark.rejection? := by
  induction hist with
  | new => rfl
  | @step h s t m hist hstep ih =>
    rw [jobs_concat hist, List.filterMap_append, filterMap_toList, Mark.job?_rejection?,
      filterMap_concat, ih]

/-- Later requests have greater ids, and the next id is greater than all of them. -/
theorem ids_jobs {h : List (Mark Call)} {s : Session Call} (hist : History h s) :
    ((jobs h).filterMap (·.origin.id?)).Pairwise (· < ·) ∧
      ∀ id ∈ (jobs h).filterMap (·.origin.id?), id < s.nextId := by
  induction hist with
  | new => exact ⟨.nil, fun _ hid => absurd hid List.not_mem_nil⟩
  | @step h s t m hist hstep ih =>
    obtain ⟨hincrease, hlt⟩ := ih
    rw [jobs_concat hist, List.filterMap_append, filterMap_toList, Mark.job?_id?, nextId_step hstep]
    split
    · next hrequest =>
      have hrequest : m.isRequest = true := (Bool.and_eq_true_iff.mp hrequest).1
      rw [hrequest, if_pos rfl, Option.toList_some]
      -- the new id is the next one, which was greater than all others
      refine ⟨List.pairwise_append.mpr ⟨hincrease, List.pairwise_singleton _ _, ?_⟩, ?_⟩
      · intro id hid id' hid'
        rw [List.mem_singleton.mp hid']
        exact hlt id hid
      · intro id hid
        rcases List.mem_append.mp hid with hid | hid
        · exact Nat.lt_succ_of_lt (hlt id hid)
        · rw [List.mem_singleton.mp hid]
          exact Nat.lt_succ_self s.nextId
    · rw [Option.toList_none, List.append_nil]
      exact ⟨hincrease, fun id hid => Nat.lt_of_lt_of_le (hlt id hid) (Nat.le_add_right _ _)⟩

/-- As long as there are not too many requests, the ids in their frames are integers of 64 bits with a sign, and so is
the next one. -/
theorem ids_le_maxSigned {h : List (Mark Call)} {s : Session Call} (hist : History h s)
    (hfew : (h.countP Mark.isRequest : Int) < Number.maxSigned) :
    (s.nextId : Int) ≤ Number.maxSigned ∧
      ∀ id : Nat, id ∈ (jobs h).filterMap (·.origin.id?) → (id : Int) < Number.maxSigned := by
  have hnext : (s.nextId : Int) ≤ Number.maxSigned := by
    rw [nextId_history hist, idAfter]
    omega
  refine ⟨hnext, fun id hid => ?_⟩
  have hlt := (ids_jobs hist).2 id hid
  omega

/-! ## Steps -/

theorem written_output (s : Session Call) (origin : Origin Call) (r : Except ChannelError Unit) :
    (s.written origin r).output = s.output := by
  cases origin with
  | request id call =>
    cases r with
    | ok _ =>
      simp only [written, requestWritten]
      split <;> rfl
    | error e => rfl
  | notification call => rfl
  | rejection => rfl

theorem dispatch_output (s : Session Call) (m : Json) : (s.dispatch m).output = s.output := by
  unfold dispatch
  split
  · split
    · unfold deliver
      split <;> rfl
    · rfl
  · rfl
  · rfl

/-- What a write does to the queue, the output and the writer. -/
theorem wrote_wire (s : Session Call) (job : Job Call) (rest : List (Job Call)) :
    (s.wrote job rest).queue = rest ∧
      (s.wrote job rest).output = s.output ++ (s.writer.write job.frame).1 ∧
      (s.wrote job rest).writer = (s.writer.write job.frame).2.2 := by
  unfold wrote
  exact ⟨(written_frame _ _ _).2.2.1, written_output _ _ _, written_writer _ _ _⟩

theorem occur_queue (s : Session Call) (e : Event Call) :
    (s.occur e).queue.Sublist (s.queue ++ ((Mark.event e).job? s.nextId s.closed).toList) := by
  cases e with
  | request call method params =>
    simp only [occur, request, Mark.job?, Job.ofRequest_eq]
    split
    · exact List.sublist_append_left _ _
    · exact List.Sublist.refl _
  | notify call method params =>
    simp only [occur, notify, Mark.job?, Job.ofNotification_eq]
    split
    · exact List.sublist_append_left _ _
    · exact List.Sublist.refl _
  | cancel call => exact List.filter_sublist.trans (List.sublist_append_left _ _)
  | receive bytes =>
    obtain ⟨input, ending, heq⟩ := occur_inbound (.receive bytes) s
    -- what arrives is read later
    rw [heq]
    exact List.sublist_append_left _ _
  | endInput ending =>
    obtain ⟨input, ending, heq⟩ := occur_inbound (.endInput ending) s
    rw [heq]
    exact List.sublist_append_left _ _
  | _ => exact List.sublist_append_left _ _

/-- Only what is asked for joins the queue, and at its end. -/
theorem queue_step {s t : Session Call} {m : Mark Call} (hstep : Step s m t) :
    t.queue.Sublist (s.queue ++ (m.job? s.nextId s.closed).toList) := by
  cases hstep with
  | event e => exact occur_queue s e
  | @write job rest hblocked hqueue =>
    rw [(wrote_wire s job rest).1, hqueue]
    exact (List.sublist_cons_self job rest).trans (List.sublist_append_left _ _)
  | @message m rest hclosed hrejecting hread =>
    by_cases hm : Rejected m
    · obtain ⟨id, method, hincoming⟩ := hm
      rw [dispatch_of_request hincoming]
      simp only [Mark.job?, Mark.rejection?, hincoming, Job.ofRejection_eq]
      exact List.Sublist.refl _
    · rw [(dispatch_of_not_rejected hm _).2]
      exact List.sublist_append_left _ _
  | ended =>
    rw [close_eq]
    exact List.sublist_append_left _ _

theorem occur_writer (s : Session Call) {e : Event Call} (he : e.breaks = false) :
    (s.occur e).output = s.output ∧ (s.occur e).writer = s.writer := by
  cases e with
  | request call method params =>
    simp only [occur, request]
    split <;> exact ⟨rfl, rfl⟩
  | notify call method params =>
    simp only [occur, notify]
    split <;> exact ⟨rfl, rfl⟩
  | receive bytes =>
    obtain ⟨input, ending, heq⟩ := occur_inbound (.receive bytes) s
    rw [heq]
    exact ⟨rfl, rfl⟩
  | endInput ending =>
    obtain ⟨input, ending, heq⟩ := occur_inbound (.endInput ending) s
    rw [heq]
    exact ⟨rfl, rfl⟩
  | breakWriter => cases he
  | _ => exact ⟨rfl, rfl⟩

/-- What can happen to the writer: a frame is written, it breaks, or nothing. -/
theorem writer_step {s t : Session Call} {m : Mark Call} (hstep : Step s m t) :
    (∃ job rest, s.queue = job :: rest ∧ m = .write job.origin (s.writer.write job.frame).2.1 ∧
      t.queue = rest ∧ t.output = s.output ++ (s.writer.write job.frame).1 ∧
      t.writer = (s.writer.write job.frame).2.2) ∨
    m.write? = none ∧ t.output = s.output ∧
      ((∃ after message, m = .event (.breakWriter after message) ∧
          t.writer = ⟨some (after, message)⟩) ∨
        t.writer = s.writer) := by
  cases hstep with
  | event e =>
    cases he : e.breaks with
    | true =>
      cases e with
      | breakWriter after message => exact .inr ⟨rfl, rfl, .inl ⟨after, message, rfl, rfl⟩⟩
      | _ => cases he
    | false =>
      -- no other event touches the writer
      obtain ⟨houtput, hwriter⟩ := occur_writer s he
      exact .inr ⟨rfl, houtput, .inr hwriter⟩
  | @write job rest hblocked hqueue => exact .inl ⟨job, rest, hqueue, rfl, wrote_wire s job rest⟩
  | message => exact .inr ⟨rfl, dispatch_output _ _, .inr (dispatch_writer _ _)⟩
  | ended =>
    rw [close_eq]
    exact .inr ⟨rfl, rfl, .inr rfl⟩

/-! ## One state for each history -/

/-- What is noted of a step says what has happened. -/
theorem step_unique {s t u : Session Call} {m : Mark Call} (ht : Step s m t) (hu : Step s m u) : t = u := by
  -- the mark says which of the four steps it was, and each of them is determined by the session
  generalize hm : m = m' at hu
  cases ht with
  | event e =>
    cases hu with
    | event e' =>
      cases hm
      rfl
    | _ => cases hm
  | write hblocked hqueue =>
    cases hu with
    | write hblocked' hqueue' =>
      rw [hqueue] at hqueue'
      cases hqueue'
      rfl
    | _ => cases hm
  | message hclosed hrejecting hread =>
    cases hu with
    | message hclosed' hrejecting' hread' =>
      cases hm
      rw [hread] at hread'
      cases hread'
      rfl
    | _ => cases hm
  | ended hclosed hrejecting hends =>
    cases hu with
    | ended hclosed' hrejecting' hends' =>
      have hafter := after_of_ends hends
      rw [after_of_ends hends'] at hafter
      exact (Option.some.inj hafter).symm
    | _ => cases hm

theorem history_unique {h : List (Mark Call)} {s t : Session Call} (hs : History h s) (ht : History h t) :
    s = t := by
  induction hs generalizing t with
  | new =>
    generalize hh : ([] : List (Mark Call)) = h at ht
    cases ht with
    | new => rfl
    | step => exact absurd hh.symm (by simp)
  | step hist hstep ih =>
    obtain ⟨u, hist', hstep'⟩ := history_concat ht
    cases ih hist'
    exact step_unique hstep hstep'

/-! ## The frames that were taken off the queue -/

/-- These frames were taken off the queue, and those in the queue come after them. -/
structure Drained (h : List (Mark Call)) (s : Session Call) (done : List (Job Call)) : Prop where
  order : (done ++ s.queue).Sublist (jobs h)
  writes : (h.filterMap Mark.write?).map (·.1) = done.map (·.origin)

theorem Drained.write {h : List (Mark Call)} {s t : Session Call} {done rest : List (Job Call)}
    {job : Job Call} (hs : Drained h s done) (hist : History h s) (hqueue : s.queue = job :: rest)
    (hrest : t.queue = rest) (r : Except ChannelError Unit) :
    Drained (h ++ [.write job.origin r]) t (done ++ [job]) := by
  constructor
  · rw [jobs_concat hist, hrest, List.append_assoc, List.singleton_append, ← hqueue]
    exact hs.order.trans (List.sublist_append_left _ _)
  · rw [filterMap_concat, List.map_append, List.map_append, hs.writes]
    rfl

theorem Drained.skip {h : List (Mark Call)} {s t : Session Call} {done : List (Job Call)} {m : Mark Call}
    (hs : Drained h s done) (hist : History h s) (hstep : Step s m t) (hm : m.write? = none) :
    Drained (h ++ [m]) t done := by
  constructor
  · rw [jobs_concat hist]
    refine ((queue_step hstep).append_left done).trans ?_
    rw [← List.append_assoc]
    exact hs.order.append_right _
  · rw [filterMap_concat, hm, Option.toList_none, List.append_nil]
    exact hs.writes

theorem exists_drained {h : List (Mark Call)} {s : Session Call} (hist : History h s) :
    ∃ done, Drained h s done := by
  induction hist with
  | new => exact ⟨[], List.nil_sublist _, rfl⟩
  | step hist hstep ih =>
    obtain ⟨done, hs⟩ := ih
    rcases writer_step hstep with ⟨job, rest, hqueue, rfl, hrest, -⟩ | ⟨hm, -⟩
    · exact ⟨done ++ [job], hs.write hist hqueue hrest _⟩
    · exact ⟨done, hs.skip hist hstep hm⟩

omit [DecidableEq Call] in
theorem Drained.mem_writes {h : List (Mark Call)} {s : Session Call} {done : List (Job Call)}
    (hs : Drained h s done) (origin : Origin Call) :
    (∃ r, .write origin r ∈ h) ↔ origin ∈ done.map (·.origin) := by
  rw [← hs.writes, List.mem_map]
  constructor
  · rintro ⟨r, hr⟩
    exact ⟨(origin, r), List.mem_filterMap.mpr ⟨_, hr, rfl⟩, rfl⟩
  · rintro ⟨⟨origin, r⟩, hr, rfl⟩
    obtain ⟨m, hm, hwrite⟩ := List.mem_filterMap.mp hr
    cases m with
    | write =>
      cases hwrite
      exact ⟨r, hm⟩
    | _ => cases hwrite

theorem frame_ne_nil {h : List (Mark Call)} {s : Session Call} (hist : History h s) {job : Job Call}
    (hjob : job ∈ s.queue) : job.frame ≠ [] := by
  obtain ⟨done, hs⟩ := exists_drained hist
  exact (asked_of_mem_jobs hist (hs.order.subset (List.mem_append_right _ hjob))).frame_ne_nil

/-! ## Calls whose frame waits -/

theorem belongsTo_iff (call : Call) (origin : Origin Call) :
    Origin.belongsTo call origin = true ↔ origin.call? = some call := by
  cases origin <;> simp [Origin.belongsTo, Origin.call?]

theorem isQueued_iff (s : Session Call) (call : Call) :
    s.isQueued call = true ↔ call ∈ s.queue.filterMap (·.origin.call?) := by
  simp only [isQueued, List.any_eq_true, belongsTo_iff, List.mem_filterMap]

theorem started_of_isQueued {h : List (Mark Call)} {s : Session Call} (hist : History h s) {call : Call}
    (hqueued : s.isQueued call = true) : call ∈ started h := by
  obtain ⟨done, hs⟩ := exists_drained hist
  refine (calls_jobs hist).subset ((hs.order.filterMap _).subset ?_)
  rw [List.filterMap_append]
  exact List.mem_append_right _ ((isQueued_iff s call).mp hqueued)

/-- As long as the frame of a call waits, nothing was written of it. -/
theorem unwritten_of_isQueued {h : List (Mark Call)} {s : Session Call} (hist : History h s)
    (hfresh : (started h).Nodup) {call : Call} (hqueued : s.isQueued call = true) (origin : Origin Call)
    (r : Except ChannelError Unit) (hmem : .write origin r ∈ h) : origin.call? ≠ some call := by
  obtain ⟨done, hs⟩ := exists_drained hist
  -- a call asks for one frame, which is either in the queue or was taken off it
  have hcalls : ((done ++ s.queue).filterMap (·.origin.call?)).Nodup :=
    ((hs.order.filterMap _).trans (calls_jobs hist)).nodup hfresh
  rw [List.filterMap_append, List.nodup_append] at hcalls
  intro hcall
  obtain ⟨job, hjob, rfl⟩ := List.mem_map.mp ((hs.mem_writes origin).mp ⟨r, hmem⟩)
  have hwritten : call ∈ done.filterMap (·.origin.call?) := List.mem_filterMap.mpr ⟨job, hjob, hcall⟩
  exact hcalls.2.2 call hwritten call ((isQueued_iff s call).mp hqueued) rfl

/-- A frame that does not wait is not written, unless its call starts. -/
theorem isQueued_step {s t : Session Call} {m : Mark Call} (hstep : Step s m t) {call : Call}
    (hstart : m.starts? ≠ some call) (hqueued : s.isQueued call = false) :
    t.isQueued call = false ∧ ∀ origin r, m = .write origin r → origin.call? ≠ some call := by
  rw [← Bool.not_eq_true, isQueued_iff] at hqueued
  constructor
  · rw [← Bool.not_eq_true, isQueued_iff]
    intro hmem
    have hmem := ((queue_step hstep).filterMap (·.origin.call?)).subset hmem
    rw [List.filterMap_append, filterMap_toList, Mark.job?_call?, List.mem_append, Option.mem_toList]
      at hmem
    rcases hmem with hmem | hmem
    · exact hqueued hmem
    · split at hmem
      · cases hmem
      · exact hstart hmem
  · rintro origin r rfl hcall
    cases hstep with
    | @write job rest hblocked hqueue =>
      refine hqueued ?_
      rw [hqueue]
      exact List.mem_filterMap.mpr ⟨job, List.mem_cons_self, hcall⟩

/-- Nothing is written of a call as long as it does not start. -/
theorem unwritten_of_unqueued {h h' : List (Mark Call)} {s t : Session Call} {call : Call}
    (hist : History h s) (hqueued : s.isQueued call = false) (hstart : call ∉ started h')
    (hist' : History (h ++ h') t) :
    t.isQueued call = false ∧ ∀ origin r, .write origin r ∈ h' → origin.call? ≠ some call := by
  -- by induction on what happens later, which grows at its end
  induction h' using List.reverseRecOn generalizing t with
  | nil =>
    rw [List.append_nil] at hist'
    cases history_unique hist hist'
    exact ⟨hqueued, fun _ _ hmem => absurd hmem List.not_mem_nil⟩
  | append_singleton h' m ih =>
    rw [← List.append_assoc] at hist'
    obtain ⟨u, histu, hstep⟩ := history_concat hist'
    rw [started, filterMap_concat, List.mem_append, not_or, Option.mem_toList] at hstart
    obtain ⟨hu, hbefore⟩ := ih hstart.1 histu
    obtain ⟨ht, hlast⟩ := isQueued_step hstep hstart.2 hu
    refine ⟨ht, fun origin r hmem => ?_⟩
    rcases List.mem_append.mp hmem with hmem | hmem
    · exact hbefore origin r hmem
    · exact hlast origin r (List.mem_singleton.mp hmem).symm

theorem isQueued_cancel (s : Session Call) (call : Call) : (s.cancel call).isQueued call = false := by
  rw [isQueued, List.any_eq_false]
  intro job hjob
  simpa using (List.mem_filter.mp hjob).2

/-- Nothing is ever written of a call that was cancelled while its frame waited. -/
theorem unwritten_of_cancel {before after : List (Mark Call)} {call : Call} {s₀ s : Session Call}
    (hist : History (before ++ .event (.cancel call) :: after) s)
    (hfresh : (started (before ++ .event (.cancel call) :: after)).Nodup) (hist₀ : History before s₀)
    (hqueued : s₀.isQueued call = true) (origin : Origin Call) (r : Except ChannelError Unit)
    (hmem : .write origin r ∈ before ++ .event (.cancel call) :: after) : origin.call? ≠ some call := by
  have hsplit : started (before ++ .event (.cancel call) :: after) = started before ++ started after := by
    unfold started
    rw [List.filterMap_append, List.filterMap_cons_none rfl]
  rw [hsplit, List.nodup_append] at hfresh
  rcases List.mem_append.mp hmem with hmem | hmem
  · exact unwritten_of_isQueued hist₀ hfresh.1 hqueued origin r hmem
  · have hmem : .write origin r ∈ after := (List.mem_cons.mp hmem).resolve_left fun heq => by cases heq
    -- the frame waits, and so its call has started; it does not start again
    have hcall : call ∉ started after := fun hafter =>
      hfresh.2.2 call (started_of_isQueued hist₀ hqueued) call hafter rfl
    rw [List.append_cons] at hist
    exact (unwritten_of_unqueued (hist₀.step (.event s₀ (.cancel call))) (isQueued_cancel s₀ call)
      hcall hist).2 origin r hmem

end Session

end IndexFs.Channel

import IndexFs.Proofs.Channel.Pending
import IndexFs.Proofs.Channel.Queue

/-!
# The end of reading

When reading has ended, a session stays closed: nothing waits for a response any more, nothing that arrives
is read, and whoever asks learns at once that there is no connection (`Final`). The requests of before keep
what they have got: those whose frames were written end with the end of reading, and the others with what was
read before it, or with their write (`closing_final`).
-/

namespace IndexFs.Channel

variable {Call : Type}

/-! ## What came before the end -/

/-- A result that was read is a response from before the end of reading, or this end. -/
theorem Replied.cases_ended {id : Nat} {h : List (Mark Call)} {r : Result} (hr : Replied id h r) :
    r = .error .closed ∨
      ∃ a m b, h = a ++ .message m :: b ∧ .ended ∉ a ∧ Answers id m ∧ r = Message.outcome m := by
  cases hr with
  | result hfirst hanswers herror =>
    refine .inr ⟨_, _, _, rfl, hfirst.1, hanswers, ?_⟩
    unfold Message.outcome
    rw [herror]
  | error hfirst hanswers herror =>
    refine .inr ⟨_, _, _, rfl, hfirst.1, hanswers, ?_⟩
    unfold Message.outcome
    rw [herror]
  | closed hfirst => exact .inl rfl

/-- What stands in front of the first end of reading stands before every end of reading. -/
theorem mem_of_append_eq {a b before after : List (Mark Call)} {m : Json} (ha : .ended ∉ a)
    (hsplit : a ++ .message m :: b = before ++ .ended :: after) : .message m ∈ before := by
  rcases List.append_eq_append_iff.mp hsplit with ⟨rest, rfl, hrest⟩ | ⟨rest, rfl, hrest⟩
  · cases rest with
    | nil => cases hrest
    | cons x rest =>
      injection hrest with hx
      exact List.mem_append_right _ (hx ▸ List.mem_cons_self)
  · cases rest with
    | nil => cases hrest
    | cons x rest =>
      injection hrest with hx
      exact absurd (List.mem_append_right _ (hx ▸ List.mem_cons_self)) ha

namespace Session

variable [DecidableEq Call]

/-- After the end of reading, nothing is read and reading does not end again. -/
theorem unread_of_closed {s t : Session Call} (hclosed : s.closed = true) :
    (∀ m, ¬Step s (.message m) t) ∧ ¬Step s .ended t := by
  constructor
  · intro m hstep
    cases hstep with
    | message hopen =>
      rw [hclosed] at hopen
      cases hopen
  · intro hstep
    cases hstep with
    | ended hopen =>
      rw [hclosed] at hopen
      cases hopen

theorem unread_after_ended {before after : List (Mark Call)} {s : Session Call}
    (hist : History (before ++ .ended :: after) s) :
    (∀ m, .message m ∉ after) ∧ .ended ∉ after := by
  induction after using List.reverseRecOn generalizing s with
  | nil => exact ⟨fun _ => List.not_mem_nil, List.not_mem_nil⟩
  | append_singleton after last ih =>
    rw [← List.cons_append, ← List.append_assoc] at hist
    obtain ⟨t, hist, hstep⟩ := history_concat hist
    have hclosed : t.closed = true := (closed_history hist).mpr (by simp)
    obtain ⟨hmessage, hended⟩ := ih hist
    refine ⟨fun m hmem => ?_, fun hmem => ?_⟩
    · rcases List.mem_append.mp hmem with hmem | hmem
      · exact hmessage m hmem
      · exact (unread_of_closed hclosed).1 m (List.mem_singleton.mp hmem ▸ hstep)
    · rcases List.mem_append.mp hmem with hmem | hmem
      · exact hended hmem
      · exact (unread_of_closed hclosed).2 (List.mem_singleton.mp hmem ▸ hstep)

/-! ## Closed sessions -/

theorem written_pending (s : Session Call) (origin : Origin Call) (r : Except ChannelError Unit) :
    (s.written origin r).pending.Sublist s.pending := by
  cases origin with
  | request id call =>
    cases r with
    | ok _ =>
      simp only [written, requestWritten]
      split <;> exact List.Sublist.refl _
    | error e => exact List.filter_sublist
  | notification call => exact List.Sublist.refl _
  | rejection => exact List.Sublist.refl _

theorem request_of_closed {s : Session Call} (hclosed : s.closed = true) (call : Call)
    (method : String) (params : Json) :
    s.occur (.request call method params) =
      { s with nextId := s.nextId + 1 }.finish call (.error .closed) := by
  simp only [occur, request, hclosed, if_true]

theorem notify_of_closed {s : Session Call} (hclosed : s.closed = true) (call : Call)
    (method : String) (params : Json) :
    s.occur (.notify call method params) = s.finish call (.error .closed) := by
  simp only [occur, notify, hclosed, if_true]

theorem closed_of_step {s t : Session Call} {m : Mark Call} (hstep : Step s m t)
    (hclosed : s.closed = true) (hpending : s.pending = []) : t.closed = true ∧ t.pending = [] := by
  refine ⟨(closed_step hstep).mpr (.inl hclosed), ?_⟩
  cases hstep with
  | event e =>
    cases e with
    | request call method params =>
      rw [request_of_closed hclosed]
      exact hpending
    | notify call method params =>
      rw [notify_of_closed hclosed]
      exact hpending
    | cancel call =>
      show s.pending.filter _ = []
      rw [hpending]
      rfl
    | receive bytes =>
      obtain ⟨input, ending, heq⟩ := occur_inbound (.receive bytes) s
      rw [heq]
      exact hpending
    | endInput ending =>
      obtain ⟨input, ending, heq⟩ := occur_inbound (.endInput ending) s
      rw [heq]
      exact hpending
    | breakWriter after message => exact hpending
    | block => exact hpending
    | unblock => exact hpending
  | @write job rest hblocked hqueue =>
    -- writing takes entries away, if it changes them at all
    have hsublist := written_pending (s.popped job rest) job.origin (s.writer.write job.frame).2.1
    have hpopped : (s.popped job rest).pending = [] := hpending
    rw [hpopped] at hsublist
    exact List.sublist_nil.mp hsublist
  | message hopen =>
    -- a closed session does not read
    rw [hclosed] at hopen
    cases hopen
  | ended hopen =>
    rw [hclosed] at hopen
    cases hopen

theorem closed_settle {s : Session Call} (hclosed : s.closed = true) (hpending : s.pending = []) :
    s.settle.closed = true ∧ s.settle.pending = [] := by
  induction s using settle_induction with
  | hnone s h =>
    rw [settle_of_none h]
    exact ⟨hclosed, hpending⟩
  | hsome s t h ih =>
    obtain ⟨m, -, hstep⟩ := step_of_advance? h
    obtain ⟨hclosed, hpending⟩ := closed_of_step hstep hclosed hpending
    rw [settle_of_some h]
    exact ih hclosed hpending

theorem closed_foldl {s : Session Call} (hclosed : s.closed = true) (hpending : s.pending = [])
    (later : List (Event Call)) :
    (later.foldl apply s).closed = true ∧ (later.foldl apply s).pending = [] := by
  induction later generalizing s with
  | nil => exact ⟨hclosed, hpending⟩
  | cons e later ih =>
    obtain ⟨hclosed, hpending⟩ := closed_of_step (.event s e) hclosed hpending
    obtain ⟨hclosed, hpending⟩ := closed_settle hclosed hpending
    exact ih hclosed hpending

/-- A closed session at rest does nothing upon an event that leaves the queue and the writer alone. -/
theorem apply_of_closed {s t : Session Call} {e : Event Call} (hrest : s.advance? = none)
    (hoccur : s.occur e = t) (ht : t.closed = true)
    (hblocked : t.blocked = s.blocked) (hqueue : t.queue = s.queue) : s.apply e = t := by
  have hidle : t.blocked = true ∨ t.queue = [] := by
    rw [hblocked, hqueue]
    exact idle_of_rest hrest
  unfold apply
  rw [hoccur, settle_of_none (advance?_of_closed ht hidle)]

/-- A session in which reading has ended. -/
structure Final (s : Session Call) : Prop where
  pending : s.pending = []
  /-- It stays so, whatever else happens, in whatever order. -/
  next : ∀ m t, Step s m t → t.closed = true ∧ t.pending = []
  later : ∀ later : List (Event Call),
    (later.foldl apply s).closed = true ∧ (later.foldl apply s).pending = []
  /-- Nothing is read any more. -/
  unread : ∀ t, (∀ m, ¬Step s (.message m) t) ∧ ¬Step s .ended t
  /-- A request ends at once, and nothing is written for it. -/
  request : ∀ call method params, s.advance? = none →
    s.apply (.request call method params) =
      { s with
        nextId := s.nextId + 1
        results := s.results ++ [(call, .error .closed)] }
  notify : ∀ call method params, s.advance? = none →
    s.apply (.notify call method params) =
      { s with results := s.results ++ [(call, .error .closed)] }
  /-- What arrives changes nothing but the bytes that nobody reads. -/
  inbound : ∀ e, Event.Inbound e → s.advance? = none →
    ∃ input ending, s.apply e = { s with input := input, ending := ending }

theorem final_of_closed {h : List (Mark Call)} {s : Session Call} (hist : History h s)
    (hfresh : (started h).Nodup) (hclosed : s.closed = true) : s.Final := by
  have hpending := pending_of_closed hist hfresh hclosed
  exact {
    pending := hpending
    next := fun m t hstep => closed_of_step hstep hclosed hpending
    later := closed_foldl hclosed hpending
    unread := fun t => unread_of_closed hclosed
    request := fun call method params hrest =>
      apply_of_closed hrest (request_of_closed hclosed call method params) hclosed rfl rfl
    notify := fun call method params hrest =>
      apply_of_closed hrest (notify_of_closed hclosed call method params) hclosed rfl rfl
    inbound := fun e he hrest => by
      obtain ⟨input, ending, heq⟩ := occur_inbound he s
      exact ⟨input, ending, apply_of_closed hrest heq hclosed rfl rfl⟩ }

/-! ## Requests from before the end -/

/-- A request whose frame waited for the writer when reading ended gets, if anything, this end, the error of
its write, or a response from before. -/
theorem result_of_queued {before between after : List (Mark Call)} {call : Call} {method : String}
    {params : Json} {s₀ s : Session Call}
    (hist : History (before ++ .event (.request call method params) :: (between ++ .ended :: after)) s)
    (hfresh : (started
      (before ++ .event (.request call method params) :: (between ++ .ended :: after))).Nodup)
    (hist₀ : History (before ++ .event (.request call method params) :: between) s₀)
    (hqueued : s₀.isQueued call = true) {r : Result} (hr : (call, r) ∈ s.results) :
    r = .error .closed ∨
      (∃ e, r = .error e ∧ .write (.request (idAfter before) call) (.error e) ∈ after) ∨
      ∃ m, .message m ∈ between ∧ Answers (idAfter before) m ∧ r = Message.outcome m := by
  have hfresh₀ : (started (before ++ .event (.request call method params) :: between)).Nodup := by
    rw [← List.cons_append, ← List.append_assoc, started, List.filterMap_append, List.nodup_append]
      at hfresh
    exact hfresh.1
  obtain ⟨p, hs, hp⟩ := exists_told hist hfresh
  -- the phase of the call at the end says what explains its result
  have hexplains : Explains (idAfter before) call before (between ++ .ended :: after) r := by
    have hresult := (hs.mem_results r).mp hr
    cases p with
    | finished r' =>
      cases hresult
      exact hp
    | _ => cases hresult
  cases hexplains with
  | @write e hwrite =>
    refine .inr (.inl ⟨e, rfl, ?_⟩)
    -- the frame was still in the queue when reading ended, so it was not written before
    rcases List.mem_append.mp hwrite with hmem | hmem
    · refine absurd ?_ (unwritten_of_isQueued hist₀ hfresh₀ hqueued
        (.request (idAfter before) call) (.error e) ?_)
      · rfl
      · exact List.mem_append_right before (List.mem_cons_of_mem _ hmem)
    · exact (List.mem_cons.mp hmem).resolve_left fun heq => by cases heq
  | reply hbefore hreply =>
    -- a response that explains the result was received before reading ended
    rcases hreply.cases_ended with hclosed | ⟨a, m, b, hsplit, ha, hanswers, hr⟩
    · exact .inl hclosed
    · exact .inr (.inr ⟨m, mem_of_append_eq ha hsplit.symm, hanswers, hr⟩)
  | late => exact .inl rfl

/-- What is known of a session in which reading ended between two parts of its history. -/
structure Ended (before after : List (Mark Call)) (s : Session Call) : Prop where
  /-- Nothing was read after the end. -/
  unread : ∀ m, .message m ∉ after
  once : .ended ∉ after
  /-- Whoever waited for a response learned of the end at once. -/
  written : ∀ s₀ t id call, History before s₀ → Step s₀ .ended t → (id, call) ∈ s₀.pending →
    s₀.isQueued call = false → (call, .error .closed) ∈ t.results
  /-- Whoever waited for the writer got nothing that was read after the end. -/
  queued : ∀ first between call method params s₀ r,
    before = first ++ .event (.request call method params) :: between → History before s₀ →
    s₀.isQueued call = true → (call, r) ∈ s.results →
      r = .error .closed ∨
      (∃ e, r = .error e ∧ .write (.request (idAfter first) call) (.error e) ∈ after) ∨
      ∃ m, .message m ∈ between ∧ Answers (idAfter first) m ∧ r = Message.outcome m

theorem result_of_ended {h : List (Mark Call)} {s t : Session Call} (hist : History h s)
    (hfresh : (started h).Nodup) (hstep : Step s .ended t) {id : Nat} {call : Call}
    (hmem : (id, call) ∈ s.pending) (hwritten : s.isQueued call = false) :
    (call, .error .closed) ∈ t.results := by
  have hs := at_of_pending hist hfresh hmem
  rw [hwritten] at hs
  have ht := at_step hstep (numbered_history hist) hs fun hstart => by cases hstart
  exact (ht.mem_results _).mpr rfl

/-- Closing is final, whatever happens and in whatever order: a closed session stays closed, waits for
nothing and reads nothing, and whoever asks is told so at once. Requests from before end with the end of
reading if they were written, and otherwise with nothing that was read after it. -/
theorem closing_final (events : List (Event Call)) (hcalls : (events.filterMap Event.starts?).Nodup) :
    (∃ h : List (Mark Call), h.filterMap Mark.event? = events ∧ History h (events.foldl apply .new)) ∧
      (events.foldl apply (new : Session Call)).advance? = none ∧
      ∀ h s, h.filterMap Mark.event? = events → History h s →
        (s.closed = true → s.Final) ∧
          ∀ before after, h = before ++ .ended :: after → Ended before after s := by
  refine ⟨history_foldl_apply events, advance?_foldl events, fun h s hevents hist => ?_⟩
  have hfresh : (started h).Nodup := by
    rw [started_eq, hevents]
    exact hcalls
  refine ⟨final_of_closed hist hfresh, fun before after hsplit => ?_⟩
  subst hsplit
  -- the calls before the end are started at most once, too
  have hfresh₀ : (started before).Nodup := by
    rw [started, List.filterMap_append, List.nodup_append] at hfresh
    exact hfresh.1
  obtain ⟨hunread, honce⟩ := unread_after_ended hist
  exact {
    unread := hunread
    once := honce
    written := fun _ _ _ _ hist₀ hstep hmem hwritten =>
      result_of_ended hist₀ hfresh₀ hstep hmem hwritten
    queued := fun first between call method params s₀ r hbefore hist₀ hqueued hr => by
      subst hbefore
      rw [List.append_assoc, List.cons_append] at hist hfresh
      exact result_of_queued hist hfresh hist₀ hqueued hr }

/-- One request waits for its response and one for the writer when reading ends, and one comes after. -/
theorem closing_final_blocked :
    let events : List (Event Nat) :=
      [.request 7 "a" .null, .block, .request 8 "b" .null, .endInput .closed, .request 9 "c" .null]
    (events.filterMap Event.starts?).Nodup ∧ (events.foldl apply new).closed = true ∧
      (events.foldl apply new).pending = [] ∧
      (events.foldl apply new).results = [(7, .error .closed), (9, .error .closed)] := by
  intro events
  have hcalls : (events.filterMap Event.starts?).Nodup := by
    show [7, 8, 9].Nodup
    decide
  have hclosed : (events.foldl apply new).closed = true := rfl
  obtain ⟨⟨h, hevents, hist⟩, -, hall⟩ := closing_final events hcalls
  exact ⟨hcalls, hclosed, ((hall h _ hevents hist).1 hclosed).pending, rfl⟩

end Session

end IndexFs.Channel

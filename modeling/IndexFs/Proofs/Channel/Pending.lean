import IndexFs.Proofs.Channel.Correlation
import IndexFs.Proofs.Channel.Lockstep
import IndexFs.Proofs.Channel.Unbroken

/-!
# The requests that wait

The entries of a session are the requests that wait for a response, each under its id, and nothing else
(`pending_exact`). A request that is cancelled, or whose frame could not be written, takes its own entry
with it and no other.
-/

namespace IndexFs.Channel

variable {Call : Type}

/-- A request took this id when it started in a session that was not closed, it has neither ended nor been
cancelled, and no response to it was read. -/
def Outstanding (h : List (Mark Call)) (s : Session Call) (id : Nat) (call : Call) : Prop :=
  ∃ before after method params, h = before ++ .event (.request call method params) :: after ∧
    id = idAfter before ∧ .ended ∉ before ∧ (∀ r, (call, r) ∉ s.results) ∧
    .event (.cancel call) ∉ after ∧ ∀ m, .message m ∈ after → ¬Answers id m

/-- Two sessions give a call the same results, unless its frame could not be written in one of them. -/
def SameResults (call : Call) (s t : Session Call) : Prop :=
  (∀ r, (call, r) ∈ t.results ↔ (call, r) ∈ s.results) ∨ Session.Failed call s ∨ Session.Failed call t

theorem idAfter_append (h h' : List (Mark Call)) :
    idAfter (h ++ h') = idAfter h + h'.countP Mark.isRequest := by
  unfold idAfter
  rw [List.countP_append]
  omega

theorem split_eq {before after before' after' rest : List (Mark Call)} {m m' : Mark Call}
    (hm : m.isRequest = true) (hbefore : before' = before ++ rest)
    (hrest : m :: after = rest ++ m' :: after') (hid : idAfter before = idAfter before') :
    before = before' ∧ m = m' ∧ after = after' := by
  cases rest with
  | nil =>
    injection hrest with hm' hafter
    exact ⟨by rw [hbefore, List.append_nil], hm', hafter⟩
  | cons x rest =>
    -- what lies between begins with the first request, which has taken an id
    injection hrest with hx
    rw [hbefore, idAfter_append, ← hx, List.countP_cons_of_pos hm] at hid
    omega

/-- Requests that started at different times have different ids. -/
theorem idAfter_inj {before after before' after' : List (Mark Call)} {m m' : Mark Call}
    (hm : m.isRequest = true) (hm' : m'.isRequest = true)
    (hsplit : before ++ m :: after = before' ++ m' :: after') (hid : idAfter before = idAfter before') :
    before = before' ∧ m = m' ∧ after = after' := by
  rcases List.append_eq_append_iff.mp hsplit with ⟨rest, hbefore, hrest⟩ | ⟨rest, hbefore, hrest⟩
  · exact split_eq hm hbefore hrest hid
  · obtain ⟨h₁, h₂, h₃⟩ := split_eq hm' hbefore hrest hid.symm
    exact ⟨h₁.symm, h₂.symm, h₃.symm⟩

namespace Session

variable [DecidableEq Call]

/-- Only a request gets an entry. -/
theorem next_pending_none {call : Call} {p : Phase} {m : Mark Call} (hm : m.starts? ≠ some call)
    (hp : p.pending? = none) (n : Nat) (closed : Bool) :
    (p.next call n closed m).pending? = none := by
  cases m with
  -- only a request of the call itself could make it pending
  | event e =>
    cases e with
    | request c method params =>
      simp only [Phase.next, if_neg fun hc : c = call => hm (congrArg some hc)]
      exact hp
    | notify c method params =>
      simp only [Phase.next, if_neg fun hc : c = call => hm (congrArg some hc)]
      exact hp
    | cancel c =>
      simp only [Phase.next]
      split
      · cases p <;> rfl
      · exact hp
    | _ => exact hp
  | write origin r =>
    simp only [Phase.next]
    split
    · -- a call that is not pending can only end by its frame
      cases p with
      | waiting id queued => cases hp
      | answered id a => cases r <;> rfl
      | _ => rfl
    · exact hp
  | message j =>
    cases p with
    | waiting id queued => cases hp
    | _ => rfl
  | ended =>
    cases p with
    | waiting id queued => cases hp
    | _ => rfl

/-- A notification has no entry. -/
theorem at_notification {before after : List (Mark Call)} {call : Call} {method : String} {params : Json}
    {t : Session Call} (hist : History (before ++ .event (.notify call method params) :: after) t)
    (hfresh : (started (before ++ .event (.notify call method params) :: after)).Nodup) :
    ∃ p, t.At call p ∧ p.pending? = none := by
  refine exists_phase (P := fun _ p => p.pending? = none) rfl ?_
    (fun _ _ _ n closed hm _ hp => next_pending_none hm hp n closed) hist hfresh
  intro s _
  simp only [Phase.next, if_pos]
  split <;> rfl

/-- An entry belongs to a request of which nothing has been heard yet. -/
theorem told_of_pending {h : List (Mark Call)} {s : Session Call} (hist : History h s)
    (hfresh : (started h).Nodup) {id : Nat} {call : Call} (hmem : (id, call) ∈ s.pending) :
    ∃ before after method params queued, h = before ++ .event (.request call method params) :: after ∧
      s.At call (.waiting id queued) ∧ Told (idAfter before) call before after (.waiting id queued) := by
  by_cases hcall : call ∈ started h
  · -- the call has started, and it must be with a request: a notification is never pending
    obtain ⟨m, hm, hstart⟩ := List.mem_filterMap.mp hcall
    obtain ⟨before, after, rfl⟩ := List.append_of_mem hm
    cases m with
    | event e =>
      cases e with
      | request c method params =>
        cases hstart
        obtain ⟨p, hs, hp⟩ := exists_told hist hfresh
        have hid := (hs.mem_pending id).mp hmem
        cases p with
        | waiting n queued =>
          cases hid
          exact ⟨before, after, method, params, queued, rfl, hs, hp⟩
        | _ => cases hid
      | notify c method params =>
        cases hstart
        obtain ⟨p, hs, hp⟩ := at_notification hist hfresh
        rw [hs.mem_pending, hp] at hmem
        cases hmem
      | _ => cases hstart
    | _ => cases hstart
  · -- a call that has not started is not pending
    have hs := at_absent hist hcall
    cases (hs.mem_pending id).mp hmem

/-- A closed session waits for nothing. -/
theorem pending_of_closed {h : List (Mark Call)} {s : Session Call} (hist : History h s)
    (hfresh : (started h).Nodup) (hclosed : s.closed = true) : s.pending = [] := by
  rw [List.eq_nil_iff_forall_not_mem]
  rintro ⟨id, call⟩ hmem
  obtain ⟨before, after, method, params, queued, rfl, -, -, hbefore, hafter, -⟩ :=
    told_of_pending hist hfresh hmem
  rcases List.mem_append.mp ((closed_history hist).mp hclosed) with hended | hended
  · exact hbefore hended
  · rcases List.mem_cons.mp hended with hended | hended
    · cases hended
    · exact hafter.1 hended

theorem mem_pending_iff {h : List (Mark Call)} {s : Session Call} (hist : History h s)
    (hfresh : (started h).Nodup) (hopen : s.closed = false) (id : Nat) (call : Call) :
    (id, call) ∈ s.pending ↔ Outstanding h s id call := by
  constructor
  · intro hmem
    obtain ⟨before, after, method, params, queued, rfl, hs, hid, hbefore, hafter, hcancel⟩ :=
      told_of_pending hist hfresh hmem
    refine ⟨before, after, method, params, rfl, hid, hbefore, fun r hr => ?_, hcancel, ?_⟩
    · cases (hs.mem_results r).mp hr
    · exact hid ▸ hafter.2
  · rintro ⟨before, after, method, params, rfl, rfl, hbefore, hresults, hcancel, hanswer⟩
    obtain ⟨p, hs, hp⟩ := exists_told hist hfresh
    have hended : .ended ∉ before ++ .event (.request call method params) :: after := by
      rw [← closed_history hist, hopen]
      exact Bool.false_ne_true
    rw [hs.mem_pending]
    cases p with
    | waiting n queued => exact congrArg some hp.1
    | answered n r =>
      -- an answer that waits for the frame came from a response, or from the end of reading
      exfalso
      obtain ⟨-, -, hreply⟩ := hp
      cases hreply with
      | result hfirst hanswers => exact hanswer _ (by simp) hanswers
      | error hfirst hanswers => exact hanswer _ (by simp) hanswers
      | closed hfirst => exact hended (by simp)
    | finished r => exact absurd ((hs.mem_results r).mpr rfl) (hresults r)
    | cancelled => exact absurd hp hcancel
    | absent => exact hp.elim
    | notifying => exact hp.elim

/-- A request whose frame could not be written takes its own entry with it. -/
theorem mem_pending_of_failed {h : List (Mark Call)} {s t : Session Call} (hist : History h s)
    (hfresh : (started h).Nodup) {id : Nat} {call : Call} {e : ChannelError}
    (hstep : Step s (.write (.request id call) (.error e)) t) (n : Nat) (other : Call) :
    (n, other) ∈ t.pending ↔ (n, other) ∈ s.pending ∧ other ≠ call := by
  generalize hm : Mark.write (Origin.request id call) (Except.error e) = m at hstep
  cases hstep with
  | @write job rest hblocked hqueue =>
    injection hm with horigin hresult
    have hjob : Origin.request id call ∈ s.queue.map (·.origin) := by simp [hqueue, horigin]
    unfold wrote
    rw [← horigin, ← hresult]
    show (n, other) ∈ s.pending.filter (fun p => p.1 ≠ id) ↔ _
    rw [List.mem_filter]
    refine and_congr_right fun hmem => ?_
    -- the entry under the id is the call's, and the call has no other
    obtain ⟨p, hs⟩ := exists_at hist hfresh call
    have hbelongs : Origin.belongsTo call (.request id call) = true := decide_eq_true rfl
    have hown := (hs.mem_queue hbelongs).mp hjob
    have hiff : n = id ↔ other = call := by
      constructor
      · rintro rfl
        exact ((numbered_history hist).owner n other call hmem hjob).symm
      · rintro rfl
        have hn := (hs.mem_pending n).mp hmem
        cases p with
        | waiting n' queued =>
          cases hn
          cases queued with
          | true =>
            cases hown
            rfl
          | false => cases hown
        | _ => cases hn
    rw [decide_eq_true_iff]
    exact not_congr hiff
  | _ => cases hm

theorem dispatch_of_none {s : Session Call} {m : Json} {n : Int} {r : Result}
    (hm : Incoming.of m = .response n r) (hn : s.pendingCall? n = none) : s.dispatch m = s := by
  simp only [dispatch, hm, hn]

/-- A response to a request that was cancelled is read, and nothing else changes. -/
theorem step_of_cancelled {before after : List (Mark Call)} {call : Call} {method : String}
    {params : Json} {s t : Session Call}
    (hist : History (before ++ .event (.request call method params) :: after) s)
    (hfresh : (started (before ++ .event (.request call method params) :: after)).Nodup)
    (hcancel : .event (.cancel call) ∈ after) {m : Json} (hm : Answers (idAfter before) m)
    (hstep : Step s (.message m) t) : t = { s with input := t.input } := by
  have hnone : s.pendingCall? (idAfter before : Nat) = none := by
    cases hcall : s.pendingCall? (idAfter before : Nat) with
    | none => rfl
    | some c =>
      exfalso
      obtain ⟨n, hn, hmem⟩ := mem_of_pendingCall? hcall
      -- the entry would belong to a request with the same id that was not cancelled
      obtain ⟨before', after', method', params', queued, hsplit, -, hid, -, -, hnot⟩ :=
        told_of_pending hist hfresh hmem
      have hid' : idAfter before = idAfter before' := (Int.ofNat.inj hn).symm.trans hid
      obtain ⟨-, hstart, rfl⟩ := idAfter_inj rfl rfl hsplit hid'
      cases hstart
      exact hnot hcancel
  cases hstep with
  | @message _ rest hclosed hrejecting hread =>
    have hrest : { s with input := rest }.pendingCall? (idAfter before : Nat) = none := hnone
    rw [dispatch_of_none (incoming_of_answers hm) hrest]

theorem Alike.mem_results {call : Call} {s t : Session Call} (h : Alike call s t) (r : Result) :
    (call, r) ∈ t.results ↔ (call, r) ∈ s.results := by
  have hfilter := mem_iff_mem_filter (p := fun e : Call × Result => e.1 = call) (a := (call, r))
    (decide_eq_true rfl)
  rw [hfilter t.results, h.same.results, ← hfilter s.results]

theorem sameResults_foldl {call : Call} {s t : Session Call}
    (h : Alike call s t ∨ Failed call s ∨ Failed call t) (events : List (Event Call)) :
    SameResults call (events.foldl apply s) (events.foldl apply t) := by
  rcases h with halike | hfailed | hfailed
  · rcases alike_foldl halike events with halike | hfailed
    · exact .inl halike.mem_results
    · exact .inr hfailed
  · exact .inr (.inl (hfailed.foldl events))
  · exact .inr (.inr (hfailed.foldl events))

/-- A call that is cancelled makes no difference to the others, unless their own frames fail. -/
theorem sameResults_of_cancel {call other : Call} (hother : other ≠ call)
    (first later : List (Event Call)) :
    SameResults other ((first ++ later).foldl apply .new)
      ((first ++ .cancel call :: later).foldl apply .new) := by
  obtain ⟨h, -, hist⟩ := history_foldl_apply first
  have halike := alike_settle (alike_cancel (Ne.symm hother) (numbered_history hist))
  rw [settle_foldl] at halike
  rw [List.foldl_append, List.foldl_append, List.foldl_cons]
  exact sameResults_foldl halike later

theorem InStep.mem_results {call : Call} {s t : Session Call} (h : InStep call s t) (r : Result) :
    (call, r) ∈ t.results ↔ (call, r) ∈ s.results :=
  h.alike.mem_results r

/-- A request whose frame has been written makes no difference to the others when it is cancelled, even if
the writer fails. -/
theorem results_of_cancel {call other : Call} (hother : other ≠ call) {first : List (Event Call)}
    (hqueued : (first.foldl apply (new : Session Call)).isQueued call = false)
    (later : List (Event Call)) (r : Result) :
    (other, r) ∈ ((first ++ .cancel call :: later).foldl apply .new).results ↔
      (other, r) ∈ ((first ++ later).foldl apply .new).results := by
  obtain ⟨h, -, hist⟩ := history_foldl_apply first
  have hstep := inStep_settle (inStep_cancel (Ne.symm hother) (numbered_history hist) hqueued)
  rw [settle_foldl] at hstep
  rw [List.foldl_append, List.foldl_append, List.foldl_cons]
  exact (inStep_foldl hstep later).mem_results r

/-- Whether the frame of a request could be written makes no difference to other calls. -/
theorem results_of_failed {s : Session Call} (hs : s.Numbered) {job : Job Call}
    {rest : List (Job Call)} (hqueue : s.queue = job :: rest) {id : Nat} {call other : Call}
    (hjob : job.origin = .request id call) (hother : other ≠ call) (e : ChannelError)
    (later : List (Event Call)) (r : Result) :
    (other, r) ∈ (later.foldl apply ((s.popped job rest).written job.origin (.error e)).settle).results ↔
      (other, r) ∈ (later.foldl apply ((s.popped job rest).written job.origin (.ok ())).settle).results := by
  have hstep := inStep_written hs hqueue hjob (Ne.symm hother) (.ok ()) (.error e)
  exact (inStep_foldl (inStep_settle hstep) later).mem_results r

/-- What the entries of a session are after a history, and who can take them away. -/
structure PendingExact (h : List (Mark Call)) (s : Session Call) : Prop where
  /-- After reading has ended there are none. -/
  closed : s.closed = true → s.pending = []
  outstanding : s.closed = false → ∀ id call, (id, call) ∈ s.pending ↔ Outstanding h s id call
  distinct : (s.pending.map (·.1)).Nodup
  bounds : ∀ p ∈ s.pending, 1 ≤ p.1 ∧ p.1 < s.nextId
  /-- No id is given away twice: a request takes the next id of the session in which it starts. -/
  once : ∀ before after before' after' call call' method method' params params' s₀ s₀',
    h = before ++ .event (.request call method params) :: after → History before s₀ →
    h = before' ++ .event (.request call' method' params') :: after' → History before' s₀' →
    s₀.nextId = s₀'.nextId → before = before'
  cancel : ∀ id call other, (id, other) ∈ (s.occur (.cancel call)).pending ↔
    (id, other) ∈ s.pending ∧ other ≠ call
  failed : ∀ id call e t, Step s (.write (.request id call) (.error e)) t → ∀ n other,
    (n, other) ∈ t.pending ↔ (n, other) ∈ s.pending ∧ other ≠ call
  /-- Whether the next frame could be written makes no difference to other calls. -/
  others : ∀ (job : Job Call) rest id call other e (later : List (Event Call)) r,
    s.queue = job :: rest → job.origin = .request id call → other ≠ call →
      ((other, r) ∈ (later.foldl apply ((s.popped job rest).written job.origin (.error e)).settle).results ↔
        (other, r) ∈ (later.foldl apply ((s.popped job rest).written job.origin (.ok ())).settle).results)
  /-- A response to a request that was cancelled is read, and nothing else changes. -/
  late : ∀ before after call method params,
    h = before ++ .event (.request call method params) :: after → .event (.cancel call) ∈ after →
      ∀ m t, Answers (idAfter before) m → Step s (.message m) t → t = { s with input := t.input }

/-- The entries of a session are exact, whatever has happened to it and in whatever order, and a call that
is cancelled makes no difference to the others: if its frame has been written or the writer does not fail,
they end as if it had not been cancelled, and otherwise all of them do whose own frames are written. -/
theorem pending_exact (events : List (Event Call)) (hcalls : (events.filterMap Event.starts?).Nodup) :
    (∃ h : List (Mark Call), h.filterMap Mark.event? = events ∧ History h (events.foldl apply .new)) ∧
      (∀ h s, h.filterMap Mark.event? = events → History h s → PendingExact h s) ∧
      ∀ first later call other, events = first ++ later → other ≠ call →
        SameResults other (events.foldl apply .new)
          ((first ++ .cancel call :: later).foldl apply .new) ∧
        ((first.foldl apply .new).isQueued call = false ∨
            (∀ after message, .breakWriter after message ∉ events) →
          ∀ r, (other, r) ∈ ((first ++ .cancel call :: later).foldl apply .new).results ↔
            (other, r) ∈ (events.foldl apply .new).results) := by
  refine ⟨history_foldl_apply events, fun h s hevents hist => ?_, ?_⟩
  · have hfresh : (started h).Nodup := by
      rw [started_eq, hevents]
      exact hcalls
    -- that ids are given out once follows from their order, and the rest from the phase of each call
    have hnum := numbered_history hist
    exact {
      closed := pending_of_closed hist hfresh
      outstanding := mem_pending_iff hist hfresh
      distinct := hnum.distinct
      bounds := fun p hp => ⟨hnum.pending_pos p hp, hnum.pending_lt p hp⟩
      once := fun _ _ _ _ _ _ _ _ _ _ _ _ hsplit hist₀ hsplit' hist₀' hid => by
        rw [nextId_history hist₀, nextId_history hist₀'] at hid
        exact (idAfter_inj rfl rfl (hsplit.symm.trans hsplit') hid).1
      cancel := fun id call other => by
        show (id, other) ∈ s.pending.filter (fun p => p.2 ≠ call) ↔ _
        rw [List.mem_filter, decide_eq_true_iff]
      failed := fun _ _ _ _ hstep n other => mem_pending_of_failed hist hfresh hstep n other
      others := fun _ _ _ _ _ e later r hqueue hjob hother =>
        results_of_failed hnum hqueue hjob hother e later r
      late := fun _ _ _ _ _ hsplit hcancel m t hm hstep => by
        subst hsplit
        exact step_of_cancelled hist hfresh hcancel hm hstep }
  · intro first later call other hsplit hother
    subst hsplit
    have hsame := sameResults_of_cancel hother first later
    refine ⟨hsame, fun hcase => ?_⟩
    -- the other call can only lose its result to a write that fails, and its own frame must be concerned
    rcases hcase with hqueued | hbroken
    · exact results_of_cancel hother hqueued later
    rcases hsame with hsame | hfailed | hfailed
    · exact hsame
    · exact absurd hfailed (not_failed hbroken other)
    · refine absurd hfailed (not_failed (fun after message hmem => hbroken after message ?_) other)
      -- leaving the cancellation out breaks no writer
      rcases List.mem_append.mp hmem with hmem | hmem
      · exact List.mem_append_left _ hmem
      · exact List.mem_append_right _ (List.mem_of_ne_of_mem (by intro h; cases h) hmem)

/-- A request that is cancelled while another one waits. -/
theorem pending_exact_after_cancel :
    let events : List (Event Nat) := [.request 7 "a" .null, .request 8 "b" .null, .cancel 7]
    (events.filterMap Event.starts?).Nodup ∧ ((events.foldl apply .new).pending.map (·.1)).Nodup := by
  intro events
  have hcalls : (events.filterMap Event.starts?).Nodup := by
    show [7, 8].Nodup
    decide
  obtain ⟨⟨h, hevents, hist⟩, hall, -⟩ := pending_exact events hcalls
  exact ⟨hcalls, (hall h _ hevents hist).distinct⟩

/-- A frame that is never written leaves its bytes to the next one: the writer takes one frame only, and the
second request is answered because the first was cancelled. -/
theorem cancel_spares_bytes :
    let first : List (Event Nat) :=
      [.block, .request 7 "a" .null, .request 8 "b" .null, .breakWriter 73 "broken pipe"]
    let later : List (Event Nat) :=
      [.unblock, .receive (Frame.bytes (Message.response (.ofNat 2) (.ok .null)))]
    ((first ++ later).foldl apply .new).results = [(8, .error (.io "broken pipe"))] ∧
      ((first ++ .cancel 7 :: later).foldl apply .new).results = [(8, .ok .null)] :=
  ⟨by rfl, by rfl⟩

end Session

end IndexFs.Channel

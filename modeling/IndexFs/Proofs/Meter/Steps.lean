import IndexFs.Proofs.Meter.Counting
import IndexFs.Proofs.Meter.Phases
import IndexFs.Proofs.Meter.Transparency

/-!
# Metering is transparent and exact

Whatever happens to a meter, in whatever order calls are made, delayed, answered and given up, and however often the
counters are reset: what is said through the meter is said to the index behind it, once and in the same words, what the
index answers is returned, and the counters show what has happened since the last reset. When things are done with a
meter one after the other, it can be said in advance how each call ends and what the counters show
(`transparent_and_exact`).
-/

namespace IndexFs.Meter

/-! ## Steps -/

/-- What is done with a meter, one after the other. -/
inductive Step where
  | request (method : String) (params : Json)
  | notify (method : String) (params : Json)
  /-- Requests that are made at the same time. -/
  | together (methods : List String)
  /-- A request that is given up after a time. -/
  | abandon (method : String) (params : Json) (after : Nat)
  | reset

namespace Step

/-- The messages of the calls of a step. -/
def messages : Step → List Outgoing
  | .request method params => [.request method params]
  | .notify method params => [.notification method params]
  | .together methods => methods.map fun method => .request method .null
  | .abandon method params _ => [.request method params]
  | .reset => []

/-- The messages of the calls that are not given up in their delay. -/
def passed (delay : Nat) : Step → List Outgoing
  | .abandon method params after => if after < delay then [] else [.request method params]
  | step => step.messages

/-- How the calls of a step have to end: with the answer of the index to the same message, if it has one and they are
not given up. -/
def ends (index : Index) (delay : Nat) : Step → List (Outgoing × MeteredResult)
  | .abandon method params after =>
    let answer := if after < delay then none else index.result? (.request method params)
    [(.request method params, .ofResult .abandoned answer)]
  | step => step.messages.map fun message => (message, .ofResult .stuck (index.result? message))

end Step

/-- A request that ended with an error. -/
def isFailure : Outgoing × MeteredResult → Bool
  | (.request _ _, .answered (.error _)) => true
  | _ => false

/-- What happens in a step. -/
def events (m : Meter) : Step → List Event
  | .request method params => (m.requestEvents none (.request method params)).1
  | .notify method params => m.notifyEvents (.notification method params)
  | .together methods => (m.togetherEvents methods).1
  | .abandon method params after => (m.requestEvents (some after) (.request method params)).1
  | .reset => [.reset]

/-- The meter after a step, and how the calls of the step ended. -/
def step (m : Meter) : Step → Meter × List MeteredResult
  | .request method params => ((m.request none method params).1, [(m.request none method params).2.1])
  | .notify method params => ((m.notify method params).1, [(m.notify method params).2.1])
  | .together methods => ((m.together methods).1, (m.together methods).2.1)
  | .abandon method params after =>
    ((m.request (some after) method params).1, [(m.request (some after) method params).2.1])
  | .reset => (m.reset, [])

/-- The meter after some steps. -/
def follow (m : Meter) (steps : List Step) : Meter :=
  steps.foldl (fun m step => (m.step step).1) m

/-- What happens in some steps. -/
def history (m : Meter) : List Step → List Event
  | [] => []
  | step :: steps => m.events step ++ history (m.step step).1 steps

/-- What the counters show after these steps. -/
structure Shows (index : Index) (delay : Nat) (steps : List Step) (metrics : Metrics) : Prop where
  /-- Requests are counted by method, whatever became of them, -/
  requests : ∀ method, metrics.calls method = (steps.flatMap Step.messages).countP (requests method)
  total : metrics.total = (steps.flatMap Step.messages).countP isRequest
  notifications : metrics.notifications = (steps.flatMap Step.messages).countP fun message => !isRequest message
  /-- failures are the requests that ended with an error, -/
  failures : metrics.failures = (steps.flatMap (Step.ends index delay)).countP isFailure
  /-- and there is a delay for each request that was not given up before it was over. -/
  delayed : metrics.delayed = delay * (steps.flatMap (Step.passed delay)).countP isRequest

variable {ms : List Outgoing} {m : Meter}

theorem index_step (m : Meter) (step : Step) : (m.step step).1.index = m.index := by
  cases step <;> rfl

theorem session_step (m : Meter) (step : Step) : (m.step step).1.session = m.session.run (m.events step) := by
  cases step <;> rfl

theorem follow_concat (m : Meter) (steps : List Step) (step : Step) :
    m.follow (steps ++ [step]) = ((m.follow steps).step step).1 :=
  List.foldl_append

theorem index_follow (m : Meter) (steps : List Step) : (m.follow steps).index = m.index := by
  induction steps using List.reverseRecOn with
  | nil => rfl
  | append_singleton steps step ih => rw [follow_concat, index_step, ih]

theorem history_append (m : Meter) (steps steps' : List Step) :
    m.history (steps ++ steps') = m.history steps ++ (m.follow steps).history steps' := by
  induction steps generalizing m with
  | nil => rfl
  | cons step steps ih =>
    rw [List.cons_append, history, history, ih, List.append_assoc]
    rfl

theorem session_follow (m : Meter) (steps : List Step) :
    (m.follow steps).session = m.session.run (m.history steps) := by
  induction steps generalizing m with
  | nil => rfl
  | cons step steps ih =>
    rw [history, Session.run_append, ← session_step]
    exact ih _

theorem delay_follow (m : Meter) (steps : List Step) : (m.follow steps).delay = m.delay := by
  rw [delay, session_follow, Session.delay_run]
  rfl

/-! ## One step -/

theorem messages_calls (called : List Outgoing) (time : Nat) :
    messages (called.map .call ++ [.elapse time]) = called := by
  rw [messages_append, messages, List.filterMap_map]
  exact (List.append_nil _).trans List.filterMap_some

theorem replies_singleton (index : Index) (n : Nat) (message : Outgoing) :
    replies index (numbered n [message]) = reply index n message :=
  List.append_nil _

theorem togetherEvents_eq (m : Meter) (methods : List String) :
    let called := methods.map fun method => .request method .null
    (m.togetherEvents methods).1 =
      called.map .call ++ [.elapse (if methods.isEmpty then 0 else m.delay)] ++
        replies m.index (numbered m.session.next called) := by
  have hcalls : (m.batch methods).map (fun c => Event.call c.1) =
      (methods.map fun method => Outgoing.request method .null).map .call := by
    rw [← List.zipIdx_map_fst m.session.next (methods.map _), List.map_map]
    rfl
  have hreplies : ((m.batch methods).flatMap fun c => reply m.index c.2 c.1) =
      replies m.index (numbered m.session.next (methods.map fun method => .request method .null)) := by
    rw [replies, numbered, List.flatMap_map]
    rfl
  rw [togetherEvents, hcalls, hreplies]
  exact (List.append_assoc _ [_] _).symm

/-- The calls of a step are those that the step is about. -/
theorem messages_events (m : Meter) (step : Step) : messages (m.events step) = step.messages := by
  have hreply (n : Nat) (message : Outgoing) : messages (reply m.index n message) = [] := by
    rw [← replies_singleton, messages_replies]
  cases step with
  | request method params => exact congrArg (_ :: ·) (hreply _ _)
  | notify method params => exact congrArg (_ :: ·) (hreply _ _)
  | together methods =>
    rw [events, togetherEvents_eq, messages_append, messages_replies, messages_calls, List.append_nil]
    rfl
  | abandon method params after =>
    simp only [events, requestEvents]
    split
    · rfl
    · split <;> rfl
  | reset => rfl

/-- The calls of steps are those that the steps are about. -/
theorem messages_history (m : Meter) (steps : List Step) :
    messages (m.history steps) = steps.flatMap Step.messages := by
  induction steps generalizing m with
  | nil => rfl
  | cons step steps ih => rw [history, messages_append, messages_events, ih, List.flatMap_cons]

section

open Session

variable (hs : m.session.Sound ms) (h : m.session.delayed = [])

include hs h

/-- Calls that are made at the same time, and are waited for, are answered. -/
theorem answered_calls (called : List Outgoing) {time : Nat} (htime : called = [] ∨ m.delay ≤ time) :
    Answered m.index (numbered m.session.next called) m.session
      (m.session.run (called.map .call ++ [.elapse time] ++ replies m.index (numbered m.session.next called))) := by
  have hanswered := answered_replies hs h m.index (called.map .call ++ [.elapse time])
  rw [messages_calls] at hanswered
  refine hanswered ?_ ?_
  · intro e he
    rcases List.mem_append.mp he with he | he
    · obtain ⟨message, -, rfl⟩ := List.mem_map.mp he
      rfl
    · rw [List.mem_singleton.mp he]
      rfl
  · rw [run_concat]
    refine delayed_elapse fun d hd => ?_
    obtain ⟨hnow, hdue⟩ := due_calls h called
    rcases htime with rfl | htime
    · exact absurd (h ▸ hd) List.not_mem_nil
    · rw [hnow]
      exact Nat.le_trans (hdue d hd) (Nat.add_le_add_left htime _)

/-- What becomes of the calls of a step. -/
theorem answered_step (step : Step) :
    Answered m.index (numbered m.session.next (step.passed m.delay)) m.session (m.step step).1.session := by
  -- one request, the time that it is delayed and its answer
  have hrequest (method : String) (params : Json) :
      Answered m.index (numbered m.session.next [.request method params]) m.session
        (m.session.run ([.call (.request method params), .elapse m.delay] ++
          reply m.index m.session.next (.request method params))) := by
    rw [← replies_singleton]
    exact answered_calls hs h [.request method params] (.inr (Nat.le_refl _))
  rw [session_step]
  cases step with
  | request method params => exact hrequest method params
  | notify method params =>
    -- a notification is not delayed, so that no call waits for the time to pass
    have hpast : (m.session.apply (.call (.notification method params))).delayed = [] := by
      rw [Session.apply, wakeAll_eq]
      show m.session.delayed.filter _ = []
      rw [h, List.filter_nil]
    have hmessages : messages [.call (.notification method params)] = [.notification method params] := rfl
    have hanswered :=
      answered_replies hs h m.index [.call (.notification method params)] (by simp [Event.isOpening]) hpast
    rw [hmessages, replies_singleton] at hanswered
    exact hanswered
  | together methods =>
    rw [events, togetherEvents_eq]
    refine answered_calls hs h _ ?_
    cases methods with
    | nil => exact .inl rfl
    | cons method methods => exact .inr (Nat.le_refl _)
  | abandon method params after =>
    simp only [events, requestEvents, Step.passed]
    -- given up within the delay the request never reaches the inner client
    split
    · next hafter =>
      exact answered_given_up h m.index method params hafter
    · have hanswered := hrequest method params
      unfold reply at hanswered
      split
      · next result hresult =>
        rw [hresult] at hanswered
        exact hanswered
      · next hresult =>
        rw [hresult, List.append_nil] at hanswered
        rw [run_append]
        exact hanswered.drop _ _
  | reset =>
    -- a reset leaves the calls as they are
    have hreset : m.session.apply .reset = m.session.occur .reset := apply_of_delayed_nil h
    show Answered m.index [] m.session (m.session.apply .reset)
    rw [hreset]
    exact ⟨h, ⟨[], (List.append_nil _).symm, .refl _⟩, (List.append_nil _).symm⟩

/-- The calls of a step end as they have to. -/
theorem results_step (step : Step) : (m.step step).2 = (step.ends m.index m.delay).map Prod.snd := by
  have hanswered := answered_step hs h step
  have hsound := sound_run hs (m.events step)
  rw [session_step] at hanswered
  have hresult (n : Nat) (message : Outgoing) (hmem : (n, message) ∈ numbered m.session.next (step.passed m.delay)) :
      (m.session.run (m.events step)).result? n = m.index.result? message :=
    hanswered.result? hs hsound hmem
  cases step with
  | request method params =>
    have hanswer := hresult m.session.next (.request method params) List.mem_cons_self
    exact congrArg (fun answer => [MeteredResult.ofResult .stuck answer]) hanswer
  | notify method params =>
    have hanswer := hresult m.session.next (.notification method params) List.mem_cons_self
    exact congrArg (fun answer => [MeteredResult.ofResult .stuck answer]) hanswer
  | together methods =>
    have hbatch : ∀ c ∈ m.batch methods, (m.session.run (m.togetherEvents methods).1).result? c.2 =
        m.index.result? c.1 := fun c hc => hresult c.2 c.1 (List.mem_map_of_mem (f := Prod.swap) hc)
    have hresults : (m.together methods).2.1 =
        ((m.batch methods).map Prod.fst).map fun message => .ofResult .stuck (m.index.result? message) := by
      rw [List.map_map]
      exact List.map_congr_left fun c hc => congrArg _ (hbatch c hc)
    have hends : ((Step.together methods).ends m.index m.delay).map Prod.snd =
        (methods.map fun method => Outgoing.request method .null).map fun message =>
          .ofResult .stuck (m.index.result? message) := List.map_map
    rw [hends, ← List.zipIdx_map_fst m.session.next (methods.map _)]
    exact hresults
  | abandon method params after =>
    -- the request that was given up within the delay has no result
    have hanswer : (m.session.run (m.events (.abandon method params after))).result? m.session.next =
        if after < m.delay then none else m.index.result? (.request method params) := by
      split
      · next hafter =>
        rw [Step.passed, if_pos hafter] at hanswered
        exact hanswered.result?_eq_none hs hsound
      · next hafter =>
        refine hresult _ _ ?_
        rw [Step.passed, if_neg hafter]
        exact List.mem_cons_self
    exact congrArg (fun answer => [MeteredResult.ofResult .abandoned answer]) hanswer
  | reset => rfl

end

/-! ## Failures -/

/-- The index answers a request with an error. -/
def fails (index : Index) (message : Outgoing) : Bool :=
  isRequest message && ((index.result? message).map fun result => !result.isOk).getD false

theorem countP_returns (index : Index) (n : Nat) (messages : List Outgoing) :
    (returns index (numbered n messages)).countP Returned.isFailure = messages.countP (fails index) := by
  have hfails : (fun c : Nat × Outgoing =>
      (((index.result? c.2).map fun result => ⟨c.1, c.2, result⟩).map Returned.isFailure).getD false) =
        fails index ∘ Prod.snd := by
    funext c
    rw [Function.comp_apply, fails]
    cases index.result? c.2 with
    | none => exact (Bool.and_false _).symm
    | some result => rfl
  rw [returns, List.countP_filterMap, hfails, ← List.countP_map, numbered_snd]

theorem isFailure_ofResult (index : Index) (message : Outgoing) (otherwise : MeteredResult)
    (h : ∀ result, otherwise ≠ .answered result) :
    isFailure (message, .ofResult otherwise (index.result? message)) = fails index message := by
  rw [fails]
  cases index.result? message with
  | none =>
    cases otherwise with
    | answered result => exact absurd rfl (h result)
    | abandoned => cases message <;> rfl
    | stuck => cases message <;> rfl
  | some result => cases message <;> cases result <;> rfl

/-- The requests that end with an error are those for which the index has returned one. -/
theorem failures_step (index : Index) (delay : Nat) (step : Step) :
    (step.ends index delay).countP isFailure = (step.passed delay).countP (fails index) := by
  have hmessages (messages : List Outgoing) :
      (messages.map fun message => (message, MeteredResult.ofResult .stuck (index.result? message))).countP isFailure =
        messages.countP (fails index) := by
    rw [List.countP_map]
    exact List.countP_congr fun message _ => by rw [Function.comp_apply, isFailure_ofResult _ _ .stuck nofun]
  cases step with
  | abandon method params after =>
    rw [Step.ends, Step.passed]
    split
    · rfl
    · rw [List.countP_singleton, List.countP_singleton, isFailure_ofResult _ _ .abandoned nofun]
  | _ => exact hmessages _

/-! ## All steps -/

/-- What some steps add to what has reached the index, and to what was returned. -/
structure Adds (index : Index) (delay : Nat) (steps : List Step) (s s' : Session) : Prop where
  delayed : s'.delayed = []
  reached : ∃ passed, s'.reached = s.reached ++ passed ∧
    (passed.map Prod.snd).Perm (steps.flatMap (Step.passed delay))
  returned : ∃ ended, s'.returned = s.returned ++ ended ∧
    ended.countP Returned.isFailure = (steps.flatMap (Step.ends index delay)).countP isFailure

theorem adds_step (hs : m.session.Sound ms) (h : m.session.delayed = []) (step : Step) :
    Adds m.index m.delay [step] m.session (m.step step).1.session := by
  have hanswered := answered_step hs h step
  obtain ⟨passed, hreached, hperm⟩ := hanswered.reached
  refine ⟨hanswered.delayed, ⟨passed, hreached, ?_⟩, ⟨_, hanswered.returned, ?_⟩⟩
  · rw [List.flatMap_singleton, ← numbered_snd m.session.next (step.passed m.delay)]
    exact hperm.map Prod.snd
  · rw [List.flatMap_singleton, countP_returns, failures_step]

theorem Adds.trans {index : Index} {delay : Nat} {steps steps' : List Step} {s₁ s₂ s₃ : Session}
    (h : Adds index delay steps s₁ s₂) (h' : Adds index delay steps' s₂ s₃) :
    Adds index delay (steps ++ steps') s₁ s₃ := by
  obtain ⟨-, ⟨passed, hreached, hperm⟩, ⟨ended, hreturned, hfailures⟩⟩ := h
  obtain ⟨hdelayed, ⟨passed', hreached', hperm'⟩, ⟨ended', hreturned', hfailures'⟩⟩ := h'
  refine ⟨hdelayed, ⟨passed ++ passed', ?_, ?_⟩, ⟨ended ++ ended', ?_, ?_⟩⟩
  · rw [hreached', hreached, List.append_assoc]
  · rw [List.map_append, List.flatMap_append]
    exact hperm.append hperm'
  · rw [hreturned', hreturned, List.append_assoc]
  · rw [List.countP_append, hfailures, hfailures', List.flatMap_append, List.countP_append]

theorem adds_follow (hs : m.session.Sound ms) (h : m.session.delayed = []) (steps : List Step) :
    Adds m.index m.delay steps m.session (m.follow steps).session := by
  induction steps using List.reverseRecOn with
  | nil => exact ⟨h, ⟨[], (List.append_nil _).symm, .refl _⟩, ⟨[], (List.append_nil _).symm, rfl⟩⟩
  | append_singleton steps step ih =>
    have hsound := Session.sound_run hs (m.history steps)
    rw [← session_follow] at hsound
    have hstep := adds_step hsound ih.delayed step
    rw [index_follow, delay_follow] at hstep
    rw [follow_concat]
    exact ih.trans hstep

theorem reset_notMem_reply (index : Index) (n : Nat) (message : Outgoing) : .reset ∉ reply index n message := by
  unfold reply
  split <;> simp

/-- The counters are reset only by a step that does it. -/
theorem reset_mem_events {step : Step} (h : .reset ∈ m.events step) : step = .reset := by
  cases step with
  | reset => rfl
  | request method params =>
    simp [events, requestEvents, reset_notMem_reply] at h
  | notify method params =>
    simp [events, notifyEvents, reset_notMem_reply] at h
  | together methods =>
    simp [events, togetherEvents, reset_notMem_reply] at h
  | abandon method params after =>
    simp only [events, requestEvents] at h
    split at h
    · simp at h
    · split at h <;> simp at h

theorem reset_mem_history {steps : List Step} (h : .reset ∈ m.history steps) : .reset ∈ steps := by
  induction steps generalizing m with
  | nil => cases h
  | cons step steps ih =>
    rw [history] at h
    rcases List.mem_append.mp h with h | h
    · rw [reset_mem_events h]
      exact List.mem_cons_self
    · exact List.mem_cons_of_mem _ (ih h)

/-- The counters show what was done since they were at zero. -/
theorem shows_follow (hs : m.session.Sound ms) (h : m.session.delayed = []) (hzero : m.metrics = .zero)
    {steps : List Step} (hsteps : .reset ∉ steps) :
    Shows m.index m.delay steps (m.follow steps).metrics := by
  have hcounts := Session.counts_run hs fun hmem => hsteps (reset_mem_history (m := m) hmem)
  rw [← session_follow] at hcounts
  obtain ⟨-, ⟨passed, hreached, hperm⟩, ⟨ended, hreturned, hended⟩⟩ := adds_follow hs h steps
  obtain ⟨passed', hreached', hdelayed⟩ := hcounts.delayed
  obtain ⟨ended', hreturned', hfailures⟩ := hcounts.failures
  obtain rfl := List.append_cancel_left (hreached.symm.trans hreached')
  obtain rfl := List.append_cancel_left (hreturned.symm.trans hreturned')
  -- the counters start at zero, so that each of them is the count of what came since
  have hpassed : passed.countP (fun c => isRequest c.2) = (steps.flatMap (Step.passed m.delay)).countP isRequest := by
    rw [← hperm.countP_eq, List.countP_map]
    rfl
  have hmetrics : m.session.metrics = .zero := hzero
  rw [hmetrics] at hdelayed hfailures
  refine ⟨fun method => ?_, ?_, ?_, ?_, ?_⟩
  · rw [metrics, hcounts.requests, hmetrics, messages_history]
    exact Nat.zero_add _
  · rw [metrics, hcounts.total, hmetrics, messages_history]
    exact Nat.zero_add _
  · rw [metrics, hcounts.notifications, hmetrics, messages_history]
    exact Nat.zero_add _
  · rw [metrics, hfailures, hended]
    exact Nat.zero_add _
  · rw [metrics, hdelayed, hpassed]
    exact Nat.zero_add _

theorem metrics_follow_eq_zero {index : Index} {delay : Nat} {steps : List Step}
    (h : steps = [] ∨ steps.getLast? = some .reset) : ((new index delay).follow steps).metrics = .zero := by
  rw [metrics, session_follow]
  refine Session.metrics_eq_zero ?_
  rcases h with rfl | h
  · exact .inl rfl
  · obtain ⟨before, rfl⟩ := List.getLast?_eq_some_iff.mp h
    rw [history_append]
    exact .inr (List.getLast?_concat ..)

/-- What comes of steps with a meter. -/
structure Exact (index : Index) (delay : Nat) (steps : List Step) : Prop where
  /-- What happens are calls with the messages of the steps, -/
  session : ((new index delay).follow steps).session = (Session.new delay).run ((new index delay).history steps)
  messages : messages ((new index delay).history steps) = steps.flatMap Step.messages
  /-- each call that is not given up in its delay reaches the index once, and others do not, -/
  reached : (((new index delay).follow steps).session.reached.map Prod.snd).Perm (steps.flatMap (Step.passed delay))
  /-- the calls of a further step end as they have to, -/
  results : ∀ step, (((new index delay).follow steps).step step).2 = (step.ends index delay).map Prod.snd
  /-- and the counters show what was done since they were reset. -/
  counted : ∀ before since, steps = before ++ since → before = [] ∨ before.getLast? = some .reset → .reset ∉ since →
    Shows index delay since ((new index delay).follow steps).metrics

theorem exact_follow (index : Index) (delay : Nat) (steps : List Step) : Exact index delay steps := by
  have hsound (steps : List Step) :
      Session.Sound (messages ((new index delay).history steps)) ((new index delay).follow steps).session := by
    rw [session_follow]
    exact Session.sound_run (Session.sound_new delay) _
  have hadds (steps : List Step) := adds_follow (m := new index delay) (Session.sound_new delay) rfl steps
  refine ⟨session_follow _ steps, messages_history _ steps, ?_, fun step => ?_, ?_⟩
  · obtain ⟨passed, hreached, hperm⟩ := (hadds steps).reached
    rw [hreached]
    exact hperm
  · have hresults := results_step (hsound steps) (hadds steps).delayed step
    rwa [index_follow, delay_follow] at hresults
  · rintro before since rfl hbefore hsince
    have hshows := shows_follow (hsound before) (hadds before).delayed (metrics_follow_eq_zero hbefore) hsince
    rwa [index_follow, delay_follow, follow, follow, ← List.foldl_append] at hshows

/-- Metering is transparent and exact. -/
theorem transparent_and_exact (index : Index) (delay : Nat) :
    (∀ es, Transparent delay es) ∧
      (∀ before after, before = [] ∨ before.getLast? = some .reset → .reset ∉ after →
        ((Session.new delay).run before).metrics = .zero ∧
          ((Session.new delay).run before).Counts ((Session.new delay).run (before ++ after)) after) ∧
      ∀ steps, Exact index delay steps := by
  refine ⟨transparent delay, fun before after hbefore hafter => ⟨Session.metrics_eq_zero hbefore, ?_⟩,
    exact_follow index delay⟩
  rw [Session.run_append]
  exact Session.counts_run (Session.sound_run (Session.sound_new delay) before) hafter

/-- Counters that were reset while requests are made, given up, and fail. -/
theorem transparent_and_exact_after_reset :
    let index : Index := fun message => .answer (if message.method = "fail" then .error .closed else .ok .null)
    let m := (new index 10).follow [.request "fail" .null, .reset, .abandon "stat" .null 5, .together ["stat", "fail"]]
    m.metrics.calls "stat" = 2 ∧ m.metrics.failures = 1 ∧ m.metrics.delayed = 20 ∧
      (m.step (.request "stat" .null)).2 = [.answered (.ok .null)] := by
  intro index m
  have hexact := (transparent_and_exact index 10).2.2
    [.request "fail" .null, .reset, .abandon "stat" .null 5, .together ["stat", "fail"]]
  have hshows := hexact.counted [.request "fail" .null, .reset] [.abandon "stat" .null 5, .together ["stat", "fail"]]
    rfl (.inr rfl) (by simp)
  exact ⟨hshows.requests "stat", hshows.failures, hshows.delayed, hexact.results _⟩

end IndexFs.Meter

import IndexFs.Proofs.Meter.Calls
import Mathlib.Data.List.Perm.Subperm

/-!
# What a meter counts

Each event adds to the counters what it is: a request of its method or a notification when the call is made, the delay
when a request goes on, a failure when a request ends with an error (`Session.counts_run`). So do all events together
since the counters were reset. So the counters stay below the number of calls (`Session.metrics_within`).
-/

namespace IndexFs

namespace Meter

/-- A request of this method. -/
def requests (method : String) : Outgoing → Bool
  | .request m _ => m = method
  | .notification _ _ => false

/-- A request ended with an error. -/
def Returned.isFailure (r : Returned) : Bool :=
  Meter.isRequest r.message && !r.result.isOk

end Meter

namespace Metrics

theorem lookup_bump (method : String) (counts : List (String × Nat)) (m : String) :
    ((bump method counts).lookup m).getD 0 = (counts.lookup m).getD 0 + if method = m then 1 else 0 := by
  induction counts with
  | nil =>
    rw [bump, List.lookup_cons]
    by_cases hm : method = m
    · simp [hm]
    · have hbeq : (m == method) = false := beq_false_of_ne (Ne.symm hm)
      simp [hm, hbeq]
  -- the method is at the head of the list, or further down
  | cons c counts ih =>
    obtain ⟨k, n⟩ := c
    rw [bump]
    by_cases hk : k = method
    · subst hk
      rw [if_pos rfl, List.lookup_cons, List.lookup_cons]
      by_cases hm : k = m
      · simp [hm]
      · have hbeq : (m == k) = false := beq_false_of_ne (Ne.symm hm)
        simp [hm, hbeq]
    · rw [if_neg hk, List.lookup_cons, List.lookup_cons]
      by_cases hm : m = k
      · subst hm
        simp [Ne.symm hk]
      · have hbeq : (m == k) = false := beq_false_of_ne hm
        rw [hbeq]
        exact ih

theorem calls_countRequest (metrics : Metrics) (method m : String) :
    (metrics.countRequest method).calls m = metrics.calls m + if method = m then 1 else 0 :=
  lookup_bump method metrics.requests m

theorem foldl_succ (counts : List (String × Nat)) (n : Nat) :
    counts.foldl (fun n counted => n + counted.2) (n + 1) = counts.foldl (fun n counted => n + counted.2) n + 1 := by
  induction counts generalizing n with
  | nil => rfl
  | cons c counts ih => rw [List.foldl_cons, List.foldl_cons, Nat.add_right_comm, ih]

theorem foldl_bump (method : String) (counts : List (String × Nat)) (n : Nat) :
    (bump method counts).foldl (fun n counted => n + counted.2) n =
      counts.foldl (fun n counted => n + counted.2) n + 1 := by
  induction counts generalizing n with
  | nil => rfl
  | cons c counts ih =>
    rw [bump]
    split
    · rw [List.foldl_cons, List.foldl_cons, ← Nat.add_assoc, foldl_succ]
    · exact ih _

theorem total_countRequest (metrics : Metrics) (method : String) :
    (metrics.countRequest method).total = metrics.total + 1 :=
  foldl_bump method metrics.requests 0

/-- No counter is greater than the number of calls, and the delays are those of so many calls at most. -/
structure Within (m : Metrics) (calls delay : Nat) : Prop where
  requests : ∀ method, m.calls method ≤ calls
  total : m.total ≤ calls
  notifications : m.notifications ≤ calls
  failures : m.failures ≤ calls
  delayed : m.delayed ≤ delay * calls

theorem Within.mono {m : Metrics} {calls calls' delay : Nat} (h : m.Within calls delay) (hle : calls ≤ calls') :
    m.Within calls' delay where
  requests method := Nat.le_trans (h.requests method) hle
  total := Nat.le_trans h.total hle
  notifications := Nat.le_trans h.notifications hle
  failures := Nat.le_trans h.failures hle
  delayed := Nat.le_trans h.delayed (Nat.mul_le_mul_left delay hle)

end Metrics

namespace Meter.Session

/-- What is counted from one moment to a later one, by the events between them: calls by what they are, delays by the
requests that went on, and failures by what was returned. -/
structure Counts (s s' : Session) (es : List Event) : Prop where
  delay : s'.delay = s.delay
  requests : ∀ method, s'.metrics.calls method = s.metrics.calls method + (messages es).countP (Meter.requests method)
  total : s'.metrics.total = s.metrics.total + (messages es).countP isRequest
  notifications :
    s'.metrics.notifications = s.metrics.notifications + (messages es).countP fun message => !isRequest message
  delayed : ∃ passed, s'.reached = s.reached ++ passed ∧
    s'.metrics.delayed = s.metrics.delayed + s.delay * passed.countP fun c => isRequest c.2
  failures : ∃ ended, s'.returned = s.returned ++ ended ∧
    s'.metrics.failures = s.metrics.failures + ended.countP Returned.isFailure

/-- Nothing is counted where nothing goes on and nothing ends. -/
theorem Counts.of_eq {s s' : Session} {es : List Event} (hes : messages es = []) (hdelay : s'.delay = s.delay)
    (hmetrics : s'.metrics = s.metrics) (hreached : s'.reached = s.reached) (hreturned : s'.returned = s.returned) :
    Counts s s' es where
  delay := hdelay
  requests method := by rw [hes, hmetrics]; rfl
  total := by rw [hes, hmetrics]; rfl
  notifications := by rw [hes, hmetrics]; rfl
  delayed := ⟨[], by rw [hreached, List.append_nil], by rw [hmetrics]; rfl⟩
  failures := ⟨[], by rw [hreturned, List.append_nil], by rw [hmetrics]; rfl⟩

theorem Counts.trans {s₁ s₂ s₃ : Session} {es es' : List Event} (h : Counts s₁ s₂ es) (h' : Counts s₂ s₃ es') :
    Counts s₁ s₃ (es ++ es') := by
  obtain ⟨hdelay, hrequests, htotal, hnotifications, ⟨passed, hreached, hdelayed⟩, ⟨ended, hreturned, hfailures⟩⟩ := h
  obtain ⟨hdelay', hrequests', htotal', hnotifications', ⟨passed', hreached', hdelayed'⟩,
    ⟨ended', hreturned', hfailures'⟩⟩ := h'
  refine ⟨hdelay'.trans hdelay, fun method => ?_, ?_, ?_, ⟨passed ++ passed', ?_, ?_⟩, ⟨ended ++ ended', ?_, ?_⟩⟩
  · rw [hrequests', hrequests, messages_append, List.countP_append, Nat.add_assoc]
  · rw [htotal', htotal, messages_append, List.countP_append, Nat.add_assoc]
  · rw [hnotifications', hnotifications, messages_append, List.countP_append, Nat.add_assoc]
  · rw [hreached', hreached, List.append_assoc]
  · rw [hdelayed', hdelayed, hdelay, List.countP_append, Nat.mul_add, Nat.add_assoc]
  · rw [hreturned', hreturned, List.append_assoc]
  · rw [hfailures', hfailures, List.countP_append, Nat.add_assoc]

variable {ms : List Outgoing} {s : Session}

/-- Requests that go on count their delays. -/
theorem counts_wakeAll (h : Sound ms s) : Counts s s.wakeAll [] := by
  rw [wakeAll_eq]
  refine ⟨rfl, fun _ => rfl, rfl, rfl, ⟨_, rfl, ?_⟩, ⟨[], (List.append_nil _).symm, rfl⟩⟩
  have hrequests : (s.ready.map fun d => (d.call, d.message)).countP (fun c => isRequest c.2) = s.ready.length := by
    rw [List.countP_map, List.countP_eq_length]
    exact fun d hd => (h.delayed_own d (List.mem_of_mem_filter hd)).2
  rw [hrequests]

theorem counts_start (s : Session) (message : Outgoing) : Counts s (s.start message) [.call message] := by
  cases message with
  | request method params =>
    refine ⟨rfl, fun m => ?_, ?_, rfl, ⟨[], (List.append_nil _).symm, rfl⟩, ⟨[], (List.append_nil _).symm, rfl⟩⟩
    · have hcount : (messages [.call (.request method params)]).countP (Meter.requests m) =
          if method = m then 1 else 0 := by
        simp [messages, Event.message?, Meter.requests, List.countP_singleton]
      rw [hcount]
      exact Metrics.calls_countRequest s.metrics method m
    · exact Metrics.total_countRequest s.metrics method
  | notification method params =>
    refine ⟨rfl, fun m => rfl, rfl, rfl, ⟨[_], rfl, ?_⟩, ⟨[], (List.append_nil _).symm, rfl⟩⟩
    rfl

/-- Requests that end with an error count as failures. -/
theorem counts_answer (h : Sound ms s) (call : Nat) (result : Except ChannelError Json) :
    Counts s (s.answer call result) [.answer call result] := by
  rcases answer_cases h call result with ⟨-, heq⟩ | ⟨before, message, after, hasked, heq⟩
  · rw [heq]
    exact .of_eq rfl rfl rfl rfl rfl
  · rw [heq]
    cases message <;> cases result <;>
      exact ⟨rfl, fun _ => rfl, rfl, rfl, ⟨[], (List.append_nil _).symm, rfl⟩, ⟨[_], rfl, rfl⟩⟩

theorem counts_occur (h : Sound ms s) {e : Event} (he : e ≠ .reset) : Counts s (s.occur e) [e] := by
  cases e with
  | call message => exact counts_start s message
  | answer call result => exact counts_answer h call result
  | drop call => exact .of_eq rfl rfl rfl rfl rfl
  | elapse time => exact .of_eq rfl rfl rfl rfl rfl
  | reset => exact absurd rfl he

theorem counts_run (h : Sound ms s) {es : List Event} (hes : .reset ∉ es) : Counts s (s.run es) es := by
  induction es using List.reverseRecOn with
  | nil => exact .of_eq rfl rfl rfl rfl rfl
  | append_singleton es e ih =>
    rw [List.mem_append, not_or] at hes
    have hsound := sound_run h es
    have hoccur := counts_occur hsound fun heq => hes.2 (heq ▸ List.mem_singleton_self e)
    rw [run_concat]
    exact (ih hes.1).trans (hoccur.trans (counts_wakeAll (hsound.occur e)))

/-- Nothing is counted when the counters are reset. -/
theorem metrics_reset (h : s.Awake) : (s.apply .reset).metrics = .zero := by
  have hawake : (s.occur .reset).Awake := h
  rw [Session.apply, wakeAll_of_awake hawake]
  rfl

/-- The counters are at zero in the beginning, and when they were reset. -/
theorem metrics_eq_zero {delay : Nat} {es : List Event} (h : es = [] ∨ es.getLast? = some .reset) :
    ((new delay).run es).metrics = .zero := by
  rcases h with rfl | h
  · rfl
  · obtain ⟨before, rfl⟩ := List.getLast?_eq_some_iff.mp h
    rw [run_concat]
    exact metrics_reset (awake_run (awake_new delay) before)

/-! ## Bounds -/

/-- The calls that have reached the channel behind the meter are not more than those that were made. -/
theorem Sound.length_reached_le (h : Sound ms s) : s.reached.length ≤ ms.length := by
  have hnodup : (s.reached.map Prod.fst).Nodup := (List.nodup_append.mp h.apart).2.1
  have hmade : s.reached.map Prod.fst ⊆ List.range ms.length := by
    intro n hn
    obtain ⟨c, hc, rfl⟩ := List.mem_map.mp hn
    exact List.mem_range.mpr (List.getElem?_eq_some_iff.mp (h.reached_own c hc)).1
  have hle := (List.subperm_of_subset hnodup hmade).length_le
  rwa [List.length_map, List.length_range] at hle

/-- The calls that have ended are not more than those that have reached the channel. -/
theorem Sound.length_returned_le (h : Sound ms s) : s.returned.length ≤ s.reached.length := by
  have hnodup : (s.returned.map Returned.call).Nodup := (List.nodup_append.mp h.once).2.1
  have hreached : s.returned.map Returned.call ⊆ s.reached.map Prod.fst := by
    intro n hn
    obtain ⟨r, hr, rfl⟩ := List.mem_map.mp hn
    exact List.mem_map.mpr ⟨_, h.returned_reached r hr, rfl⟩
  have hle := (List.subperm_of_subset hnodup hreached).length_le
  rwa [List.length_map, List.length_map] at hle

/-- The events since the counters were last at zero. -/
theorem exists_since_reset (es : List Event) :
    ∃ before after, es = before ++ after ∧ (before = [] ∨ before.getLast? = some .reset) ∧ .reset ∉ after := by
  induction es using List.reverseRecOn with
  | nil => exact ⟨[], [], rfl, .inl rfl, List.not_mem_nil⟩
  | append_singleton es e ih =>
    by_cases he : e = .reset
    · exact ⟨es ++ [e], [], (List.append_nil _).symm, .inr (by rw [he, List.getLast?_concat]), List.not_mem_nil⟩
    · obtain ⟨before, after, rfl, hbefore, hafter⟩ := ih
      refine ⟨before, after ++ [e], List.append_assoc _ _ _, hbefore, fun hmem => ?_⟩
      rcases List.mem_append.mp hmem with hmem | hmem
      · exact hafter hmem
      · exact he (List.mem_singleton.mp hmem).symm

/-- The counters of a meter never exceed the number of calls. -/
theorem metrics_within (delay : Nat) (es : List Event) :
    ((new delay).run es).metrics.Within (messages es).length delay := by
  obtain ⟨before, after, rfl, hzero, hafter⟩ := exists_since_reset es
  have hsound := sound_run (sound_new delay) before
  have hall := sound_run hsound after
  rw [List.nil_append, ← messages_append] at hall
  have hmade : ∀ p, (messages after).countP p ≤ (messages (before ++ after)).length := by
    intro p
    rw [messages_append, List.length_append]
    exact Nat.le_trans List.countP_le_length (Nat.le_add_left _ _)
  -- what was counted since the counters were at zero
  obtain ⟨-, hrequests, htotal, hnotifications, ⟨passed, hreached, hdelayed⟩, ⟨ended, hreturned, hfailures⟩⟩ :=
    counts_run hsound hafter
  rw [metrics_eq_zero hzero] at hrequests htotal hnotifications hdelayed hfailures
  have hreachedAll := hall.length_reached_le
  have hreturnedAll := hall.length_returned_le
  rw [hreached, List.length_append] at hreachedAll hreturnedAll
  rw [hreturned, List.length_append] at hreturnedAll
  have hpassed : passed.countP (fun c => isRequest c.2) ≤ passed.length := List.countP_le_length
  have hended : ended.countP Returned.isFailure ≤ ended.length := List.countP_le_length
  rw [run_append]
  refine ⟨fun method => ?_, ?_, ?_, ?_, ?_⟩
  · rw [hrequests, show Metrics.zero.calls method = 0 from rfl, Nat.zero_add]
    exact hmade _
  · rw [htotal, show Metrics.zero.total = 0 from rfl, Nat.zero_add]
    exact hmade _
  · rw [hnotifications, show Metrics.zero.notifications = 0 from rfl, Nat.zero_add]
    exact hmade _
  · rw [hfailures, show Metrics.zero.failures = 0 from rfl]
    omega
  · rw [hdelayed, delay_run, show Metrics.zero.delayed = 0 from rfl, Nat.zero_add]
    exact Nat.mul_le_mul_left delay (by omega)

/-- With fewer than `2 ^ 64` calls the counters are words of 64 bits, and all delays together are less than `2 ^ 64`
seconds if one for each call would be. -/
theorem metrics_fit {delay : Nat} {es : List Event} (hcalls : (messages es).length < UInt64.size)
    (htime : delay * (messages es).length < 1000 * UInt64.size) :
    ((new delay).run es).metrics.Within (UInt64.size - 1) delay ∧
      ((new delay).run es).metrics.delayed < 1000 * UInt64.size := by
  have hwithin := metrics_within delay es
  exact ⟨hwithin.mono (Nat.le_pred_of_lt hcalls), Nat.lt_of_le_of_lt hwithin.delayed htime⟩

end Meter.Session

end IndexFs

import IndexFs.Meter.Session
import Mathlib.Data.List.Induction
import Mathlib.Data.List.Nodup

/-!
# What becomes of a call

At every moment each call is at one place: in its delay, with the channel behind the meter, or back with its caller, or
its caller has given up. What goes from place to place is the message of the call (`Session.Sound`).
-/

namespace IndexFs.Meter

/-- The message of a call that is made. -/
def Event.message? : Event → Option Outgoing
  | .call message => some message
  | _ => none

/-- The messages of all calls; the number of a call is its place. -/
def messages (es : List Event) : List Outgoing :=
  es.filterMap Event.message?

/-- How much time an event takes. -/
def Event.time : Event → Nat
  | .elapse time => time
  | _ => 0

/-- How much time passes. -/
def elapsed : List Event → Nat
  | [] => 0
  | e :: es => e.time + elapsed es

/-- Whether a message is answered, and so delayed. -/
def isRequest : Outgoing → Bool
  | .request _ _ => true
  | .notification _ _ => false

theorem messages_append (es es' : List Event) : messages (es ++ es') = messages es ++ messages es' :=
  List.filterMap_append

namespace Session

/-! ## Requests whose delay is over -/

/-- The requests whose delay is over. -/
def ready (s : Session) : List Delayed :=
  s.delayed.filter fun d => d.due ≤ s.now

/-- What becomes of requests that go on one after the other. -/
theorem foldl_wake (ds : List Delayed) (s : Session) :
    ds.foldl wake s =
      { s with
        metrics := { s.metrics with delayed := s.metrics.delayed + s.delay * ds.length }
        asked := s.asked ++ ds.map fun d => (d.call, d.message)
        reached := s.reached ++ ds.map fun d => (d.call, d.message) } := by
  induction ds generalizing s with
  | nil => simp
  | cons d ds ih =>
    rw [List.foldl_cons, ih]
    simp [wake, ask, Metrics.countDelay, Nat.mul_add]
    omega

/-- What becomes of all requests whose delay is over, in one step. -/
theorem wakeAll_eq (s : Session) :
    s.wakeAll =
      { s with
        metrics := { s.metrics with delayed := s.metrics.delayed + s.delay * s.ready.length }
        delayed := s.delayed.filter fun d => s.now < d.due
        asked := s.asked ++ s.ready.map fun d => (d.call, d.message)
        reached := s.reached ++ s.ready.map fun d => (d.call, d.message) } := by
  rw [wakeAll, foldl_wake]
  rfl

/-- The requests in their delay are those whose delay is over, and the others. -/
theorem ready_append_perm (s : Session) : (s.ready ++ s.delayed.filter fun d => s.now < d.due).Perm s.delayed := by
  have hrest : (fun d : Delayed => decide (s.now < d.due)) = fun d => !decide (d.due ≤ s.now) := by
    funext d
    rw [← decide_not, decide_eq_decide, Nat.not_le]
  rw [hrest]
  exact List.filter_append_perm _ s.delayed

/-! ## Where calls are -/

/-- What holds between two events, where the messages of the calls are these. -/
structure Sound (ms : List Outgoing) (s : Session) : Prop where
  next : s.next = ms.length
  delayed_own : ∀ d ∈ s.delayed, ms[d.call]? = some d.message ∧ isRequest d.message
  reached_own : ∀ c ∈ s.reached, ms[c.1]? = some c.2
  /-- No call is in its delay and beyond it, or at one place twice. -/
  apart : (s.delayed.map Delayed.call ++ s.reached.map Prod.fst).Nodup
  asked_reached : ∀ c ∈ s.asked, c ∈ s.reached
  returned_reached : ∀ r ∈ s.returned, (r.call, r.message) ∈ s.reached
  /-- No call waits and has ended, or does so twice. -/
  once : (s.asked.map Prod.fst ++ s.returned.map Returned.call).Nodup

/-- No call was made. -/
theorem sound_new (delay : Nat) : (new delay).Sound [] where
  next := rfl
  delayed_own := nofun
  reached_own := nofun
  apart := List.nodup_nil
  asked_reached := nofun
  returned_reached := nofun
  once := List.nodup_nil

variable {ms : List Outgoing} {s : Session}

theorem getElem?_append_of_some {α : Type} {xs : List α} {n : Nat} {x : α} (h : xs[n]? = some x) (ys : List α) :
    (xs ++ ys)[n]? = some x := by
  rw [List.getElem?_append_left (List.getElem?_eq_some_iff.mp h).1, h]

/-- The number of the next call is that of none. -/
theorem Sound.next_notMem (h : Sound ms s) : s.next ∉ s.delayed.map Delayed.call ++ s.reached.map Prod.fst := by
  intro hmem
  have hlt : s.next < ms.length := by
    rcases List.mem_append.mp hmem with hmem | hmem
    · obtain ⟨d, hd, hcall⟩ := List.mem_map.mp hmem
      exact hcall ▸ (List.getElem?_eq_some_iff.mp (h.delayed_own d hd).1).1
    · obtain ⟨c, hc, hcall⟩ := List.mem_map.mp hmem
      exact hcall ▸ (List.getElem?_eq_some_iff.mp (h.reached_own c hc)).1
  rw [h.next] at hlt
  exact Nat.lt_irrefl _ hlt

/-- A call that waits or has ended has reached the channel behind the meter. -/
theorem Sound.once_reached (h : Sound ms s) {n : Nat}
    (hn : n ∈ s.asked.map Prod.fst ++ s.returned.map Returned.call) : n ∈ s.reached.map Prod.fst := by
  rcases List.mem_append.mp hn with hn | hn
  · obtain ⟨c, hc, rfl⟩ := List.mem_map.mp hn
    exact List.mem_map_of_mem (h.asked_reached c hc)
  · obtain ⟨r, hr, rfl⟩ := List.mem_map.mp hn
    exact List.mem_map.mpr ⟨_, h.returned_reached r hr, rfl⟩

/-- Requests that go on leave their delay for the channel. -/
theorem Sound.wakeAll (h : Sound ms s) : Sound ms s.wakeAll := by
  have hready : ∀ d ∈ s.ready, d ∈ s.delayed := fun d hd => List.mem_of_mem_filter hd
  rw [wakeAll_eq]
  refine ⟨h.next, ?_, ?_, ?_, ?_, ?_, ?_⟩
  · intro d hd
    exact h.delayed_own d (List.mem_of_mem_filter hd)
  · intro c hc
    rcases List.mem_append.mp hc with hc | hc
    · exact h.reached_own c hc
    · obtain ⟨d, hd, rfl⟩ := List.mem_map.mp hc
      exact (h.delayed_own d (hready d hd)).1
  · -- a request that has gone on is no longer in its delay
    rw [List.map_append, List.map_map]
    have hperm := (s.ready_append_perm.map Delayed.call).append_left (s.reached.map Prod.fst)
    rw [List.map_append, ← List.append_assoc] at hperm
    exact (List.perm_append_comm.trans (hperm.trans List.perm_append_comm)).nodup_iff.mpr h.apart
  · intro c hc
    rcases List.mem_append.mp hc with hc | hc
    · exact List.mem_append_left _ (h.asked_reached c hc)
    · exact List.mem_append_right _ hc
  · intro r hr
    exact List.mem_append_left _ (h.returned_reached r hr)
  · rw [List.map_append, List.map_map, List.append_assoc]
    have hperm : (s.asked.map Prod.fst ++ (s.ready.map Delayed.call ++ s.returned.map Returned.call)).Perm
        (s.ready.map Delayed.call ++ (s.asked.map Prod.fst ++ s.returned.map Returned.call)) := by
      rw [← List.append_assoc, ← List.append_assoc]
      exact List.perm_append_comm.append_right _
    refine hperm.nodup_iff.mpr (List.Nodup.append ?_ h.once ?_)
    · exact h.apart.of_append_left.sublist (List.filter_sublist.map Delayed.call)
    · intro n hn honce
      obtain ⟨d, hd, rfl⟩ := List.mem_map.mp hn
      exact List.disjoint_of_nodup_append h.apart (List.mem_map_of_mem (hready d hd)) (h.once_reached honce)

/-- A call that is made takes the next number, and a place. -/
theorem Sound.start (h : Sound ms s) (message : Outgoing) : Sound (ms ++ [message]) (s.start message) := by
  have hnext : (ms ++ [message])[s.next]? = some message := by
    rw [h.next, List.getElem?_append_right (Nat.le_refl _), Nat.sub_self]
    rfl
  have hdelayed : ∀ d ∈ s.delayed, (ms ++ [message])[d.call]? = some d.message ∧ isRequest d.message :=
    fun d hd => ⟨getElem?_append_of_some (h.delayed_own d hd).1 _, (h.delayed_own d hd).2⟩
  have hreached : ∀ c ∈ s.reached, (ms ++ [message])[c.1]? = some c.2 :=
    fun c hc => getElem?_append_of_some (h.reached_own c hc) _
  have hlength : s.next + 1 = (ms ++ [message]).length := by
    rw [List.length_append, h.next]
    rfl
  have hnew := List.nodup_cons.mpr ⟨h.next_notMem, h.apart⟩
  cases message with
  | request method params =>
    refine ⟨hlength, ?_, hreached, ?_, h.asked_reached, h.returned_reached, h.once⟩
    · intro d hd
      rcases List.mem_append.mp hd with hd | hd
      · exact hdelayed d hd
      · rw [List.mem_singleton.mp hd]
        exact ⟨hnext, rfl⟩
    · show ((s.delayed ++ [_]).map Delayed.call ++ s.reached.map Prod.fst).Nodup
      rw [List.map_append, List.append_assoc]
      exact List.perm_middle.nodup_iff.mpr hnew
  | notification method params =>
    refine ⟨hlength, hdelayed, ?_, ?_, ?_, ?_, ?_⟩
    · intro c hc
      rcases List.mem_append.mp hc with hc | hc
      · exact hreached c hc
      · rw [List.mem_singleton.mp hc]
        exact hnext
    · show (s.delayed.map Delayed.call ++ (s.reached ++ [_]).map Prod.fst).Nodup
      rw [List.map_append, ← List.append_assoc]
      exact (List.perm_append_singleton _ _).nodup_iff.mpr hnew
    · intro c hc
      rcases List.mem_append.mp hc with hc | hc
      · exact List.mem_append_left _ (h.asked_reached c hc)
      · exact List.mem_append_right _ hc
    · intro r hr
      exact List.mem_append_left _ (h.returned_reached r hr)
    · show ((s.asked ++ [_]).map Prod.fst ++ s.returned.map Returned.call).Nodup
      rw [List.map_append, List.append_assoc]
      refine List.perm_middle.nodup_iff.mpr (List.nodup_cons.mpr ⟨fun hmem => ?_, h.once⟩)
      exact h.next_notMem (List.mem_append_right _ (h.once_reached hmem))

/-- A call that is answered has waited, and waits no longer. -/
theorem answer_cases (h : Sound ms s) (call : Nat) (result : Except ChannelError Json) :
    (call ∉ s.asked.map Prod.fst ∧ s.answer call result = s) ∨
      ∃ before message after, s.asked = before ++ (call, message) :: after ∧
        s.answer call result =
          { s with
            metrics := countReturn s.metrics message result
            asked := before ++ after
            returned := s.returned ++ [⟨call, message, result⟩] } := by
  unfold Session.answer
  cases hlookup : s.asked.lookup call with
  | none =>
    refine .inl ⟨fun hmem => ?_, rfl⟩
    obtain ⟨c, hc, rfl⟩ := List.mem_map.mp hmem
    have hne := List.lookup_eq_none_iff.mp hlookup c hc
    simp at hne
  | some message =>
    obtain ⟨before, after, hasked, -⟩ := List.lookup_eq_some_iff.mp hlookup
    refine .inr ⟨before, message, after, hasked, ?_⟩
    have hnodup := h.once.of_append_left
    rw [hasked, List.map_append, List.map_cons, List.nodup_middle, List.nodup_cons, ← List.map_append] at hnodup
    have hfilter : s.asked.filter (fun c => c.1 ≠ call) = before ++ after := by
      rw [hasked, List.filter_append, List.filter_cons_of_neg (by simp), ← List.filter_append]
      refine List.filter_eq_self.mpr fun c hc => decide_eq_true fun heq => hnodup.1 ?_
      exact List.mem_map.mpr ⟨c, hc, heq⟩
    simp only [hfilter]

/-- A call that is answered leaves the channel for its caller. -/
theorem Sound.answer (h : Sound ms s) (call : Nat) (result : Except ChannelError Json) :
    Sound ms (s.answer call result) := by
  rcases answer_cases h call result with ⟨-, heq⟩ | ⟨before, message, after, hasked, heq⟩
  · rwa [heq]
  · rw [heq]
    have honce := h.once
    rw [hasked, List.map_append, List.map_cons] at honce
    have hmem : ∀ c ∈ before ++ after, c ∈ s.asked := by
      intro c hc
      rw [hasked]
      exact (List.Sublist.append_left (List.sublist_cons_self _ after) before).subset hc
    -- the call leaves those that are asked and becomes one that has returned
    refine ⟨h.next, h.delayed_own, h.reached_own, h.apart, fun c hc => h.asked_reached c (hmem c hc), ?_, ?_⟩
    · intro r hr
      rcases List.mem_append.mp hr with hr | hr
      · exact h.returned_reached r hr
      · rw [List.mem_singleton.mp hr]
        exact h.asked_reached _ (hasked ▸ List.mem_append_right _ List.mem_cons_self)
    · show ((before ++ after).map Prod.fst ++ (s.returned ++ [_]).map Returned.call).Nodup
      rw [List.map_append, List.map_append, ← List.append_assoc]
      rw [List.append_assoc, List.cons_append] at honce
      refine ((List.perm_append_singleton _ _).trans ?_).nodup_iff.mpr honce
      rw [List.append_assoc]
      exact List.perm_middle.symm

/-- A call whose caller gives up is at no place any more, unless it has ended. -/
theorem Sound.drop (h : Sound ms s) (call : Nat) : Sound ms (s.occur (.drop call)) := by
  refine ⟨h.next, ?_, h.reached_own, ?_, ?_, h.returned_reached, ?_⟩
  · intro d hd
    exact h.delayed_own d (List.mem_of_mem_filter hd)
  · exact h.apart.sublist ((List.filter_sublist.map Delayed.call).append_right _)
  · intro c hc
    exact h.asked_reached c (List.mem_of_mem_filter hc)
  · exact h.once.sublist ((List.filter_sublist.map Prod.fst).append_right _)

/-- Every event keeps each call at one place. -/
theorem Sound.occur (h : Sound ms s) (e : Event) : Sound (ms ++ messages [e]) (s.occur e) := by
  have hsilent (hmessages : messages [e] = []) (hs : Sound ms (s.occur e)) :
      Sound (ms ++ messages [e]) (s.occur e) := by
    rwa [hmessages, List.append_nil]
  cases e with
  | call message => exact h.start message
  | answer call result => exact hsilent rfl (h.answer call result)
  | drop call => exact hsilent rfl (h.drop call)
  | elapse time => exact hsilent rfl { h with }
  | reset => exact hsilent rfl { h with }

/-- Every event keeps each call at one place, with the requests that go on after it. -/
theorem Sound.apply (h : Sound ms s) (e : Event) : Sound (ms ++ messages [e]) (s.apply e) :=
  (h.occur e).wakeAll

/-- What happens first and what happens then happens together. -/
theorem run_append (s : Session) (es es' : List Event) : s.run (es ++ es') = (s.run es).run es' :=
  List.foldl_append

/-- The last of several events. -/
theorem run_concat (s : Session) (es : List Event) (e : Event) : s.run (es ++ [e]) = (s.run es).apply e :=
  run_append s es [e]

/-- Whatever happens, each call is at one place. -/
theorem sound_run (h : Sound ms s) (es : List Event) : Sound (ms ++ messages es) (s.run es) := by
  induction es using List.reverseRecOn with
  | nil =>
    rw [messages, List.filterMap_nil, List.append_nil]
    exact h
  | append_singleton es e ih =>
    rw [messages_append, ← List.append_assoc, run_concat]
    exact ih.apply e

/-! ## Calls that were not given up -/

/-- A call is in its delay, waits for the channel behind the meter, or has ended. -/
def Has (s : Session) (n : Nat) : Prop :=
  n ∈ s.delayed.map Delayed.call ∨ n ∈ s.asked.map Prod.fst ∨ n ∈ s.returned.map Returned.call

theorem has_wakeAll {n : Nat} (h : s.Has n) : s.wakeAll.Has n := by
  rw [wakeAll_eq]
  rcases h with h | h | h
  · have hsplit := (s.ready_append_perm.map Delayed.call).mem_iff.mpr h
    rw [List.map_append] at hsplit
    rcases List.mem_append.mp hsplit with hready | hrest
    · refine .inr (.inl ?_)
      rw [List.map_append, List.map_map]
      exact List.mem_append_right _ hready
    · exact .inl hrest
  · refine .inr (.inl ?_)
    rw [List.map_append]
    exact List.mem_append_left _ h
  · exact .inr (.inr h)

/-- A call has its place from its start on. -/
theorem has_start (message : Outgoing) : (s.start message).Has s.next := by
  cases message with
  | request method params =>
    refine .inl (List.mem_map.mpr ⟨_, List.mem_append_right _ (List.mem_singleton_self _), rfl⟩)
  | notification method params =>
    refine .inr (.inl (List.mem_map.mpr ⟨_, List.mem_append_right _ (List.mem_singleton_self _), rfl⟩))

/-- Only its own caller can take a call away. -/
theorem has_apply (hs : Sound ms s) {n : Nat} (h : s.Has n) {e : Event} (he : e ≠ .drop n) : (s.apply e).Has n := by
  refine has_wakeAll ?_
  cases e with
  | call message =>
    cases message with
    | request method params =>
      refine h.imp_left fun h => ?_
      show n ∈ (s.delayed ++ [_]).map Delayed.call
      rw [List.map_append]
      exact List.mem_append_left _ h
    | notification method params =>
      refine h.imp_right (Or.imp_left fun h => ?_)
      show n ∈ (s.asked ++ [_]).map Prod.fst
      rw [List.map_append]
      exact List.mem_append_left _ h
  | answer call result =>
    show (s.answer call result).Has n
    rcases answer_cases hs call result with ⟨-, heq⟩ | ⟨before, message, after, hasked, heq⟩
    · rwa [heq]
    · rw [heq]
      rcases h with h | h | h
      · exact .inl h
      · -- the call is before the answered one, is the answered one, or is behind it
        rw [hasked, List.map_append, List.map_cons] at h
        rcases List.mem_append.mp h with h | h
        · refine .inr (.inl ?_)
          rw [List.map_append]
          exact List.mem_append_left _ h
        · rcases List.mem_cons.mp h with rfl | h
          · refine .inr (.inr ?_)
            rw [List.map_append]
            exact List.mem_append_right _ (List.mem_singleton_self _)
          · refine .inr (.inl ?_)
            rw [List.map_append]
            exact List.mem_append_right _ h
      · refine .inr (.inr ?_)
        rw [List.map_append]
        exact List.mem_append_left _ h
  | drop call =>
    -- the call that is dropped is another one
    have hcall : n ≠ call := fun heq => he (heq ▸ rfl)
    rcases h with h | h | h
    · obtain ⟨d, hd, rfl⟩ := List.mem_map.mp h
      exact .inl (List.mem_map_of_mem (List.mem_filter.mpr ⟨hd, decide_eq_true hcall⟩))
    · obtain ⟨c, hc, rfl⟩ := List.mem_map.mp h
      exact .inr (.inl (List.mem_map_of_mem (List.mem_filter.mpr ⟨hc, decide_eq_true hcall⟩)))
    · exact .inr (.inr h)
  | elapse time => exact h
  | reset => exact h

/-- A call keeps its place as long as its caller does not give up. -/
theorem has_run (hs : Sound ms s) {n : Nat} (h : s.Has n) {es : List Event} (hes : .drop n ∉ es) :
    (s.run es).Has n := by
  induction es using List.reverseRecOn with
  | nil => exact h
  | append_singleton es e ih =>
    rw [List.mem_append, not_or] at hes
    rw [run_concat]
    exact has_apply (sound_run hs es) (ih hes.1) fun heq => hes.2 (heq ▸ List.mem_singleton_self _)

/-! ## Calls whose delay is over -/

/-- An answer does not touch requests in their delay. -/
theorem answer_delayed (s : Session) (call : Nat) (result : Except ChannelError Json) :
    (s.answer call result).delayed = s.delayed := by
  unfold Session.answer
  split <;> rfl

/-- An answer does not change what has reached the channel. -/
theorem answer_reached (s : Session) (call : Nat) (result : Except ChannelError Json) :
    (s.answer call result).reached = s.reached := by
  unfold Session.answer
  split <;> rfl

/-- An answer takes no time. -/
theorem answer_now (s : Session) (call : Nat) (result : Except ChannelError Json) :
    (s.answer call result).now = s.now := by
  unfold Session.answer
  split <;> rfl

/-- An answer takes no number. -/
theorem answer_next (s : Session) (call : Nat) (result : Except ChannelError Json) :
    (s.answer call result).next = s.next := by
  unfold Session.answer
  split <;> rfl

/-- No delay is over that has not ended. -/
def Awake (s : Session) : Prop :=
  ∀ d ∈ s.delayed, s.now < d.due

/-- If no delay is over, no request goes on. -/
theorem wakeAll_of_awake (h : s.Awake) : s.wakeAll = s := by
  have hready : s.ready = [] :=
    List.filter_eq_nil_iff.mpr fun d hd hdue => Nat.not_le.mpr (h d hd) (of_decide_eq_true hdue)
  have hdelayed : (s.delayed.filter fun d => s.now < d.due) = s.delayed :=
    List.filter_eq_self.mpr fun d hd => decide_eq_true (h d hd)
  rw [wakeAll_eq, hready, hdelayed]
  simp

/-- If nothing is in its delay, an event is all that happens. -/
theorem apply_of_delayed_nil {e : Event} (h : (s.occur e).delayed = []) : s.apply e = s.occur e :=
  wakeAll_of_awake fun _ hd => absurd (h ▸ hd) List.not_mem_nil

/-- Time passes with events, and with nothing else. -/
theorem now_apply (s : Session) (e : Event) : (s.apply e).now = s.now + e.time := by
  rw [Session.apply, wakeAll_eq]
  cases e with
  | call message => cases message <;> rfl
  | answer call result => exact s.answer_now call result
  | _ => rfl

theorem delay_apply (s : Session) (e : Event) : (s.apply e).delay = s.delay := by
  rw [Session.apply, wakeAll_eq]
  cases e with
  | call message => cases message <;> rfl
  | answer call result =>
    show (s.answer call result).delay = s.delay
    unfold Session.answer
    split <;> rfl
  | _ => rfl

/-- The delay of a meter never changes. -/
theorem delay_run (s : Session) (es : List Event) : (s.run es).delay = s.delay := by
  induction es using List.reverseRecOn with
  | nil => rfl
  | append_singleton es e ih => rw [run_concat, delay_apply, ih]

/-- A new meter has nothing in its delay. -/
theorem awake_new (delay : Nat) : (new delay).Awake :=
  fun _ hd => absurd hd List.not_mem_nil

/-- After an event, no request has its delay behind it. -/
theorem awake_apply (s : Session) (e : Event) : (s.apply e).Awake := by
  intro d hd
  rw [Session.apply, wakeAll_eq] at hd ⊢
  exact of_decide_eq_true (List.mem_filter.mp hd).2

/-- Between two events, no request has its delay behind it. -/
theorem awake_run (h : s.Awake) (es : List Event) : (s.run es).Awake := by
  induction es using List.reverseRecOn with
  | nil => exact h
  | append_singleton es e =>
    rw [run_concat]
    exact awake_apply _ e

theorem reached_occur (s : Session) (e : Event) : s.reached <+: (s.occur e).reached := by
  cases e with
  | call message =>
    cases message with
    | request method params => exact List.prefix_rfl
    | notification method params => exact List.prefix_append s.reached _
  | answer call result =>
    exact (s.answer_reached call result).symm ▸ List.prefix_rfl
  | _ => exact List.prefix_rfl

/-- What has reached the channel has done so for good. -/
theorem reached_apply (s : Session) (e : Event) : s.reached <+: (s.apply e).reached := by
  rw [Session.apply, wakeAll_eq]
  exact (s.reached_occur e).trans (List.prefix_append _ _)

/-- Whatever happens, what has reached the channel has done so for good. -/
theorem reached_run (s : Session) (es : List Event) : s.reached <+: (s.run es).reached := by
  induction es using List.reverseRecOn with
  | nil => exact List.prefix_rfl
  | append_singleton es e ih =>
    rw [run_concat]
    exact ih.trans (reached_apply _ e)

/-- A call that was given up in its delay. -/
structure Gone (s : Session) (n : Nat) : Prop where
  made : n < s.next
  notDelayed : n ∉ s.delayed.map Delayed.call
  notReached : n ∉ s.reached.map Prod.fst

/-- A call that is gone stays so when something happens. -/
theorem Gone.occur {n : Nat} (h : s.Gone n) (e : Event) : (s.occur e).Gone n := by
  -- the number of the call was given out before, and a new call gets the next one
  have hne : n ≠ s.next := Nat.ne_of_lt h.made
  cases e with
  | call message =>
    cases message with
    | request method params =>
      refine ⟨Nat.lt_succ_of_lt h.made, ?_, h.notReached⟩
      show n ∉ (s.delayed ++ [_]).map Delayed.call
      rw [List.map_append, List.mem_append, not_or]
      exact ⟨h.notDelayed, fun hn => hne (List.mem_singleton.mp hn)⟩
    | notification method params =>
      refine ⟨Nat.lt_succ_of_lt h.made, h.notDelayed, ?_⟩
      show n ∉ (s.reached ++ [_]).map Prod.fst
      rw [List.map_append, List.mem_append, not_or]
      exact ⟨h.notReached, fun hn => hne (List.mem_singleton.mp hn)⟩
  | answer call result =>
    show (s.answer call result).Gone n
    refine ⟨?_, ?_, ?_⟩
    · rw [answer_next]
      exact h.made
    · rw [answer_delayed]
      exact h.notDelayed
    · rw [answer_reached]
      exact h.notReached
  | drop call =>
    refine ⟨h.made, fun hn => h.notDelayed ?_, h.notReached⟩
    exact (List.filter_sublist.map Delayed.call).subset hn
  | elapse time => exact ⟨h.made, h.notDelayed, h.notReached⟩
  | reset => exact ⟨h.made, h.notDelayed, h.notReached⟩

/-- A call that is gone does not go on with the others. -/
theorem Gone.wakeAll {n : Nat} (h : s.Gone n) : s.wakeAll.Gone n := by
  rw [wakeAll_eq]
  refine ⟨h.made, fun hn => h.notDelayed ((List.filter_sublist.map Delayed.call).subset hn), ?_⟩
  rw [List.map_append, List.mem_append, not_or, List.map_map]
  exact ⟨h.notReached, fun hn => h.notDelayed ((List.filter_sublist.map Delayed.call).subset hn)⟩

/-- A call that is gone stays so after an event. -/
theorem Gone.apply {n : Nat} (h : s.Gone n) (e : Event) : (s.apply e).Gone n :=
  (h.occur e).wakeAll

/-- A call that is gone stays so, whatever happens. -/
theorem Gone.run {n : Nat} (h : s.Gone n) (es : List Event) : (s.run es).Gone n := by
  induction es using List.reverseRecOn with
  | nil => exact h
  | append_singleton es e ih =>
    rw [run_concat]
    exact ih.apply e

/-- A request whose caller gives up in its delay is gone. -/
theorem Sound.gone_drop (h : Sound ms s) {d : Delayed} (hd : d ∈ s.delayed) :
    (s.apply (.drop d.call)).Gone d.call := by
  have hlt : d.call < s.next := by
    rw [h.next]
    exact (List.getElem?_eq_some_iff.mp (h.delayed_own d hd).1).1
  have hreached := List.disjoint_of_nodup_append h.apart (List.mem_map_of_mem hd)
  have hgone : (s.occur (.drop d.call)).Gone d.call := by
    refine ⟨hlt, fun hn => ?_, hreached⟩
    obtain ⟨d', hd', hcall⟩ := List.mem_map.mp hn
    exact of_decide_eq_true (List.mem_filter.mp hd').2 hcall
  exact hgone.wakeAll

/-- A request stays in its delay while its caller does not give up. -/
theorem mem_delayed_occur {d : Delayed} (hd : d ∈ s.delayed) {e : Event} (he : e ≠ .drop d.call) :
    d ∈ (s.occur e).delayed := by
  cases e with
  | call message =>
    cases message with
    | request method params => exact List.mem_append_left _ hd
    | notification method params => exact hd
  | answer call result =>
    show d ∈ (s.answer call result).delayed
    rwa [answer_delayed]
  | drop call => exact List.mem_filter.mpr ⟨hd, decide_eq_true fun heq => he (heq ▸ rfl)⟩
  | elapse time => exact hd
  | reset => exact hd

theorem now_occur (s : Session) (e : Event) : (s.occur e).now = s.now + e.time := by
  have h := s.now_apply e
  rwa [Session.apply, wakeAll_eq] at h

/-- A delayed request goes on exactly if its delay is over before its caller gives up. -/
theorem reached_iff_of_delayed (hs : Sound ms s) (hawake : s.Awake) {d : Delayed} (hd : d ∈ s.delayed)
    (es : List Event) :
    d.call ∈ (s.run es).reached.map Prod.fst ↔
      ∃ mid rest, es = mid ++ rest ∧ .drop d.call ∉ mid ∧ d.due ≤ s.now + elapsed mid := by
  have hnotYet : ¬d.due ≤ s.now := Nat.not_le.mpr (hawake d hd)
  induction es generalizing ms s with
  | nil =>
    refine iff_of_false (List.disjoint_of_nodup_append hs.apart (List.mem_map_of_mem hd)) ?_
    rintro ⟨mid, rest, heq, -, hdue⟩
    obtain ⟨rfl, -⟩ := List.append_eq_nil_iff.mp heq.symm
    exact hnotYet hdue
  | cons e es ih =>
    show d.call ∈ ((s.apply e).run es).reached.map Prod.fst ↔ _
    by_cases he : e = .drop d.call
    · -- its caller gives up first
      subst he
      refine iff_of_false ((hs.gone_drop hd).run es).notReached ?_
      rintro ⟨mid, rest, heq, hdrop, hdue⟩
      cases mid with
      | nil => exact hnotYet hdue
      | cons e' mid =>
        cases heq
        exact hdrop List.mem_cons_self
    · have hmem := mem_delayed_occur hd he
      by_cases hdue : d.due ≤ s.now + e.time
      · -- its delay is over now
        have hready : d ∈ (s.occur e).ready := by
          refine List.mem_filter.mpr ⟨hmem, decide_eq_true ?_⟩
          rwa [now_occur]
        have hreached : d.call ∈ (s.apply e).reached.map Prod.fst := by
          rw [Session.apply, wakeAll_eq, List.map_append, List.map_map]
          exact List.mem_append_right _ (List.mem_map_of_mem hready)
        refine iff_of_true (((reached_run _ es).sublist.map Prod.fst).subset hreached) ⟨[e], es, rfl, ?_, ?_⟩
        · exact fun hdrop => he (List.mem_singleton.mp hdrop).symm
        · rw [elapsed]
          exact Nat.le_trans hdue (Nat.add_le_add_left (Nat.le_add_right _ _) _)
      · -- it is still in its delay
        have hdelayed : d ∈ (s.apply e).delayed := by
          rw [Session.apply, wakeAll_eq]
          refine List.mem_filter.mpr ⟨hmem, decide_eq_true ?_⟩
          rw [now_occur]
          exact Nat.not_le.mp hdue
        refine (ih (hs.apply e) (awake_apply s e) hdelayed (by rwa [now_apply])).trans ?_
        rw [now_apply]
        constructor
        · rintro ⟨mid, rest, rfl, hdrop, hmid⟩
          refine ⟨e :: mid, rest, rfl, ?_, ?_⟩
          · exact List.not_mem_cons_of_ne_of_not_mem (Ne.symm he) hdrop
          · rw [elapsed]
            omega
        · rintro ⟨mid, rest, heq, hdrop, hmid⟩
          cases mid with
          | nil => exact absurd hmid hnotYet
          | cons e' mid =>
            cases heq
            rw [elapsed] at hmid
            exact ⟨mid, rest, rfl, fun hmem => hdrop (List.mem_cons_of_mem e hmem), by omega⟩

/-! ## Calls that have ended -/

/-- The call that an event ends. -/
def ends (s : Session) : Event → List Returned
  | .answer call result => ((s.asked.lookup call).map fun message => ⟨call, message, result⟩).toList
  | _ => []

/-- Calls end in the order in which they are answered. -/
theorem returned_apply (s : Session) (e : Event) : (s.apply e).returned = s.returned ++ s.ends e := by
  rw [Session.apply, wakeAll_eq]
  cases e with
  | call message =>
    cases message <;> exact (List.append_nil _).symm
  | answer call result =>
    show (s.answer call result).returned = _
    rw [ends]
    unfold Session.answer
    cases s.asked.lookup call with
    | none => exact (List.append_nil _).symm
    | some message => rfl
  | drop call => exact (List.append_nil _).symm
  | elapse time => exact (List.append_nil _).symm
  | reset => exact (List.append_nil _).symm

/-- A call ends when it is answered while it waits. -/
theorem mem_ends (hs : Sound ms s) {e : Event} {r : Returned} :
    r ∈ s.ends e ↔ e = .answer r.call r.result ∧ (r.call, r.message) ∈ s.asked := by
  constructor
  · intro h
    cases e with
    | answer call result =>
      rw [ends, Option.mem_toList, Option.map_eq_some_iff] at h
      obtain ⟨message, hlookup, rfl⟩ := h
      obtain ⟨before, after, hasked, -⟩ := List.lookup_eq_some_iff.mp hlookup
      exact ⟨rfl, hasked ▸ List.mem_append_right _ List.mem_cons_self⟩
    | _ => cases h
  · rintro ⟨rfl, hmem⟩
    rw [ends, Option.mem_toList, Option.map_eq_some_iff]
    obtain ⟨before, after, hasked⟩ := List.append_of_mem hmem
    have hnodup := hs.once.of_append_left
    rw [hasked, List.map_append, List.map_cons, List.nodup_middle, List.nodup_cons, ← List.map_append] at hnodup
    refine ⟨r.message, List.lookup_eq_some_iff.mpr ⟨before, after, hasked, fun c hc => ?_⟩, rfl⟩
    refine bne_iff_ne.mpr fun heq => hnodup.1 (List.mem_map.mpr ⟨c, List.mem_append_left _ hc, heq.symm⟩)

/-- Each caller gets what the channel behind the meter answers to its call, as soon as it does. -/
theorem mem_returned_run (hs : Sound ms s) {es : List Event} {r : Returned} :
    r ∈ (s.run es).returned ↔ r ∈ s.returned ∨
      ∃ before after, es = before ++ .answer r.call r.result :: after ∧ (r.call, r.message) ∈ (s.run before).asked := by
  induction es using List.reverseRecOn with
  | nil =>
    refine ⟨.inl, ?_⟩
    rintro (h | ⟨before, after, heq, -⟩)
    · exact h
    · cases before <;> cases heq
  | append_singleton es e ih =>
    -- either the answer came before the last event, or it is the last event
    rw [run_concat, returned_apply, List.mem_append, ih, mem_ends (sound_run hs es), or_assoc]
    refine or_congr_right ?_
    constructor
    · rintro (⟨before, after, rfl, hasked⟩ | ⟨rfl, hasked⟩)
      · exact ⟨before, after ++ [e], by simp, hasked⟩
      · exact ⟨es, [], rfl, hasked⟩
    · rintro ⟨before, after, heq, hasked⟩
      rcases List.eq_nil_or_concat after with rfl | ⟨after, e', rfl⟩
      · obtain ⟨rfl, hlast⟩ := List.append_inj' heq rfl
        cases hlast
        exact .inr ⟨rfl, hasked⟩
      · rw [List.concat_eq_append, ← List.cons_append, ← List.append_assoc] at heq
        obtain ⟨rfl, -⟩ := List.append_inj' heq rfl
        exact .inl ⟨before, after, rfl, hasked⟩

end Session

end IndexFs.Meter

import IndexFs.Proofs.Meter.Calls

/-!
# What is said through a meter

Whatever happens to a meter, in whatever order calls are made, delayed, answered and given up: the message of a call
reaches the channel behind the meter once its delay is over, if its caller has not given up before; what this channel
then answers is what the call returns (`transparent`).
-/

namespace IndexFs.Meter

/-- The delay of a call is over before its caller gives up. Notifications have no delay. -/
def Passes (delay n : Nat) : Outgoing → List Event → Prop
  | .request _ _, after => ∃ mid rest, after = mid ++ rest ∧ .drop n ∉ mid ∧ delay ≤ elapsed mid
  | .notification _ _, _ => True

/-- What has become of the calls when this has happened to a meter. -/
structure Transparent (delay : Nat) (es : List Event) : Prop where
  /-- What has reached the channel behind the meter from a call is the message of the call, -/
  own : ∀ c ∈ ((Session.new delay).run es).reached, (messages es)[c.1]? = some c.2
  /-- and only once. -/
  once : (((Session.new delay).run es).reached.map Prod.fst).Nodup
  /-- The message of a call has reached it exactly if its delay was over before its caller gave up. -/
  reached : ∀ before message after, es = before ++ .call message :: after →
    (((messages before).length, message) ∈ ((Session.new delay).run es).reached ↔
      Passes delay (messages before).length message after)
  /-- A call has returned what the channel behind the meter answered when it was asked by the call, -/
  returned : ∀ r, r ∈ ((Session.new delay).run es).returned ↔
    ∃ before after, es = before ++ .answer r.call r.result :: after ∧
      (r.call, r.message) ∈ ((Session.new delay).run before).asked
  /-- and only once, -/
  single : (((Session.new delay).run es).returned.map Returned.call).Nodup
  /-- and its message has reached this channel. -/
  returned_reached : ∀ r ∈ ((Session.new delay).run es).returned,
    (r.call, r.message) ∈ ((Session.new delay).run es).reached
  /-- A call whose caller has not given up has returned, or the channel behind the meter is still to answer it, once its
  delay is over. -/
  kept : ∀ before message after, es = before ++ .call message :: after → .drop (messages before).length ∉ after →
    Passes delay (messages before).length message after →
      ((messages before).length, message) ∈ ((Session.new delay).run es).asked ∨
        ∃ result, ⟨(messages before).length, message, result⟩ ∈ ((Session.new delay).run es).returned

namespace Session

variable {ms : List Outgoing} {s : Session}

theorem run_cons (s : Session) (e : Event) (es : List Event) : s.run (e :: es) = (s.apply e).run es := rfl

/-- A request whose delay is not over yet is in its delay when it has been made. -/
theorem delayed_apply_request (h : 0 < s.delay) (method : String) (params : Json) :
    ⟨s.next, .request method params, s.now + s.delay⟩ ∈ (s.apply (.call (.request method params))).delayed := by
  rw [Session.apply, wakeAll_eq]
  refine List.mem_filter.mpr ⟨List.mem_append_right _ (List.mem_singleton_self _), decide_eq_true ?_⟩
  exact Nat.lt_add_of_pos_right h

/-- A call without a delay reaches the channel behind the meter at once. -/
theorem reached_apply_call {message : Outgoing} (h : isRequest message → s.delay = 0) :
    s.next ∈ (s.apply (.call message)).reached.map Prod.fst := by
  rw [Session.apply, wakeAll_eq, List.map_append, List.map_map]
  cases message with
  | request method params =>
    have hready :
        ⟨s.next, .request method params, s.now + s.delay⟩ ∈ (s.occur (.call (.request method params))).ready := by
      refine List.mem_filter.mpr ⟨List.mem_append_right _ (List.mem_singleton_self _), decide_eq_true ?_⟩
      rw [h rfl]
      exact Nat.le_refl _
    exact List.mem_append_right _ (List.mem_map.mpr ⟨_, hready, rfl⟩)
  | notification method params =>
    refine List.mem_append_left _ (List.mem_map.mpr ⟨(s.next, .notification method params), ?_, rfl⟩)
    exact List.mem_append_right _ (List.mem_singleton_self _)

/-- A call reaches the channel behind the meter exactly if its delay is over before its caller gives up. -/
theorem reached_iff_passes (hs : Sound ms s) (message : Outgoing) (after : List Event) :
    s.next ∈ (s.run (.call message :: after)).reached.map Prod.fst ↔ Passes s.delay s.next message after := by
  have hlater := ((reached_run (s.apply (.call message)) after).sublist.map Prod.fst).subset
  rw [run_cons]
  cases message with
  | notification method params => exact iff_of_true (hlater (reached_apply_call nofun)) trivial
  | request method params =>
    by_cases hdelay : s.delay = 0
    · refine iff_of_true (hlater (reached_apply_call fun _ => hdelay)) ⟨[], after, rfl, List.not_mem_nil, ?_⟩
      rw [hdelay]
      exact Nat.zero_le _
    · have hd := delayed_apply_request (Nat.pos_of_ne_zero hdelay) method params
      have hiff := reached_iff_of_delayed (hs.apply (.call (.request method params))) (awake_apply s _) hd after
      refine hiff.trans (exists_congr fun mid => exists_congr fun rest => and_congr_right fun _ => ?_)
      refine and_congr_right fun _ => ?_
      show s.now + s.delay ≤ (s.apply (.call (.request method params))).now + elapsed mid ↔ _
      rw [now_apply]
      exact Nat.add_le_add_iff_left

/-- The number of a call is the place of its message among all messages. -/
theorem getElem?_messages (hs : Sound ms s) (message : Outgoing) (after : List Event) :
    (ms ++ messages (.call message :: after))[s.next]? = some message := by
  rw [hs.next, List.getElem?_append_right (Nat.le_refl _), Nat.sub_self]
  rfl

/-- What has reached the channel behind the meter from a call is the message of the call. -/
theorem mem_reached_iff (hs : Sound ms s) (message : Outgoing) (after : List Event) :
    (s.next, message) ∈ (s.run (.call message :: after)).reached ↔ Passes s.delay s.next message after := by
  rw [← reached_iff_passes hs]
  constructor
  · exact fun hmem => List.mem_map.mpr ⟨_, hmem, rfl⟩
  · intro hmem
    obtain ⟨⟨n, message'⟩, hc, hn⟩ := List.mem_map.mp hmem
    obtain rfl : n = s.next := hn
    have hown := (sound_run hs (.call message :: after)).reached_own _ hc
    rw [getElem?_messages hs] at hown
    obtain rfl := Option.some.inj hown
    exact hc

/-- A call whose caller does not give up waits for its answer or has ended, once its delay is over. -/
theorem asked_or_returned (hs : Sound ms s) (message : Outgoing) {after : List Event}
    (hdrop : .drop s.next ∉ after) (hpasses : Passes s.delay s.next message after) :
    (s.next, message) ∈ (s.run (.call message :: after)).asked ∨
      ∃ result, ⟨s.next, message, result⟩ ∈ (s.run (.call message :: after)).returned := by
  have hsound := sound_run hs (.call message :: after)
  have hreached := (reached_iff_passes hs message after).mpr hpasses
  have hhas : (s.apply (.call message)).Has s.next := has_wakeAll (has_start message)
  have hown {message' : Outgoing} (hmem : (s.next, message') ∈ (s.run (.call message :: after)).reached) :
      message = message' := by
    have heq := hsound.reached_own _ hmem
    rw [getElem?_messages hs] at heq
    exact Option.some.inj heq
  -- the call is delayed, asked or returned; what passed is delayed no more
  rcases has_run (hs.apply (.call message)) hhas hdrop with hdelayed | hasked | hreturned
  · exact absurd hreached (List.disjoint_of_nodup_append hsound.apart hdelayed)
  · obtain ⟨⟨n, message'⟩, hc, hn⟩ := List.mem_map.mp hasked
    obtain rfl : n = s.next := hn
    obtain rfl := hown (hsound.asked_reached _ hc)
    exact .inl hc
  · obtain ⟨⟨n, message', result⟩, hr, hn⟩ := List.mem_map.mp hreturned
    obtain rfl : n = s.next := hn
    obtain rfl := hown (hsound.returned_reached _ hr)
    exact .inr ⟨result, hr⟩

end Session

/-- What becomes of calls through a meter. -/
theorem transparent (delay : Nat) (es : List Event) : Transparent delay es := by
  have hsound (es : List Event) : Session.Sound (messages es) ((Session.new delay).run es) :=
    Session.sound_run (Session.sound_new delay) es
  have hnext (es : List Event) : ((Session.new delay).run es).next = (messages es).length := (hsound es).next
  have hdelay (es : List Event) : ((Session.new delay).run es).delay = delay := Session.delay_run _ es
  refine ⟨(hsound es).reached_own, (hsound es).apart.of_append_right, ?_, ?_, (hsound es).once.of_append_right,
    (hsound es).returned_reached, ?_⟩
  · rintro before message after rfl
    have hreached := Session.mem_reached_iff (hsound before) message after
    rwa [hnext, hdelay, ← Session.run_append] at hreached
  · intro r
    rw [Session.mem_returned_run (Session.sound_new delay)]
    exact or_iff_right List.not_mem_nil
  · rintro before message after rfl hdrop hpasses
    rw [← hnext] at hdrop hpasses
    have hkept := Session.asked_or_returned (hsound before) message hdrop ((hdelay before).symm ▸ hpasses)
    rwa [hnext, ← Session.run_append] at hkept

end IndexFs.Meter

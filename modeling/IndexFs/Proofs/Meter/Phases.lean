import IndexFs.Meter
import IndexFs.Proofs.Meter.Calls

/-!
# Calls that are made and then answered

First calls are made and time passes (`Session.opens_run`), until no request is in its delay any more. Then the index
answers what it answers (`Session.answered_replies`).
-/

namespace IndexFs.Meter

/-- Messages with numbers from this one on. -/
def numbered (n : Nat) (messages : List Outgoing) : List (Nat × Outgoing) :=
  (messages.zipIdx n).map Prod.swap

theorem numbered_append (n : Nat) (messages messages' : List Outgoing) :
    numbered n (messages ++ messages') = numbered n messages ++ numbered (n + messages.length) messages' := by
  rw [numbered, List.zipIdx_append, List.map_append]
  rfl

theorem numbered_length (n : Nat) (messages : List Outgoing) : (numbered n messages).length = messages.length := by
  rw [numbered, List.length_map, List.length_zipIdx]

theorem numbered_snd (n : Nat) (messages : List Outgoing) : (numbered n messages).map Prod.snd = messages := by
  rw [numbered, List.map_map]
  exact List.zipIdx_map_fst n messages

theorem numbered_fst_nodup (n : Nat) (messages : List Outgoing) : ((numbered n messages).map Prod.fst).Nodup := by
  rw [numbered, List.map_map]
  show ((messages.zipIdx n).map Prod.snd).Nodup
  rw [List.zipIdx_map_snd]
  exact List.nodup_range' ..

theorem le_of_mem_numbered {n : Nat} {messages : List Outgoing} {c : Nat × Outgoing} (h : c ∈ numbered n messages) :
    n ≤ c.1 := by
  obtain ⟨⟨message, k⟩, hmem, rfl⟩ := List.mem_map.mp h
  exact (List.mem_zipIdx hmem).1

/-- What happens when calls have reached the index. -/
def replies (index : Index) (calls : List (Nat × Outgoing)) : List Event :=
  calls.flatMap fun c => reply index c.1 c.2

/-- What the index returns to calls. -/
def returns (index : Index) (calls : List (Nat × Outgoing)) : List Returned :=
  calls.filterMap fun c => (index.result? c.2).map fun result => ⟨c.1, c.2, result⟩

theorem messages_replies (index : Index) (calls : List (Nat × Outgoing)) : messages (replies index calls) = [] := by
  refine List.filterMap_eq_nil_iff.mpr fun e he => ?_
  obtain ⟨c, -, he⟩ := List.mem_flatMap.mp he
  unfold reply at he
  split at he
  · rw [List.mem_singleton.mp he]
    rfl
  · cases he

theorem mem_returns {index : Index} {calls : List (Nat × Outgoing)} {r : Returned} :
    r ∈ returns index calls ↔ (r.call, r.message) ∈ calls ∧ index.result? r.message = some r.result := by
  rw [returns, List.mem_filterMap]
  constructor
  · rintro ⟨c, hc, hr⟩
    obtain ⟨result, hresult, rfl⟩ := Option.map_eq_some_iff.mp hr
    exact ⟨hc, hresult⟩
  · rintro ⟨hc, hresult⟩
    exact ⟨_, hc, Option.map_eq_some_iff.mpr ⟨_, hresult, rfl⟩⟩

/-- A call is made, or time passes. -/
def Event.isOpening : Event → Bool
  | .call _ => true
  | .elapse _ => true
  | _ => false

def Delayed.entry (d : Delayed) : Nat × Outgoing :=
  (d.call, d.message)

namespace Session

variable {ms : List Outgoing} {s : Session}

/-! ## Calls are made -/

/-- What becomes of a meter when these calls are made. Some calls go on, and the others are in their delay. -/
structure Opens (s s' : Session) (calls : List (Nat × Outgoing)) : Prop where
  next : s'.next = s.next + calls.length
  returned : s'.returned = s.returned
  going : ∃ passed, s'.asked = s.asked ++ passed ∧ s'.reached = s.reached ++ passed ∧
    (passed ++ s'.delayed.map Delayed.entry).Perm (s.delayed.map Delayed.entry ++ calls)

theorem Opens.trans {s₁ s₂ s₃ : Session} {calls calls' : List (Nat × Outgoing)} (h : Opens s₁ s₂ calls)
    (h' : Opens s₂ s₃ calls') : Opens s₁ s₃ (calls ++ calls') := by
  obtain ⟨passed, hasked, hreached, hperm⟩ := h.going
  obtain ⟨passed', hasked', hreached', hperm'⟩ := h'.going
  refine ⟨?_, h'.returned.trans h.returned, passed ++ passed', ?_, ?_, ?_⟩
  · rw [h'.next, h.next, List.length_append, Nat.add_assoc]
  · rw [hasked', hasked, List.append_assoc]
  · rw [hreached', hreached, List.append_assoc]
  · calc
      List.Perm (passed ++ passed' ++ s₃.delayed.map Delayed.entry)
        (passed ++ (passed' ++ s₃.delayed.map Delayed.entry)) := .of_eq (List.append_assoc ..)
      List.Perm _ (passed ++ (s₂.delayed.map Delayed.entry ++ calls')) := hperm'.append_left _
      List.Perm _ (passed ++ s₂.delayed.map Delayed.entry ++ calls') := .of_eq (List.append_assoc ..).symm
      List.Perm _ (s₁.delayed.map Delayed.entry ++ calls ++ calls') := hperm.append_right _
      List.Perm _ (s₁.delayed.map Delayed.entry ++ (calls ++ calls')) := .of_eq (List.append_assoc ..)

theorem opens_wakeAll (s : Session) : Opens s s.wakeAll [] := by
  rw [wakeAll_eq]
  refine ⟨rfl, rfl, s.ready.map Delayed.entry, rfl, rfl, ?_⟩
  rw [← List.map_append, List.append_nil]
  exact s.ready_append_perm.map Delayed.entry

theorem opens_occur (s : Session) {e : Event} (he : e.isOpening) :
    Opens s (s.occur e) (numbered s.next (messages [e])) := by
  cases e with
  | call message =>
    cases message with
    | request method params =>
      refine ⟨rfl, rfl, [], (List.append_nil _).symm, (List.append_nil _).symm, ?_⟩
      exact List.Perm.of_eq List.map_append
    | notification method params => exact ⟨rfl, rfl, [_], rfl, rfl, List.perm_append_comm⟩
  | elapse time =>
    exact ⟨rfl, rfl, [], (List.append_nil _).symm, (List.append_nil _).symm, .of_eq (List.append_nil _).symm⟩
  | answer call result => cases he
  | drop call => cases he
  | reset => cases he

theorem opens_run (s : Session) {es : List Event} (hes : ∀ e ∈ es, e.isOpening) :
    Opens s (s.run es) (numbered s.next (messages es)) := by
  induction es using List.reverseRecOn with
  | nil => exact ⟨rfl, rfl, [], (List.append_nil _).symm, (List.append_nil _).symm, .of_eq (List.append_nil _).symm⟩
  | append_singleton es e ih =>
    have hbefore := ih fun e' he' => hes e' (List.mem_append_left _ he')
    have hoccur := (s.run es).opens_occur (hes e (List.mem_append_right _ (List.mem_singleton_self e)))
    rw [hbefore.next, numbered_length] at hoccur
    rw [run_concat, messages_append, numbered_append]
    have happly := hoccur.trans (opens_wakeAll _)
    rw [List.append_nil] at happly
    exact hbefore.trans happly

/-- No request is in its delay when the delay has passed since all were made. -/
theorem delayed_elapse {time : Nat} (h : ∀ d ∈ s.delayed, d.due ≤ s.now + time) :
    (s.apply (.elapse time)).delayed = [] := by
  rw [Session.apply, wakeAll_eq]
  exact List.filter_eq_nil_iff.mpr fun d hd hdue => Nat.not_le.mpr (of_decide_eq_true hdue) (h d hd)

/-- No delay is over later than a delay from now. -/
theorem due_calls (h : s.delayed = []) (messages : List Outgoing) :
    (s.run (messages.map .call)).now = s.now ∧ ∀ d ∈ (s.run (messages.map .call)).delayed, d.due ≤ s.now + s.delay := by
  induction messages using List.reverseRecOn with
  | nil =>
    refine ⟨rfl, fun d hd => ?_⟩
    rw [List.map_nil, run, List.foldl_nil, h] at hd
    cases hd
  | append_singleton messages message ih =>
    obtain ⟨hnow, hdue⟩ := ih
    rw [List.map_append, List.map_singleton, run_concat]
    refine ⟨(now_apply _ _).trans hnow, fun d hd => ?_⟩
    rw [Session.apply, wakeAll_eq] at hd
    have hd := List.mem_of_mem_filter hd
    cases message with
    | request method params =>
      rcases List.mem_append.mp hd with hd | hd
      · exact hdue d hd
      · rw [List.mem_singleton.mp hd]
        exact Nat.le_of_eq (congrArg₂ _ hnow (delay_run _ _))
    | notification method params => exact hdue d hd

/-! ## Calls are answered -/

/-- A call that waits for the index gets its answer, and others wait on. -/
theorem apply_answer (hs : Sound ms s) (h : s.delayed = []) {n : Nat} {message : Outgoing}
    (hasked : (n, message) ∈ s.asked) (result : Except ChannelError Json) :
    let s' := s.apply (.answer n result)
    s'.delayed = [] ∧ s'.reached = s.reached ∧ s'.returned = s.returned ++ [⟨n, message, result⟩] ∧
      ∀ c ∈ s.asked, c.1 ≠ n → c ∈ s'.asked := by
  have hdelayed : (s.answer n result).delayed = [] := (answer_delayed s n result).trans h
  have happly : s.apply (.answer n result) = s.answer n result := apply_of_delayed_nil hdelayed
  simp only [happly, hdelayed, answer_reached, true_and]
  rcases answer_cases hs n result with ⟨hnone, -⟩ | ⟨before, message', after, hbefore, heq⟩
  · exact absurd (List.mem_map_of_mem hasked) hnone
  · have hmem : (n, message') ∈ s.asked := hbefore ▸ List.mem_append_right _ List.mem_cons_self
    have hsame := List.inj_on_of_nodup_map hs.once.of_append_left hmem hasked rfl
    cases hsame
    rw [heq]
    refine ⟨rfl, fun c hc hne => ?_⟩
    rw [hbefore] at hc
    rcases List.mem_append.mp hc with hc | hc
    · exact List.mem_append_left _ hc
    · rcases List.mem_cons.mp hc with rfl | hc
      · exact absurd rfl hne
      · exact List.mem_append_right _ hc

/-- What becomes of a meter whose delays are all over when these calls have reached the index. -/
structure Answered (index : Index) (calls : List (Nat × Outgoing)) (s s' : Session) : Prop where
  delayed : s'.delayed = []
  reached : ∃ passed, s'.reached = s.reached ++ passed ∧ passed.Perm calls
  returned : s'.returned = s.returned ++ returns index calls

theorem run_replies (hs : Sound ms s) (h : s.delayed = []) (index : Index) {calls : List (Nat × Outgoing)}
    (hnodup : (calls.map Prod.fst).Nodup) (hasked : ∀ c ∈ calls, c ∈ s.asked) :
    let s' := s.run (replies index calls)
    s'.delayed = [] ∧ s'.reached = s.reached ∧ s'.returned = s.returned ++ returns index calls := by
  induction calls generalizing s ms with
  | nil => exact ⟨h, rfl, (List.append_nil _).symm⟩
  | cons c calls ih =>
    rw [List.map_cons, List.nodup_cons] at hnodup
    -- the calls are answered one after another, and the index may leave one without an answer
    cases hresult : index.result? c.2 with
    | none =>
      have hreplies : replies index (c :: calls) = replies index calls := by
        simp [replies, reply, hresult]
      have hreturns : returns index (c :: calls) = returns index calls := by
        simp [returns, hresult]
      rw [hreplies, hreturns]
      exact ih hs h hnodup.2 fun c' hc' => hasked c' (List.mem_cons_of_mem _ hc')
    | some result =>
      have hreplies : replies index (c :: calls) = .answer c.1 result :: replies index calls := by
        simp [replies, reply, hresult]
      have hreturns : returns index (c :: calls) = ⟨c.1, c.2, result⟩ :: returns index calls := by
        simp [returns, hresult]
      obtain ⟨hdelayed, hreached, hreturned, hothers⟩ := apply_answer hs h (hasked c List.mem_cons_self) result
      have hrest : ∀ c' ∈ calls, c' ∈ (s.apply (.answer c.1 result)).asked := fun c' hc' =>
        hothers c' (hasked c' (List.mem_cons_of_mem _ hc')) fun heq => hnodup.1 (heq ▸ List.mem_map_of_mem hc')
      have hrun := ih (hs.apply (.answer c.1 result)) hdelayed hnodup.2 hrest
      rw [hreached, hreturned, List.append_assoc] at hrun
      rw [hreplies, hreturns]
      exact hrun

/-- Calls that are made when no request is in its delay are answered when none is in its delay again. -/
theorem answered_replies (hs : Sound ms s) (h : s.delayed = []) (index : Index) (es : List Event)
    (hes : ∀ e ∈ es, e.isOpening) (hpast : (s.run es).delayed = []) :
    Answered index (numbered s.next (messages es)) s
      (s.run (es ++ replies index (numbered s.next (messages es)))) := by
  have hopens := s.opens_run hes
  obtain ⟨passed, hasked, hreached, hperm⟩ := hopens.going
  rw [h, hpast, List.map_nil, List.append_nil, List.nil_append] at hperm
  have hwaits : ∀ c ∈ numbered s.next (messages es), c ∈ (s.run es).asked := fun c hc =>
    hasked ▸ List.mem_append_right _ (hperm.mem_iff.mpr hc)
  obtain ⟨hdelayed', hreached', hreturned'⟩ :=
    run_replies (sound_run hs es) hpast index (numbered_fst_nodup _ _) hwaits
  rw [run_append]
  exact ⟨hdelayed', ⟨passed, hreached'.trans hreached, hperm⟩, hopens.returned ▸ hreturned'⟩

/-- Time passes, and a caller gives up when no request is in its delay. -/
theorem Answered.drop {index : Index} {calls : List (Nat × Outgoing)} {s' : Session} (h : Answered index calls s s')
    (time n : Nat) : Answered index calls s (s'.run [.elapse time, .drop n]) := by
  have helapse : s'.apply (.elapse time) = { s' with now := s'.now + time } := apply_of_delayed_nil h.delayed
  have hdelayed : ((s'.apply (.elapse time)).occur (.drop n)).delayed = [] := by
    rw [helapse]
    show s'.delayed.filter _ = []
    rw [h.delayed, List.filter_nil]
  rw [run, List.foldl_cons, List.foldl_cons, List.foldl_nil, apply_of_delayed_nil hdelayed]
  refine ⟨hdelayed, ?_, ?_⟩
  · rw [helapse]
    exact h.reached
  · rw [helapse]
    exact h.returned

/-- A request that is given up in its delay does not reach the index. -/
theorem answered_given_up (h : s.delayed = []) (index : Index) (method : String) (params : Json) {after : Nat}
    (hafter : after < s.delay) :
    Answered index [] s (s.run [.call (.request method params), .elapse after, .drop s.next]) := by
  have hcall : s.apply (.call (.request method params)) = s.start (.request method params) := by
    refine wakeAll_of_awake fun d hd => ?_
    simp only [occur, start, h, List.nil_append, List.mem_singleton] at hd
    rw [hd]
    exact Nat.lt_add_of_pos_right (Nat.zero_lt_of_lt hafter)
  have helapse : (s.start (.request method params)).apply (.elapse after) =
      { s.start (.request method params) with now := s.now + after } := by
    refine wakeAll_of_awake fun d hd => ?_
    simp only [occur, start, h, List.nil_append, List.mem_singleton] at hd
    rw [hd]
    exact Nat.add_lt_add_left hafter _
  have hdelayed : (({ s.start (.request method params) with now := s.now + after } : Session).occur
      (.drop s.next)).delayed = [] := by
    simp [occur, start, h]
  rw [run, List.foldl_cons, List.foldl_cons, List.foldl_cons, List.foldl_nil, hcall, helapse,
    apply_of_delayed_nil hdelayed]
  exact ⟨hdelayed, ⟨[], (List.append_nil _).symm, .refl _⟩, (List.append_nil _).symm⟩

/-! ## What calls got -/

/-- What a call got is what it has returned. -/
theorem result?_eq_some_iff (hs : Sound ms s) {n : Nat} {result : Except ChannelError Json} :
    s.result? n = some result ↔ ∃ message, ⟨n, message, result⟩ ∈ s.returned := by
  rw [Session.result?, Option.map_eq_some_iff]
  constructor
  · rintro ⟨⟨n', message, result'⟩, hfind, rfl⟩
    have hn := List.find?_some hfind
    obtain rfl : n' = n := of_decide_eq_true hn
    exact ⟨message, List.mem_of_find?_eq_some hfind⟩
  · rintro ⟨message, hr⟩
    cases hfind : s.returned.find? fun r => r.call = n with
    | none => exact absurd (decide_eq_true rfl) (List.find?_eq_none.mp hfind _ hr)
    | some r' =>
      have hn := List.find?_some hfind
      have heq := List.inj_on_of_nodup_map hs.once.of_append_right (List.mem_of_find?_eq_some hfind) hr
        (of_decide_eq_true hn)
      exact ⟨r', rfl, by rw [heq]⟩

/-- A call that has not been made yet has not returned. -/
theorem lt_next_of_returned (hs : Sound ms s) {r : Returned} (hr : r ∈ s.returned) : r.call < s.next := by
  rw [hs.next]
  exact (List.getElem?_eq_some_iff.mp (hs.reached_own _ (hs.returned_reached r hr))).1

variable {ms' : List Outgoing} {s' : Session}

/-- Each call gets the answer of the index. -/
theorem Answered.result? {index : Index} {messages : List Outgoing} (h : Answered index (numbered s.next messages) s s')
    (hs : Sound ms s) (hs' : Sound ms' s') {c : Nat × Outgoing} (hc : c ∈ numbered s.next messages) :
    s'.result? c.1 = index.result? c.2 := by
  ext result
  rw [result?_eq_some_iff hs', h.returned]
  constructor
  · rintro ⟨message, hr⟩
    rcases List.mem_append.mp hr with hr | hr
    · exact absurd (le_of_mem_numbered hc) (Nat.not_le.mpr (lt_next_of_returned hs hr))
    · obtain ⟨hmem, hresult⟩ := mem_returns.mp hr
      have heq := List.inj_on_of_nodup_map (numbered_fst_nodup _ _) hmem hc rfl
      exact heq ▸ hresult
  · exact fun hresult => ⟨c.2, List.mem_append_right _ (mem_returns.mpr ⟨hc, hresult⟩)⟩

/-- A call that the index was not asked by gets nothing. -/
theorem Answered.result?_eq_none {index : Index} (h : Answered index [] s s') (hs : Sound ms s) (hs' : Sound ms' s') :
    s'.result? s.next = none := by
  refine Option.eq_none_iff_forall_not_mem.mpr fun result hresult => ?_
  obtain ⟨message, hr⟩ := (result?_eq_some_iff hs').mp hresult
  rw [h.returned, returns, List.filterMap_nil, List.append_nil] at hr
  exact Nat.lt_irrefl _ (lt_next_of_returned hs hr)

end Session

end IndexFs.Meter

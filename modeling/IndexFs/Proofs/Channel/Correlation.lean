import IndexFs.Proofs.Channel.Phase
import Mathlib.Data.List.Induction

/-!
# Correlation

The result of a request is what happened to it first after it had started: its frame could not be written,
a response with its id was read, or reading ended (`Explains`). Nothing else gives a request a result, and
no call gets two (`result_explained`).
-/

namespace IndexFs.Channel

variable {Call : Type}

/-- The id that the next request gets: each request so far has taken one. -/
def idAfter (h : List (Mark Call)) : Nat :=
  h.countP Mark.isRequest + 1

/-- The call that starts here. -/
def Event.starts? (e : Event Call) : Option Call :=
  (Mark.event e).starts?

/-- A response to the request with this id: a text under `method` would make it a request. -/
def Answers (id : Nat) (m : Json) : Prop :=
  (m.get? "id").bind Json.signed? = some (id : Int) ∧ (m.get? "method").bind Json.string? = none

/-- Nothing in a history says what the result of the request with this id is. -/
def Unanswered (id : Nat) (h : List (Mark Call)) : Prop :=
  .ended ∉ h ∧ ∀ m, .message m ∈ h → ¬Answers id m

/-- What is read about a request in the history after its start. -/
inductive Replied (id : Nat) : List (Mark Call) → Result → Prop where
  | result {a b : List (Mark Call)} {m : Json} (hfirst : Unanswered id a) (hanswers : Answers id m)
      (herror : m.get? "error" = none) :
      Replied id (a ++ .message m :: b) (.ok ((m.get? "result").getD .null))
  | error {a b : List (Mark Call)} {m e : Json} (hfirst : Unanswered id a) (hanswers : Answers id m)
      (herror : m.get? "error" = some e) :
      Replied id (a ++ .message m :: b)
        (.error (.server (((e.get? "code").bind Json.signed?).getD 0)
          (((e.get? "message").bind Json.string?).getD "")))
  | closed {a b : List (Mark Call)} (hfirst : Unanswered id a) :
      Replied id (a ++ .ended :: b) (.error .closed)

/-- Why a request that started between two parts of a history has its result. -/
inductive Explains (id : Nat) (call : Call) (before after : List (Mark Call)) : Result → Prop where
  | write {e : ChannelError} (hwrite : .write (.request id call) (.error e) ∈ after) :
      Explains id call before after (.error e)
  | reply {r : Result} (hbefore : .ended ∉ before) (hreply : Replied id after r) :
      Explains id call before after r
  | late (hbefore : .ended ∈ before) : Explains id call before after (.error .closed)

/-- What is known of a request, by how far it has come. -/
def Told (id : Nat) (call : Call) (before after : List (Mark Call)) : Phase → Prop
  | .waiting n _ =>
    n = id ∧ .ended ∉ before ∧ Unanswered id after ∧ .event (.cancel call) ∉ after
  | .answered n r => n = id ∧ .ended ∉ before ∧ Replied id after r
  | .finished r => Explains id call before after r
  | .cancelled => .event (.cancel call) ∈ after
  | _ => False

/-- What comes after the reply does not change it. -/
theorem Replied.snoc {id : Nat} {h : List (Mark Call)} {r : Result} (hr : Replied id h r)
    (m : Mark Call) : Replied id (h ++ [m]) r := by
  cases hr with
  | result hfirst hanswers herror =>
    rw [List.append_assoc, List.cons_append]
    exact .result hfirst hanswers herror
  | error hfirst hanswers herror =>
    rw [List.append_assoc, List.cons_append]
    exact .error hfirst hanswers herror
  | closed hfirst =>
    rw [List.append_assoc, List.cons_append]
    exact .closed hfirst

theorem Explains.snoc {id : Nat} {call : Call} {before after : List (Mark Call)} {r : Result}
    (hr : Explains id call before after r) (m : Mark Call) :
    Explains id call before (after ++ [m]) r := by
  cases hr with
  | write hwrite => exact .write (List.mem_append_left _ hwrite)
  | reply hbefore hreply => exact .reply hbefore (hreply.snoc m)
  | late hbefore => exact .late hbefore

/-- A frame that answers a request is taken for its response, with the outcome that it says. -/
theorem incoming_of_answers {id : Nat} {m : Json} (h : Answers id m) :
    Incoming.of m = .response id (Message.outcome m) := by
  obtain ⟨hid, hmethod⟩ := h
  unfold Incoming.of
  rw [hmethod]
  obtain ⟨v, hv, hsigned⟩ := Option.bind_eq_some_iff.mp hid
  rw [hv]
  simp only [hsigned]

theorem answers_of_incoming {id : Nat} {m : Json} {r : Result}
    (h : Incoming.of m = .response id r) : Answers id m := by
  obtain ⟨hid, hmethod, -⟩ := Session.of_eq_response h
  exact ⟨hid, hmethod⟩

/-- The first frame that answers a request is its reply. -/
theorem replied_of_answers {id : Nat} {m : Json} {h : List (Mark Call)} (hfirst : Unanswered id h)
    (hanswers : Answers id m) : Replied id (h ++ [.message m]) (Message.outcome m) := by
  unfold Message.outcome
  cases herror : m.get? "error" with
  | none => exact .result hfirst hanswers herror
  | some e => exact .error hfirst hanswers herror

theorem Unanswered.snoc {id : Nat} {h : List (Mark Call)} (hh : Unanswered id h) {m : Mark Call}
    (hended : m ≠ .ended) (hmessage : ∀ j, m = .message j → ¬Answers id j) :
    Unanswered id (h ++ [m]) := by
  refine ⟨fun hmem => ?_, fun j hmem => ?_⟩
  · rcases List.mem_append.mp hmem with hmem | hmem
    · exact hh.1 hmem
    · exact hended (List.mem_singleton.mp hmem).symm
  · rcases List.mem_append.mp hmem with hmem | hmem
    · exact hh.2 j hmem
    · exact hmessage j (List.mem_singleton.mp hmem).symm

/-- What leaves a call in its phase leaves what is known of it. -/
theorem told_snoc {id : Nat} {call : Call} {before after : List (Mark Call)} {p : Phase} {m : Mark Call}
    (hp : Told id call before after p) (hended : m ≠ .ended)
    (hmessage : ∀ j, m = .message j → p.pending? ≠ none → ¬Answers id j)
    (hcancel : m ≠ .event (.cancel call)) : Told id call before (after ++ [m]) p := by
  cases p with
  | waiting n queued =>
    obtain ⟨hn, hbefore, hafter, hnot⟩ := hp
    refine ⟨hn, hbefore, hafter.snoc hended fun j hj => hmessage j hj (Option.some_ne_none n), ?_⟩
    intro hmem
    rcases List.mem_append.mp hmem with hmem | hmem
    · exact hnot hmem
    · exact hcancel (List.mem_singleton.mp hmem).symm
  | answered n r => exact ⟨hp.1, hp.2.1, hp.2.2.snoc m⟩
  | finished r => exact Explains.snoc hp m
  | cancelled => exact List.mem_append_left _ hp
  | absent => exact hp.elim
  | notifying => exact hp.elim

/-- A message that is not a response to a request leaves the request as it is. -/
theorem receive_of_told {id : Nat} {call : Call} {before after : List (Mark Call)} {p : Phase} {j : Json}
    (hp : Told id call before after p) (hj : ¬Answers id j) : p.receive j = p := by
  apply Session.receive_eq_self
  intro n r hn hincoming
  cases p with
  | waiting n' queued =>
    cases hn
    rw [hp.1] at hincoming
    exact hj (answers_of_incoming hincoming)
  | _ => cases hn

/-- The phase of the call is explained by the history as well after one more frame. -/
theorem told_receive {id : Nat} {call : Call} {before after : List (Mark Call)} {p : Phase} (j : Json)
    (hp : Told id call before after p) :
    Told id call before (after ++ [.message j]) (p.receive j) := by
  have hsame : (p.pending? ≠ none → ¬Answers id j) →
      Told id call before (after ++ [.message j]) p := fun hj =>
    told_snoc hp (by intro h; cases h) (fun j' h hpending => by cases h; exact hj hpending)
      (by intro h; cases h)
  by_cases hanswers : Answers id j
  · cases p with
    | waiting n queued =>
      obtain ⟨rfl, hbefore, hafter, -⟩ := hp
      have hreply := replied_of_answers hafter hanswers
      simp only [Phase.receive, incoming_of_answers hanswers, if_pos]
      -- a call whose frame is not written yet keeps its result until then
      cases queued with
      | true => exact ⟨rfl, hbefore, hreply⟩
      | false => exact .reply hbefore hreply
    | _ => exact hsame fun hpending => absurd rfl hpending
  · rw [receive_of_told hp hanswers]
    exact hsame fun _ => hanswers

theorem told_ended {id : Nat} {call : Call} {before after : List (Mark Call)} {p : Phase}
    (hp : Told id call before after p) :
    Told id call before (after ++ [.ended]) (p.deliver (.error .closed)) := by
  cases p with
  | waiting n queued =>
    obtain ⟨rfl, hbefore, hafter, -⟩ := hp
    have hreply : Replied n (after ++ [.ended]) (.error .closed) := .closed hafter
    cases queued with
    | true => exact ⟨rfl, hbefore, hreply⟩
    | false => exact .reply hbefore hreply
  | answered n r => exact ⟨hp.1, hp.2.1, hp.2.2.snoc _⟩
  | finished r => exact Explains.snoc hp _
  | cancelled => exact List.mem_append_left _ hp
  | absent => exact hp.elim
  | notifying => exact hp.elim

theorem told_written {id : Nat} {call : Call} {before after : List (Mark Call)} {p : Phase}
    {origin : Origin Call} (horigin : p.origin? call = some origin) (r : Except ChannelError Unit)
    (hp : Told id call before after p) :
    Told id call before (after ++ [.write origin r]) (p.written r) := by
  -- a write tells nothing about responses
  have hsame := told_snoc (m := .write origin r) hp (by intro h; cases h)
    (fun _ h => by cases h) (by intro h; cases h)
  have hlast : .write origin r ∈ after ++ [.write origin r] :=
    List.mem_append_right _ (List.mem_singleton_self _)
  cases p with
  | waiting n queued =>
    cases queued with
    | false => cases horigin
    | true =>
      cases horigin
      obtain ⟨rfl, hrest⟩ := hsame
      cases r with
      | ok _ => exact ⟨rfl, hrest⟩
      | error e => exact .write hlast
  | answered n a =>
    cases horigin
    obtain ⟨rfl, hbefore, hreply⟩ := hsame
    cases r with
    | ok _ => exact .reply hbefore hreply
    | error e => exact .write hlast
  | notifying => exact hp.elim
  | _ => cases horigin

theorem told_cancel {id : Nat} {call : Call} {before after : List (Mark Call)} {p : Phase}
    (hp : Told id call before after p) :
    Told id call before (after ++ [.event (.cancel call)]) p.cancel := by
  have hlast : .event (.cancel call) ∈ after ++ [.event (.cancel call)] :=
    List.mem_append_right _ (List.mem_singleton_self _)
  cases p with
  | finished r => exact Explains.snoc hp _
  | absent => exact hp.elim
  | _ => exact hlast

variable [DecidableEq Call]

/-- And so it is after any other mark that is not about the start of the call. -/
theorem told_next {id : Nat} {call : Call} {before after : List (Mark Call)} {p : Phase} {m : Mark Call}
    (hstart : m.starts? ≠ some call)
    (hwrite : ∀ origin r, m = .write origin r → Session.Origin.belongsTo call origin →
      p.origin? call = some origin)
    (hp : Told id call before after p) (n : Nat) (closed : Bool) :
    Told id call before (after ++ [m]) (p.next call n closed m) := by
  cases m with
  | event e =>
    -- an event that does not cancel the call tells nothing about it
    have hother : Event.cancel call ≠ e → Told id call before (after ++ [.event e]) p := fun he =>
      told_snoc hp (by intro h; cases h) (fun _ h => by cases h) fun h => he (by injection h with h; exact h.symm)
    cases e with
    | request c method params =>
      have hc : c ≠ call := fun hc => hstart (congrArg some hc)
      simp only [Phase.next, if_neg hc]
      exact hother (by intro h; cases h)
    | notify c method params =>
      have hc : c ≠ call := fun hc => hstart (congrArg some hc)
      simp only [Phase.next, if_neg hc]
      exact hother (by intro h; cases h)
    | cancel c =>
      by_cases hc : c = call
      · subst hc
        simp only [Phase.next, if_pos]
        exact told_cancel hp
      · simp only [Phase.next, if_neg hc]
        exact hother fun h => hc (by injection h with h; exact h.symm)
    | _ => exact hother (by intro h; cases h)
  | write origin r =>
    -- only the frame of the call itself matters to it
    simp only [Phase.next]
    split
    · next hmine => exact told_written (hwrite origin r rfl hmine) r hp
    · exact told_snoc hp (by intro h; cases h) (fun _ h => by cases h) (by intro h; cases h)
  | message j => exact told_receive j hp
  | ended => exact told_ended hp

theorem Phase.next_absent {call : Call} {m : Mark Call} (hm : m.starts? ≠ some call) {id : Nat}
    {closed : Bool} : Phase.absent.next call id closed m = .absent := by
  cases m with
  | event e =>
    cases e with
    | request c method params => exact if_neg fun hc => hm (congrArg some hc)
    | notify c method params => exact if_neg fun hc => hm (congrArg some hc)
    | cancel c =>
      simp only [Phase.next, Phase.cancel]
      split <;> rfl
    | _ => rfl
  | write origin r =>
    simp only [Phase.next, Phase.written]
    split <;> rfl
  | message j => rfl
  | ended => rfl

namespace Session

/-! ## Histories -/

/-- The calls that have started. -/
def started (h : List (Mark Call)) : List Call :=
  h.filterMap Mark.starts?

omit [DecidableEq Call] in
theorem started_eq (h : List (Mark Call)) :
    started h = (h.filterMap Mark.event?).filterMap Event.starts? := by
  rw [List.filterMap_filterMap, started]
  congr 1
  funext m
  cases m <;> rfl

omit [DecidableEq Call] in
theorem started_event {e : Event Call} {call : Call} (he : e.starts? = some call)
    (before after : List (Mark Call)) :
    started (before ++ .event e :: after) = started before ++ call :: started after := by
  unfold started
  rw [List.filterMap_append, List.filterMap_cons, show (Mark.event e).starts? = some call from he]

theorem history_concat {h : List (Mark Call)} {m : Mark Call} {t : Session Call}
    (hist : History (h ++ [m]) t) : ∃ s, History h s ∧ Step s m t := by
  generalize hh : h ++ [m] = h' at hist
  cases hist with
  | new => exact absurd hh (List.append_ne_nil_of_right_ne_nil h (List.cons_ne_nil m []))
  | step hist hstep =>
    obtain ⟨rfl, hm⟩ := List.append_inj' hh rfl
    cases hm
    exact ⟨_, hist, hstep⟩

/-- The next id follows from the calls that were made. -/
theorem nextId_history {h : List (Mark Call)} {s : Session Call} (hist : History h s) :
    s.nextId = idAfter h := by
  induction hist with
  | new => rfl
  | step _ hstep ih =>
    rw [nextId_step hstep, ih]
    unfold idAfter
    rw [List.countP_append, List.countP_singleton]
    omega

/-- The session is closed exactly once the end of its input was noticed. -/
theorem closed_history {h : List (Mark Call)} {s : Session Call} (hist : History h s) :
    s.closed = true ↔ .ended ∈ h := by
  induction hist with
  | new => simp [new]
  | step _ hstep ih =>
    rw [closed_step hstep, ih, List.mem_append, List.mem_singleton]
    exact or_congr_right eq_comm

theorem at_absent {h : List (Mark Call)} {s : Session Call} (hist : History h s) {call : Call}
    (hcall : call ∉ started h) : s.At call .absent := by
  induction hist with
  | new => exact At.new call
  | step hist hstep ih =>
    rename_i h s t m
    rw [started, List.filterMap_append, List.mem_append, not_or] at hcall
    have hm : m.starts? ≠ some call := fun hm => hcall.2 (by simp [hm])
    have hs := ih hcall.1
    have hnext := at_step hstep (numbered_history hist) hs fun hm' => absurd hm' hm
    rwa [Phase.next_absent hm] at hnext

/-- Every call is in some phase, since none was started twice. -/
theorem exists_at {h : List (Mark Call)} {s : Session Call} (hist : History h s)
    (hfresh : (started h).Nodup) (call : Call) : ∃ p, s.At call p := by
  induction hist with
  | new => exact ⟨.absent, At.new call⟩
  | step hist hstep ih =>
    rename_i h s t m
    rw [started, List.filterMap_append, List.nodup_append] at hfresh
    by_cases hm : m.starts? = some call
    · have hcall : call ∉ started h := fun hmem => hfresh.2.2 call hmem call (by simp [hm]) rfl
      exact ⟨_, at_step hstep (numbered_history hist) (at_absent hist hcall) fun _ => rfl⟩
    · obtain ⟨p, hs⟩ := ih hfresh.1
      exact ⟨_, at_step hstep (numbered_history hist) hs fun hm' => absurd hm' hm⟩

/-- What holds of a call when it starts, and after each further step, holds of it at the end. -/
theorem exists_phase {P : List (Mark Call) → Phase → Prop} {before after : List (Mark Call)}
    {e : Event Call} {call : Call} (hstart : e.starts? = some call)
    (hfirst : ∀ s, History before s → P [] (Phase.absent.next call s.nextId s.closed (.event e)))
    (hnext : ∀ after p m n closed, m.starts? ≠ some call →
      (∀ origin r, m = .write origin r → Origin.belongsTo call origin → p.origin? call = some origin) →
      P after p → P (after ++ [m]) (p.next call n closed m))
    {t : Session Call} (hist : History (before ++ .event e :: after) t)
    (hfresh : (started (before ++ .event e :: after)).Nodup) : ∃ p, t.At call p ∧ P after p := by
  -- by induction on what happened after the start, from its first thing to its last
  induction after using List.reverseRecOn generalizing t with
  | nil =>
    obtain ⟨s, hist, hstep⟩ := history_concat hist
    rw [started_event hstart, List.nodup_append] at hfresh
    have hcall : call ∉ started before := fun hmem =>
      hfresh.2.2 call hmem call List.mem_cons_self rfl
    exact ⟨_, at_step hstep (numbered_history hist) (at_absent hist hcall) fun _ => rfl,
      hfirst s hist⟩
  | append_singleton after m ih =>
    rw [← List.cons_append, ← List.append_assoc] at hist hfresh
    obtain ⟨s, hist, hstep⟩ := history_concat hist
    rw [started, List.filterMap_append, List.nodup_append] at hfresh
    obtain ⟨p, hs, hp⟩ := ih hist hfresh.1
    have hm : m.starts? ≠ some call := fun hm => by
      refine hfresh.2.2 call ?_ call (by simp [hm]) rfl
      show call ∈ started _
      rw [started_event hstart]
      exact List.mem_append_right _ List.mem_cons_self
    refine ⟨_, at_step hstep (numbered_history hist) hs fun hm' => absurd hm' hm, ?_⟩
    refine hnext after p m _ _ hm ?_ hp
    -- what is written is the first frame of the queue, and a call has at most one there
    intro origin r hwrite hmine
    subst hwrite
    cases hstep with
    | write hblocked hqueue => exact (hs.mem_queue hmine).mp (by simp [hqueue])

/-- What is known of a request at the end of a history. -/
theorem exists_told {before after : List (Mark Call)} {call : Call} {method : String} {params : Json}
    {t : Session Call} (hist : History (before ++ .event (.request call method params) :: after) t)
    (hfresh : (started (before ++ .event (.request call method params) :: after)).Nodup) :
    ∃ p, t.At call p ∧ Told (idAfter before) call before after p := by
  refine exists_phase (P := Told (idAfter before) call before) rfl ?_
    (fun _ _ _ n closed hm hwrite hp => told_next hm hwrite hp n closed) hist hfresh
  intro s hist
  simp only [Phase.next, if_pos]
  split
  · next hclosed => exact .late ((closed_history hist).mp hclosed)
  · next hclosed =>
    refine ⟨nextId_history hist, fun hended => hclosed ((closed_history hist).mpr hended), ?_, ?_⟩
    · exact ⟨List.not_mem_nil, fun _ h => absurd h List.not_mem_nil⟩
    · exact List.not_mem_nil

/-- No call has two results. -/
theorem nodup_results {h : List (Mark Call)} {s : Session Call} (hist : History h s)
    (hfresh : (started h).Nodup) : (s.results.map (·.1)).Nodup := by
  rw [List.nodup_iff_count_le_one]
  intro call
  obtain ⟨p, hs⟩ := exists_at hist hfresh call
  have hlength := congrArg List.length hs.results
  rw [List.count_eq_countP, List.countP_map, List.countP_eq_length_filter]
  refine Nat.le_trans (Nat.le_of_eq ?_) (Nat.le_trans (Nat.le_of_eq hlength) ?_)
  · congr 1
  · cases p.result? <;> simp

/-- Whatever happens to a session, in whatever order and as long as its calls are told apart: no call ends
twice, and the result of a request is what its write, the first response with its id or the end of reading
says. A message that is no such response ends nothing. -/
theorem result_explained (events : List (Event Call)) (hcalls : (events.filterMap Event.starts?).Nodup) :
    (∃ h : List (Mark Call), h.filterMap Mark.event? = events ∧ History h (events.foldl apply .new)) ∧
      ∀ h s, h.filterMap Mark.event? = events → History h s →
        (s.results.map (·.1)).Nodup ∧
          ∀ before after call method params,
            h = before ++ .event (.request call method params) :: after →
              (∀ s₀, History before s₀ → s₀.nextId = idAfter before) ∧
              (∀ r, (call, r) ∈ s.results → Explains (idAfter before) call before after r) ∧
              ∀ m t, ¬Answers (idAfter before) m → Step s (.message m) t →
                ∀ r, ((call, r) ∈ t.results ↔ (call, r) ∈ s.results) ∧
                  ((call, r) ∈ t.answered ↔ (call, r) ∈ s.answered) := by
  refine ⟨history_foldl_apply events, fun h s hevents hist => ?_⟩
  have hfresh : (started h).Nodup := by
    rw [started_eq, hevents]
    exact hcalls
  refine ⟨nodup_results hist hfresh, fun before after call method params hsplit => ?_⟩
  subst hsplit
  obtain ⟨p, hs, hp⟩ := exists_told hist hfresh
  refine ⟨fun s₀ hist₀ => nextId_history hist₀, fun r hr => ?_, fun m t hm hstep r => ?_⟩
  · -- a call with a result has ended, and its phase knows why
    cases p with
    | finished r' =>
      cases (hs.mem_results r).mp hr
      exact hp
    | _ => cases (hs.mem_results r).mp hr
  · -- a message that does not answer the call leaves its phase as it is
    have ht := at_step hstep (numbered_history hist) hs fun hm' => by cases hm'
    have hsame : p.next call s.nextId s.closed (.message m) = p := receive_of_told hp hm
    rw [hsame] at ht
    rw [ht.mem_results, hs.mem_results, ht.mem_answered, hs.mem_answered]
    exact ⟨Iff.rfl, Iff.rfl⟩

/-- Two requests, and a response to the second while the first still waits. -/
theorem result_explained_out_of_order :
    let events : List (Event Nat) :=
      [.request 7 "a" .null, .request 8 "b" .null,
        .receive (Frame.bytes (Message.response (.ofNat 2) (.ok .null))), .endInput .closed]
    (events.filterMap Event.starts?).Nodup ∧ ((events.foldl apply .new).results.map (·.1)).Nodup := by
  intro events
  have hcalls : (events.filterMap Event.starts?).Nodup := by
    show [7, 8].Nodup
    decide
  obtain ⟨⟨h, hevents, hist⟩, hall⟩ := result_explained events hcalls
  exact ⟨hcalls, (hall h _ hevents hist).1⟩

end Session

end IndexFs.Channel

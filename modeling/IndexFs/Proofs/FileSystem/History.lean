import IndexFs.Proofs.FileSystem.Delivery
import IndexFs.Proofs.FileSystem.Settled

/-!
# Histories of a file system session

What happens to a session is noted in the order in which it happens: what comes from outside, the start of
the connector, each result that comes back over the channel, and each read that leaves the gate. A history
leaves it open who answers, with what and when; instead, its link takes note of all that is said
(`Link.tape`). A session on a link of its own, be it to an index or to a server, goes through one of these
histories (`history_run`).
-/

namespace IndexFs

namespace Link

variable {Call : Type}

/-- A link that takes note of what is said, and leaves the answers to others. -/
def tape (said : List Outgoing) : Link Call :=
  .direct (fun _ => .silence) said []

end Link

namespace FileSystem

/-- What is noted of a session. -/
inductive Mark where
  /-- Something happened from outside. -/
  | event (e : Event)
  /-- The connector started. -/
  | connect
  /-- A result came back over the channel. -/
  | hear (caller : Caller) (reply : Channel.Result)
  /-- A read left the gate. -/
  | pass (call : Nat)

def Mark.event? : Mark → Option Event
  | .event e => some e
  | _ => none

namespace Session

/-- What the session has said on the channel. -/
def said (s : Session) : List Outgoing :=
  s.link.received

/-- The session with others waiting at its gate. -/
def withWaiting (s : Session) (waiting : List Nat) : Session :=
  { s with gate := { s.gate with waiting := waiting } }

/-- One thing that happens, and what is noted of it. -/
inductive Step : Session → Mark → Session → Prop where
  | event (s : Session) (e : Event) : Step s (.event e) (s.occur e)
  | connect {s : Session} (hready : s.canConnect = true) : Step s .connect s.openChannel
  | hear {s : Session} {caller : Caller} (hexpects : s.Expects caller) (reply : Channel.Result) :
      Step s (.hear caller reply) (s.hear caller reply)
  | pass {s : Session} {r : Except ChannelError Unit} {call : Nat} {before after : List Nat}
      (houtcome : s.gate.outcome = some r) (hwaiting : s.gate.waiting = before ++ call :: after) :
      Step s (.pass call) ((s.withWaiting (before ++ after)).proceed call (Gate.verdict r))

/-- The histories of a session, and the state that each of them leads to. -/
inductive History (connector : Connector) (statErrorsAsNotFound : Bool) (processId : Nat) :
    List Mark → Session → Prop where
  | new : History connector statErrorsAsNotFound processId []
      (.new connector (.tape []) statErrorsAsNotFound processId)
  | step {h : List Mark} {s t : Session} {m : Mark}
      (hist : History connector statErrorsAsNotFound processId h s) (hstep : Step s m t) :
      History connector statErrorsAsNotFound processId (h ++ [m]) t

/-! ## Sessions on a link of their own -/

/-- A session and one that differs in its link alone: it takes note of what is said on the other one. -/
def Mirrors (s t : Session) : Prop :=
  ∃ said, t = s.withLink (.tape said) ∧ s.link.Noted said

theorem mirrors_request {s t : Session} (h : s.Mirrors t) (caller : Caller) (method : String)
    (params : Json) : (s.request caller method params).Mirrors (t.request caller method params) := by
  obtain ⟨said, rfl, hnoted⟩ := h
  exact ⟨said ++ [Outgoing.request method params], rfl, Link.noted_request hnoted caller method params⟩

theorem mirrors_notify {s t : Session} (h : s.Mirrors t) (caller : Caller) (method : String)
    (params : Json) : (s.notify caller method params).Mirrors (t.notify caller method params) := by
  obtain ⟨said, rfl, hnoted⟩ := h
  exact ⟨said ++ [Outgoing.notification method params], rfl, Link.noted_notify hnoted caller method params⟩

/-- Two sessions that mirror each other do so after the same event. -/
theorem mirrors_occur {s t : Session} (hcalm : s.link.Calm) (h : s.Mirrors t) (e : Event) :
    (s.occur e).Mirrors (t.occur e) := by
  obtain ⟨said, rfl, hnoted⟩ := h
  refine ⟨said, ?_, ?_⟩
  · cases e <;> rfl
  · cases e with
    | cancel call => exact Link.noted_cancel hcalm hnoted _
    | _ => exact hnoted

theorem mirrors_openChannel {s t : Session} (h : s.Mirrors t) :
    s.openChannel.Mirrors t.openChannel := by
  obtain ⟨said, rfl, hnoted⟩ := h
  cases hfate : s.connector.fate with
  | breaksDown message =>
    rw [openChannel_of_breakdown hfate, openChannel_of_breakdown (s := s.withLink (.tape said)) hfate]
    exact ⟨said, rfl, hnoted⟩
  | fails e =>
    rw [openChannel_of_failure hfate, openChannel_of_failure (s := s.withLink (.tape said)) hfate]
    exact ⟨said, rfl, hnoted⟩
  | opens client =>
    cases client with
    | none =>
      rw [openChannel_of_anonymous hfate, openChannel_of_anonymous (s := s.withLink (.tape said)) hfate]
      exact ⟨said, rfl, hnoted⟩
    | some name =>
      rw [openChannel_of_name hfate, openChannel_of_name (s := s.withLink (.tape said)) hfate]
      refine mirrors_request ?_ _ _ _
      exact ⟨said, rfl, hnoted⟩

/-- And after the same reply. -/
theorem mirrors_hear {s t : Session} (h : s.Mirrors t) (caller : Caller) (reply : Channel.Result) :
    (s.hear caller reply).Mirrors (t.hear caller reply) := by
  have h' := h
  obtain ⟨said, rfl, hnoted⟩ := h
  cases caller with
  | introduction =>
    unfold hear
    cases Handshake.accept reply with
    | error e => exact ⟨said, rfl, hnoted⟩
    | ok i =>
      refine mirrors_notify ?_ _ _ _
      exact ⟨said, rfl, hnoted⟩
  | confirmation => exact ⟨said, rfl, hnoted⟩
  | read call =>
    cases hlookup : s.reads.lookup call with
    | none =>
      rw [hear_read_of_none hlookup, hear_read_of_none (s := s.withLink (.tape said)) hlookup]
      exact h'
    | some r =>
      rw [hear_read_of_some hlookup, hear_read_of_some (s := s.withLink (.tape said)) hlookup]
      exact ⟨said, rfl, hnoted⟩

theorem mirrors_proceed {s t : Session} (h : s.Mirrors t) (call : Nat)
    (verdict : Except FsError Unit) : (s.proceed call verdict).Mirrors (t.proceed call verdict) := by
  have h' := h
  obtain ⟨said, rfl, hnoted⟩ := h
  cases hlookup : s.reads.lookup call with
  | none =>
    rw [proceed_of_none hlookup, proceed_of_none (s := s.withLink (.tape said)) hlookup]
    exact h'
  | some r =>
    cases verdict with
    | ok _ =>
      rw [proceed_of_ok hlookup, proceed_of_ok (s := s.withLink (.tape said)) hlookup]
      exact mirrors_request h' _ _ _
    | error e =>
      rw [proceed_of_error hlookup, proceed_of_error (s := s.withLink (.tape said)) hlookup]
      exact ⟨said, rfl, hnoted⟩

theorem mirrors_withWaiting {s t : Session} (h : s.Mirrors t) (waiting : List Nat) :
    (s.withWaiting waiting).Mirrors (t.withWaiting waiting) := by
  obtain ⟨said, rfl, hnoted⟩ := h
  exact ⟨said, rfl, hnoted⟩

/-! ## What a session does by itself -/

variable {connector : Connector} {statErrorsAsNotFound : Bool} {processId : Nat}

/-- The session goes on from a history, which grows by what is done and not by anything from outside. -/
def Continues (connector : Connector) (statErrorsAsNotFound : Bool) (processId : Nat) (h : List Mark)
    (s : Session) : Prop :=
  ∃ ms t, ms.filterMap Mark.event? = [] ∧
    History connector statErrorsAsNotFound processId (h ++ ms) t ∧ s.Mirrors t

theorem continues_refl {h : List Mark} {s t : Session}
    (hist : History connector statErrorsAsNotFound processId h t) (hmirrors : s.Mirrors t) :
    Continues connector statErrorsAsNotFound processId h s :=
  ⟨[], t, rfl, by rwa [List.append_nil], hmirrors⟩

/-- One thing more is done before the others. -/
theorem continues_step {h : List Mark} {s : Session} {m : Mark} (hm : m.event? = none)
    (hrest : Continues connector statErrorsAsNotFound processId (h ++ [m]) s) :
    Continues connector statErrorsAsNotFound processId h s := by
  obtain ⟨ms, t, hms, hist, hmirrors⟩ := hrest
  refine ⟨m :: ms, t, ?_, ?_, hmirrors⟩
  · rw [List.filterMap_cons_none hm, hms]
  · rwa [List.append_cons]

/-- One part of the history after the other. -/
theorem continues_trans {h : List Mark} {s s' : Session}
    (hfirst : Continues connector statErrorsAsNotFound processId h s)
    (hrest : ∀ h' t, History connector statErrorsAsNotFound processId h' t → s.Mirrors t →
      Continues connector statErrorsAsNotFound processId h' s') :
    Continues connector statErrorsAsNotFound processId h s' := by
  obtain ⟨ms, t, hms, hist, hmirrors⟩ := hfirst
  obtain ⟨ms', t', hms', hist', hmirrors'⟩ := hrest _ t hist hmirrors
  refine ⟨ms ++ ms', t', ?_, ?_, hmirrors'⟩
  · rw [List.filterMap_append, hms, hms']
    rfl
  · rwa [← List.append_assoc]

/-- Opening the connection is a step of the history. -/
theorem history_connect {h : List Mark} {s t : Session}
    (hist : History connector statErrorsAsNotFound processId h t) (hmirrors : s.Mirrors t) :
    Continues connector statErrorsAsNotFound processId h s.connect := by
  cases hready : s.canConnect with
  | false =>
    rw [connect_of_false hready]
    exact continues_refl hist hmirrors
  | true =>
    have hready' : t.canConnect = true := by
      obtain ⟨said, rfl, -⟩ := hmirrors
      exact hready
    rw [connect_of_true hready]
    exact continues_step rfl (continues_refl (hist.step (.connect hready')) (mirrors_openChannel hmirrors))

/-- Replies are heard one at a time, each of them a step. -/
theorem history_hearAll {h : List Mark} {s t : Session} {rs : List (Caller × Channel.Result)}
    (hs : s.Coherent rs) (hist : History connector statErrorsAsNotFound processId h t)
    (hmirrors : s.Mirrors t) :
    Continues connector statErrorsAsNotFound processId h (s.hearAll rs) := by
  induction rs generalizing h s t with
  | nil => exact continues_refl hist hmirrors
  | cons r rs ih =>
    obtain ⟨caller, reply⟩ := r
    have hexpects : t.Expects caller := by
      have hexpects := hs.head.1
      obtain ⟨said, rfl, -⟩ := hmirrors
      cases caller <;> exact hexpects
    refine continues_step (m := .hear caller reply) rfl ?_
    exact ih (coherent_hear hs) (hist.step (.hear hexpects reply)) (mirrors_hear hmirrors caller reply)

theorem history_exchange {h : List Mark} {s t : Session} (hs : s.Coherent [])
    (hist : History connector statErrorsAsNotFound processId h t) (hmirrors : s.Mirrors t) :
    Continues connector statErrorsAsNotFound processId h s.exchange := by
  have hcollected : (s.withLink s.link.settle.collect.1).Mirrors t := by
    obtain ⟨said, rfl, hnoted⟩ := hmirrors
    exact ⟨said, rfl, Link.noted_settle hs.sound hnoted⟩
  rw [exchange_eq_hearAll]
  exact history_hearAll (coherent_collected hs) hist hcollected

/-- Who waits does not matter to a read that has left the gate. -/
theorem proceed_withWaiting (s : Session) (waiting : List Nat) (call : Nat)
    (verdict : Except FsError Unit) :
    (s.withWaiting waiting).proceed call verdict = (s.proceed call verdict).withWaiting waiting := by
  cases hlookup : s.reads.lookup call with
  | none => rw [proceed_of_none hlookup, proceed_of_none (s := s.withWaiting waiting) hlookup]
  | some r =>
    cases verdict with
    | ok _ =>
      rw [proceed_of_ok hlookup, proceed_of_ok (s := s.withWaiting waiting) hlookup]
      rfl
    | error e =>
      rw [proceed_of_error hlookup, proceed_of_error (s := s.withWaiting waiting) hlookup]
      rfl

/-- All who wait leave the gate in their order. -/
theorem history_proceedAll {h : List Mark} {s t : Session} {r : Except ChannelError Unit}
    (houtcome : s.gate.outcome = some r)
    (hist : History connector statErrorsAsNotFound processId h t) (hmirrors : s.Mirrors t) :
    Continues connector statErrorsAsNotFound processId h
      ((s.withWaiting []).proceedAll (s.gate.waiting.map fun c => (c, Gate.verdict r))) := by
  -- the reads are let through one by one, each as a step of its own
  generalize hwaiting : s.gate.waiting = waiting
  induction waiting generalizing h s t with
  | nil =>
    have hsame : s.withWaiting [] = s := by
      unfold withWaiting
      rw [← hwaiting]
    show Continues connector statErrorsAsNotFound processId h (s.withWaiting [])
    rw [hsame]
    exact continues_refl hist hmirrors
  | cons call rest ih =>
    have hgate : t.gate = s.gate := by
      obtain ⟨said, rfl, -⟩ := hmirrors
      rfl
    have hstep : Step t (.pass call) ((t.withWaiting ([] ++ rest)).proceed call (Gate.verdict r)) :=
      .pass (by rw [hgate, houtcome]) (by rw [hgate, hwaiting]; rfl)
    have hmirrors' : ((s.withWaiting rest).proceed call (Gate.verdict r)).Mirrors
        ((t.withWaiting rest).proceed call (Gate.verdict r)) :=
      mirrors_proceed (mirrors_withWaiting hmirrors rest) call _
    have hgate' : ((s.withWaiting rest).proceed call (Gate.verdict r)).gate = (s.withWaiting rest).gate :=
      (proceed_stays _ call _).2
    have hnext := ih (by rw [hgate']; exact houtcome) (hist.step hstep) hmirrors' (by rw [hgate']; rfl)
    -- who waits at the gate does not matter to the read that goes on
    have hsame : ((s.withWaiting rest).proceed call (Gate.verdict r)).withWaiting [] =
        (s.withWaiting []).proceed call (Gate.verdict r) := by
      rw [proceed_withWaiting, proceed_withWaiting]
      rfl
    rw [hsame] at hnext
    exact continues_step (m := .pass call) rfl hnext

theorem history_letThrough {h : List Mark} {s t : Session}
    (hist : History connector statErrorsAsNotFound processId h t) (hmirrors : s.Mirrors t) :
    Continues connector statErrorsAsNotFound processId h s.letThrough := by
  cases houtcome : s.gate.outcome with
  | none =>
    rw [letThrough_of_none houtcome]
    exact continues_refl hist hmirrors
  | some r =>
    rw [letThrough_of_some houtcome]
    exact history_proceedAll houtcome hist hmirrors

/-- What a session does on its own is told by a history that continues the one so far. -/
theorem history_settle {h : List Mark} {s t : Session} (hs : s.Coherent [])
    (hist : History connector statErrorsAsNotFound processId h t) (hmirrors : s.Mirrors t) :
    Continues connector statErrorsAsNotFound processId h s.settle := by
  have hconnect := (coherent_connect hs).1
  have hfirst := (coherent_exchange hconnect).1
  have hsecond := (coherent_exchange hfirst).1
  have hpassed : s.connect.exchange.exchange.letThrough.Coherent [] := by
    cases houtcome : s.connect.exchange.exchange.gate.outcome with
    | none =>
      rw [letThrough_of_none houtcome]
      exact hsecond
    | some r => exact (coherent_letThrough hsecond houtcome).1
  refine continues_trans (history_connect hist hmirrors) fun h t hist hmirrors => ?_
  refine continues_trans (history_exchange hconnect hist hmirrors) fun h t hist hmirrors => ?_
  refine continues_trans (history_exchange hfirst hist hmirrors) fun h t hist hmirrors => ?_
  refine continues_trans (history_letThrough hist hmirrors) fun h t hist hmirrors => ?_
  exact history_exchange hpassed hist hmirrors

variable (connector statErrorsAsNotFound processId) in
/-- A session on a link of its own goes through a history with its events. -/
theorem history_run {link : Link Caller} (hlink : link.Fresh) (events : List Event) :
    ∃ h t, h.filterMap Mark.event? = events ∧
      History connector statErrorsAsNotFound processId h t ∧
      (events.foldl apply (.new connector link statErrorsAsNotFound processId)).Mirrors t := by
  -- a history grows at its end, and so the last event is taken off
  induction events using List.reverseRecOn with
  | nil => exact ⟨[], _, rfl, .new, [], rfl, Link.noted_of_fresh hlink⟩
  | append_singleton events e ih =>
    obtain ⟨h, t, hevents, hist, hmirrors⟩ := ih
    obtain ⟨hs, hsettled⟩ := settled_run hlink connector statErrorsAsNotFound processId events
    obtain ⟨ms, t', hms, hist', hmirrors'⟩ :=
      history_settle (coherent_occur hs e) (hist.step (.event t e))
        (mirrors_occur hsettled.calm hmirrors e)
    rw [List.foldl_append]
    refine ⟨h ++ [.event e] ++ ms, t', ?_, hist', hmirrors'⟩
    rw [List.filterMap_append, List.filterMap_append, hevents, hms, List.append_nil]
    rfl

end Session

end FileSystem

end IndexFs

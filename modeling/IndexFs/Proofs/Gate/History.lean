import IndexFs.Gate.Session
import Mathlib.Data.List.Induction

/-!
# Histories of a gate

What happens at a gate is noted in the order in which it happens: what comes from outside, each caller who
reaches the gate, the end of the connector, and each caller who is let through. These things may follow one
another in any order (`Step`), and callers overtake one another on their way to the gate and behind it. A
session that is left alone does them in one such order (`history_settle`).
-/

namespace IndexFs.Gate

/-- What is noted of a session. -/
inductive Mark where
  /-- Something happened from outside. -/
  | event (e : Event)
  /-- A caller reached the gate. -/
  | enter (call : Nat)
  /-- The connector came to its end. -/
  | connect
  /-- A caller was let through and answered. -/
  | pass (call : Nat)

/-- The caller who comes here. -/
def Event.call? : Event → Option Nat
  | .call c => some c
  | _ => none

namespace Mark

def event? : Mark → Option Event
  | .event e => some e
  | _ => none

/-- The caller who comes here. -/
def call? (m : Mark) : Option Nat :=
  m.event?.bind Event.call?

end Mark

namespace Session

/-- What a caller is told who is let through: why there is no connection, or else what the index says. -/
def told (s : Session) (r : Except ChannelError Unit) : Except FsError Json :=
  (verdict r).bind fun () => (s.index.ask question).mapError .transport

/-- What becomes of the attempt to connect. -/
def fate (s : Session) (processId : Nat) : Except ChannelError Unit :=
  s.connector.outcome s.index Handshake.version processId

/-- One thing that happens, and what is noted of it. -/
inductive Step (processId : Nat) : Session → Mark → Session → Prop where
  | event (s : Session) (e : Event) : Step processId s (.event e) (s.occur e)
  | enter {s : Session} {call : Nat} {before after : List Nat}
      (harriving : s.arriving = before ++ call :: after) :
      Step processId s (.enter call)
        { s with gate := s.gate.enter call, arriving := before ++ after }
  | connect {s : Session} (hconnecting : s.gate.isConnecting = true)
      (hfree : s.connector.held = false ∨ s.released = true) :
      Step processId s .connect { s with gate := s.gate.resolve (s.fate processId) }
  | pass {s : Session} {r : Except ChannelError Unit} {call : Nat} {before after : List Nat}
      (houtcome : s.gate.outcome = some r) (hwaiting : s.gate.waiting = before ++ call :: after) :
      Step processId s (.pass call)
        { s with
          gate := { s.gate with waiting := before ++ after }
          results := s.results ++ [(call, s.told r)] }

/-- The histories of a session, and the state that each of them leads to. -/
inductive History (connector : Connector) (index : Index) (processId : Nat) :
    List Mark → Session → Prop where
  | new : History connector index processId [] (.new connector index)
  | step {h : List Mark} {s t : Session} {m : Mark} (hist : History connector index processId h s)
      (hstep : Step processId s m t) : History connector index processId (h ++ [m]) t

/-! ## What a session does by itself -/

variable {connector : Connector} {index : Index} {processId : Nat}

theorem history_arrive {h : List Mark} {s : Session} (hist : History connector index processId h s) :
    ∃ ms : List Mark, ms.filterMap Mark.event? = [] ∧
      History connector index processId (h ++ ms) s.arrive := by
  -- by induction on those who are on their way
  generalize harriving : s.arriving = arriving
  induction arriving generalizing h s with
  | nil =>
    have hsame : s.arrive = s := by
      unfold arrive
      rw [harriving]
      show { s with arriving := [] } = s
      rw [← harriving]
    exact ⟨[], rfl, by rwa [List.append_nil, hsame]⟩
  | cons call rest ih =>
    have hnext := hist.step (@Step.enter processId s call [] rest harriving)
    obtain ⟨ms, hms, hist'⟩ := ih hnext rfl
    refine ⟨.enter call :: ms, hms, ?_⟩
    rw [List.append_assoc, List.singleton_append] at hist'
    have hsame : s.arrive =
        arrive { s with gate := s.gate.enter call, arriving := [] ++ rest } := by
      unfold arrive
      rw [harriving]
      rfl
    rwa [hsame]

theorem history_connect {h : List Mark} {s : Session} (hist : History connector index processId h s) :
    ∃ ms : List Mark, ms.filterMap Mark.event? = [] ∧
      History connector index processId (h ++ ms) (s.connect Handshake.version processId) := by
  unfold Session.connect
  split
  · next hready =>
    rw [Bool.and_eq_true, Bool.or_eq_true, Bool.not_eq_true'] at hready
    exact ⟨[.connect], rfl, hist.step (.connect hready.1 hready.2)⟩
  · exact ⟨[], rfl, by rwa [List.append_nil]⟩

/-- Everyone who waits is let through. -/
theorem answer_eq {s : Session} {r : Except ChannelError Unit} (houtcome : s.gate.outcome = some r) :
    s.answer =
      { s with
        gate := { s.gate with waiting := [] }
        results := s.results ++ s.gate.waiting.map fun c => (c, s.told r) } := by
  obtain ⟨_, _, _, ⟨_, _, _, waiting⟩, _, _⟩ := s
  cases houtcome
  simp only [answer, letThrough, List.map_map]
  rfl

theorem answer_of_none {s : Session} (houtcome : s.gate.outcome = none) : s.answer = s := by
  unfold answer letThrough
  rw [houtcome]
  show { s with results := s.results ++ [] } = s
  rw [List.append_nil]

theorem history_answer {h : List Mark} {s : Session} (hist : History connector index processId h s) :
    ∃ ms : List Mark, ms.filterMap Mark.event? = [] ∧
      History connector index processId (h ++ ms) s.answer := by
  cases houtcome : s.gate.outcome with
  | none => exact ⟨[], rfl, by rwa [List.append_nil, answer_of_none houtcome]⟩
  | some r =>
    rw [answer_eq houtcome]
    -- by induction on those who wait
    generalize hwaiting : s.gate.waiting = waiting
    induction waiting generalizing h s with
    | nil =>
      refine ⟨[], rfl, ?_⟩
      rw [List.append_nil, List.map_nil, List.append_nil, ← hwaiting]
      exact hist
    | cons call rest ih =>
      have hnext := hist.step (@Step.pass processId s r call [] rest houtcome hwaiting)
      obtain ⟨ms, hms, hist'⟩ := ih hnext houtcome rfl
      refine ⟨.pass call :: ms, hms, ?_⟩
      rw [List.append_assoc, List.singleton_append] at hist'
      have htold : ∀ c, [(call, s.told r)] ++ c = (call, s.told r) :: c := fun c => rfl
      simp only [List.append_assoc, htold] at hist'
      exact hist'

theorem history_settle {h : List Mark} {s : Session} (hist : History connector index processId h s) :
    ∃ ms : List Mark, ms.filterMap Mark.event? = [] ∧
      History connector index processId (h ++ ms) (s.settle processId) := by
  obtain ⟨entering, hentering, hist⟩ := history_arrive hist
  obtain ⟨connecting, hconnecting, hist⟩ := history_connect hist
  obtain ⟨answering, hanswering, hist⟩ := history_answer hist
  refine ⟨entering ++ connecting ++ answering, ?_, ?_⟩
  · rw [List.filterMap_append, List.filterMap_append, hentering, hconnecting, hanswering]
    rfl
  · rw [← List.append_assoc, ← List.append_assoc]
    exact hist

/-! ## Runs -/

/-- What a session goes through. -/
inductive Turn where
  /-- Something happens from outside. -/
  | event (e : Event)
  /-- The session is left alone until it does nothing more. -/
  | rest

def Turn.event? : Turn → Option Event
  | .event e => some e
  | .rest => none

def turn (processId : Nat) (s : Session) : Turn → Session
  | .event e => s.occur e
  | .rest => s.settle processId

/-- The session after some turns. -/
def run (connector : Connector) (index : Index) (processId : Nat) (turns : List Turn) : Session :=
  turns.foldl (turn processId) (.new connector index)

/-- Every session has a history with the events of its turns. -/
theorem history_turns (turns : List Turn) :
    ∃ h : List Mark, h.filterMap Mark.event? = turns.filterMap Turn.event? ∧
      History connector index processId h (run connector index processId turns) := by
  -- a history grows at its end, and so the last turn is taken off
  induction turns using List.reverseRecOn with
  | nil => exact ⟨[], rfl, .new⟩
  | append_singleton turns last ih =>
    obtain ⟨h, hevents, hist⟩ := ih
    unfold run
    rw [List.foldl_append, List.filterMap_append, ← hevents]
    cases last with
    | event e =>
      refine ⟨h ++ [.event e], ?_, hist.step (.event _ e)⟩
      rw [List.filterMap_append]
      rfl
    | rest =>
      obtain ⟨ms, hms, hist'⟩ := history_settle hist
      refine ⟨h ++ ms, ?_, hist'⟩
      rw [List.filterMap_append, hms]
      rfl

end Session

end IndexFs.Gate

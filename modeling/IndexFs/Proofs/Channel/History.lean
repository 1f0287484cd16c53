import IndexFs.Channel.Session
import IndexFs.Proofs.Frame.Reading
import Mathlib.Data.List.Induction

/-!
# Histories

What happens in a session is noted in the order in which it happens: what comes from outside, each frame
that is written, each message that the reader takes, and the end of reading. Writing, reading and events
from outside may follow one another in any order (`Step`); the order in which a session does these things
when it is left alone is one of them (`history_foldl_apply`).
-/

namespace IndexFs.Channel

/-- What is noted of a session. -/
inductive Mark (Call : Type) where
  /-- Something happened from outside. -/
  | event (e : Event Call)
  /-- A frame was written, or failed to be. -/
  | write (origin : Origin Call) (result : Except ChannelError Unit)
  /-- The reader took a message. -/
  | message (m : Json)
  /-- The reader ended. -/
  | ended

namespace Mark

variable {Call : Type}

def event? : Mark Call → Option (Event Call)
  | .event e => some e
  | _ => none

/-- The call that starts here. -/
def starts? : Mark Call → Option Call
  | .event (.request call _ _) => some call
  | .event (.notify call _ _) => some call
  | _ => none

/-- Whether a request starts here. -/
def isRequest : Mark Call → Bool
  | .event (.request ..) => true
  | _ => false

end Mark

namespace Session

variable {Call : Type} [DecidableEq Call]

/-- The session after the bytes of its first frame were written, or some of them. -/
def popped (s : Session Call) (job : Job Call) (rest : List (Job Call)) : Session Call :=
  { s with
    queue := rest
    writer := (s.writer.write job.frame).2.2
    output := s.output ++ (s.writer.write job.frame).1 }

/-- The session after its first frame was written, or failed to be. -/
def wrote (s : Session Call) (job : Job Call) (rest : List (Job Call)) : Session Call :=
  (s.popped job rest).written job.origin (s.writer.write job.frame).2.1

/-- The reader finds that there will be no further message; `rest` is what it has not looked at. -/
inductive Ends (s : Session Call) : List UInt8 → Prop where
  | fault {e : ChannelError} {rest : List UInt8} (h : Frame.read s.ending s.input = .fault e rest) :
      Ends s rest
  | finished (h : Frame.read s.ending s.input = .finished) : Ends s []
  | failed {m : String} (h : Frame.read s.ending s.input = .failed m) : Ends s s.input

/-- One thing that happens, and what is noted of it. -/
inductive Step : Session Call → Mark Call → Session Call → Prop where
  | event (s : Session Call) (e : Event Call) : Step s (.event e) (s.occur e)
  | write {s : Session Call} {job : Job Call} {rest : List (Job Call)} (hblocked : s.blocked = false)
      (hqueue : s.queue = job :: rest) :
      Step s (.write job.origin (s.writer.write job.frame).2.1) (s.wrote job rest)
  | message {s : Session Call} {m : Json} {rest : List UInt8} (hclosed : s.closed = false)
      (hrejecting : s.rejecting = false) (hread : Frame.read s.ending s.input = .message m rest) :
      Step s (.message m) ({ s with input := rest }.dispatch m)
  | ended {s : Session Call} {rest : List UInt8} (hclosed : s.closed = false)
      (hrejecting : s.rejecting = false) (hends : s.Ends rest) :
      Step s .ended { s with input := rest }.close

/-- The histories of a session, and the state that each of them leads to. -/
inductive History : List (Mark Call) → Session Call → Prop where
  | new : History [] .new
  | step {h : List (Mark Call)} {s t : Session Call} {m : Mark Call} (hist : History h s)
      (hstep : Step s m t) : History (h ++ [m]) t

/-! ## What a session does by itself -/

theorem writeNext?_eq_some {s t : Session Call} (h : s.writeNext? = some t) :
    s.blocked = false ∧ ∃ job rest, s.queue = job :: rest ∧ t = s.wrote job rest := by
  unfold writeNext? at h
  split at h
  case isTrue => cases h
  case isFalse hblocked =>
    split at h
    · cases h
    · rename_i job rest hqueue
      exact ⟨by simpa using hblocked, job, rest, hqueue, (Option.some.inj h).symm⟩

theorem readNext?_eq_some {s t : Session Call} (h : s.readNext? = some t) :
    s.closed = false ∧ s.rejecting = false ∧
      ((∃ m rest, Frame.read s.ending s.input = .message m rest ∧
          t = { s with input := rest }.dispatch m) ∨
        ∃ rest, s.Ends rest ∧ t = { s with input := rest }.close) := by
  unfold readNext? at h
  split at h
  case isTrue => cases h
  case isFalse hreading =>
    -- the session is open and waits for no rejection
    rw [Bool.or_eq_true, not_or, Bool.not_eq_true, Bool.not_eq_true] at hreading
    refine ⟨hreading.1, hreading.2, ?_⟩
    split at h
    case h_1 => cases h
    case h_2 m rest hread =>
      cases h
      exact .inl ⟨m, rest, hread, rfl⟩
    case h_3 e rest hread =>
      -- the three ways in which reading ends
      cases h
      exact .inr ⟨rest, .fault hread, rfl⟩
    case h_4 hread =>
      cases h
      exact .inr ⟨[], .finished hread, rfl⟩
    case h_5 m hread =>
      cases h
      exact .inr ⟨s.input, .failed hread, rfl⟩

theorem advance?_eq_some {s t : Session Call} (h : s.advance? = some t) :
    s.writeNext? = some t ∨ s.writeNext? = none ∧ s.readNext? = some t := by
  unfold advance? at h
  cases hwrite : s.writeNext? with
  | none =>
    rw [hwrite] at h
    exact .inr ⟨rfl, h⟩
  | some u =>
    rw [hwrite] at h
    exact .inl h

/-- Whatever a session does by itself is a step that is noted, and none from outside. -/
theorem step_of_advance? {s t : Session Call} (h : s.advance? = some t) :
    ∃ m, m.event? = none ∧ Step s m t := by
  rcases advance?_eq_some h with hwrite | ⟨-, hnext⟩
  · obtain ⟨hblocked, job, rest, hqueue, rfl⟩ := writeNext?_eq_some hwrite
    exact ⟨_, rfl, .write hblocked hqueue⟩
  · obtain ⟨hclosed, hrejecting, hcase⟩ := readNext?_eq_some hnext
    rcases hcase with ⟨m, rest, hread, rfl⟩ | ⟨rest, hends, rfl⟩
    · exact ⟨_, rfl, .message hclosed hrejecting hread⟩
    · exact ⟨_, rfl, .ended hclosed hrejecting hends⟩

theorem history_run {h : List (Mark Call)} {s : Session Call} (hist : History h s) (fuel : Nat) :
    ∃ ms : List (Mark Call), ms.filterMap Mark.event? = [] ∧ History (h ++ ms) (s.run fuel) := by
  induction fuel generalizing h s with
  | zero => exact ⟨[], rfl, by rwa [List.append_nil]⟩
  | succ fuel ih =>
    rw [run]
    cases hadvance : s.advance? with
    | none => exact ⟨[], rfl, by rwa [List.append_nil]⟩
    | some t =>
      obtain ⟨m, hm, hstep⟩ := step_of_advance? hadvance
      obtain ⟨ms, hms, hist'⟩ := ih (hist.step hstep)
      refine ⟨m :: ms, ?_, ?_⟩
      · rw [List.filterMap_cons_none hm, hms]
      · rwa [List.append_assoc, List.singleton_append] at hist'

theorem history_apply {h : List (Mark Call)} {s : Session Call} (hist : History h s) (e : Event Call) :
    ∃ ms : List (Mark Call), ms.filterMap Mark.event? = [e] ∧ History (h ++ ms) (s.apply e) := by
  obtain ⟨ms, hms, hist'⟩ := history_run (hist.step (.event s e)) (s.occur e).work
  refine ⟨.event e :: ms, ?_, ?_⟩
  · rw [List.filterMap_cons, hms]
    rfl
  · rwa [List.append_assoc, List.singleton_append] at hist'

/-- Every session in which events follow one another, each after all that the session could do by itself,
has a history with these events. -/
theorem history_foldl_apply (events : List (Event Call)) :
    ∃ h : List (Mark Call), h.filterMap Mark.event? = events ∧ History h (events.foldl apply .new) := by
  -- a history grows at its end, and so the last event is taken off
  induction events using List.reverseRecOn with
  | nil => exact ⟨[], rfl, .new⟩
  | append_singleton events e ih =>
    obtain ⟨h, hevents, hist⟩ := ih
    obtain ⟨ms, hms, hist'⟩ := history_apply hist e
    refine ⟨h ++ ms, ?_, ?_⟩
    · rw [List.filterMap_append, hevents, hms]
    · rwa [List.foldl_append]

end Session

end IndexFs.Channel

import IndexFs.FileSystem.Session

/-!
# What a file system session does

One equation for each thing that a session does between two events, by the case it is in.
-/

namespace IndexFs.FileSystem.Session

/-- The session with another link. -/
def withLink (s : Session) (l : Link Caller) : Session :=
  { s with link := l }

/-- What becomes of the link does not change how it is made. -/
theorem connector_withLink (s : Session) (l : Link Caller) : (s.withLink l).connector = s.connector :=
  rfl

/-- The session without a read. -/
def without (s : Session) (call : Nat) : Session :=
  { s with reads := s.reads.filter fun p => p.1 ≠ call }

/-- The session in which nobody waits at the gate. -/
def emptied (s : Session) : Session :=
  { s with gate := { s.gate with waiting := [] } }

/-! ## The link -/

/-- The results of the link are heard one after the other. -/
theorem exchange_eq {s : Session} {l : Link Caller} {results : List (Caller × Channel.Result)}
    (h : s.link.settle.collect = (l, results)) :
    s.exchange = results.foldl (fun s r => s.hear r.1 r.2) (s.withLink l) := by
  unfold exchange
  rw [h]
  rfl

/-- A single result of the link is heard. -/
theorem exchange_one {s : Session} {l : Link Caller} {caller : Caller} {r : Channel.Result}
    (h : s.link.settle.collect = (l, [(caller, r)])) : s.exchange = (s.withLink l).hear caller r :=
  exchange_eq h

/-! ## Making the connection -/

/-- A connector that breaks down fails the handshake with what it says. -/
theorem openChannel_of_breakdown {s : Session} {message : String}
    (h : s.connector.fate = .breaksDown message) :
    s.openChannel = s.resolve (.error (Connector.breakdown message)) := by
  simp only [openChannel, h]

/-- A connector that fails is the failure of the handshake. -/
theorem openChannel_of_failure {s : Session} {e : ChannelError} (h : s.connector.fate = .fails e) :
    s.openChannel = s.resolve (.error e) := by
  simp only [openChannel, h]

theorem openChannel_of_anonymous {s : Session} (h : s.connector.fate = .opens none) :
    s.openChannel = { s with metrics := some .zero }.resolve (.ok ()) := by
  simp only [openChannel, h]

theorem openChannel_of_name {s : Session} {name : String} (h : s.connector.fate = .opens (some name)) :
    s.openChannel = { s with metrics := some .zero, stage := .introducing }.request .introduction
      Handshake.requestMethod (Handshake.params ⟨name, Handshake.version, s.processId⟩) := by
  simp only [openChannel, h]

/-- Either the outcome is known at once, or the client introduces itself. -/
theorem openChannel_cases (s : Session) :
    (∃ metrics r, s.openChannel = { s with metrics := metrics }.resolve r) ∨
      ∃ name, s.openChannel = { s with metrics := some .zero, stage := .introducing }.request .introduction
        Handshake.requestMethod (Handshake.params ⟨name, Handshake.version, s.processId⟩) := by
  cases hfate : s.connector.fate with
  | breaksDown message => exact .inl ⟨s.metrics, _, openChannel_of_breakdown hfate⟩
  | fails e => exact .inl ⟨s.metrics, _, openChannel_of_failure hfate⟩
  | opens client =>
    cases client with
    | none => exact .inl ⟨_, _, openChannel_of_anonymous hfate⟩
    | some name => exact .inr ⟨name, openChannel_of_name hfate⟩

/-! ## Reads -/

section

variable {s : Session} {call : Nat} {r : Read}

/-- Nobody hears the answer to a read that is over. -/
theorem hear_read_of_none (h : s.reads.lookup call = none) (reply : Channel.Result) :
    s.hear (.read call) reply = s := by
  simp only [hear, h]

/-- The answer to a read is counted and ends the read. -/
theorem hear_read_of_some (h : s.reads.lookup call = some r) (reply : Channel.Result) :
    s.hear (.read call) reply = (s.count (·.countResult reply)).finishRead call r reply := by
  simp only [hear, h]

theorem proceed_of_none (h : s.reads.lookup call = none) (verdict : Except FsError Unit) :
    s.proceed call verdict = s := by
  simp only [proceed, h]

/-- A read that is let through asks its question. -/
theorem proceed_of_ok (h : s.reads.lookup call = some r) :
    s.proceed call (.ok ()) = s.request (.read call) r.method.name r.params := by
  simp only [proceed, h]

/-- A read that is refused ends with the refusal, and asks nothing. -/
theorem proceed_of_error (h : s.reads.lookup call = some r) (e : FsError) :
    s.proceed call (.error e) = (s.without call).finish call (.error e) := by
  simp only [proceed, h]
  rfl

end

/-! ## The gate -/

/-- As long as the handshake goes on, no read is let through. -/
theorem letThrough_of_none {s : Session} (h : s.gate.outcome = none) : s.letThrough = s := by
  simp only [letThrough, Gate.letThrough, h]
  rfl

/-- All who wait learn the outcome, in their order. -/
theorem letThrough_of_some {s : Session} {r : Except ChannelError Unit} (h : s.gate.outcome = some r) :
    s.letThrough = (s.gate.waiting.map fun c => (c, Gate.verdict r)).foldl
      (fun s a => s.proceed a.1 a.2) s.emptied := by
  obtain ⟨_, _, _, _, ⟨_, _, _, _⟩, _, _, _, _, _⟩ := s
  cases h
  rfl

end IndexFs.FileSystem.Session

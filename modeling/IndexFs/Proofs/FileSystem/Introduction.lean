import IndexFs.Proofs.FileSystem.Unserved

/-!
# The handshake comes first

A session whose connector introduces its client goes through a few phases (`Opening`): it says nothing, then
introduces itself, confirms the answer, and only after that asks its questions. If the channel does not open,
or the introduction or its confirmation fails, it never asks any, and all reads end with this failure
(`handshake_first`).
-/

namespace IndexFs

/-- A question to the index, as a read asks it. -/
def Outgoing.IsQuestion (m : Outgoing) : Prop :=
  ∃ r : Read, m = .request r.method.name r.params

namespace Connector

/-- Whenever the channel opens, the client introduces itself under this name. -/
def Introduces (c : Connector) (name : String) : Prop :=
  ∀ client, c.fate = .opens client → client = some name

/-- The channel does not open, for this reason. -/
def FailsWith (c : Connector) (e : ChannelError) : Prop :=
  c.fate = .fails e ∨ ∃ message, c.fate = .breaksDown message ∧ e = breakdown message

/-- A connector that introduces the client under a name opens with this name, if it opens at all. -/
theorem Introduces.fate {c : Connector} {name : String} (h : c.Introduces name) :
    (∃ e, c.FailsWith e) ∨ c.fate = .opens (some name) := by
  cases hfate : c.fate with
  | breaksDown message => exact .inl ⟨_, .inr ⟨message, hfate, rfl⟩⟩
  | fails e => exact .inl ⟨e, .inl hfate⟩
  | opens client => exact .inr (h client hfate ▸ rfl)

end Connector

namespace FileSystem

/-- The handshake of a history has failed: the channel did not open, the introduction was not accepted, or it
could not be confirmed. -/
def HandshakeFails (connector : Connector) (h : List Mark) (e : ChannelError) : Prop :=
  .connect ∈ h ∧ connector.FailsWith e ∨
    (∃ reply, .hear .introduction reply ∈ h ∧ Handshake.accept reply = .error e) ∨
      .hear .confirmation (.error e) ∈ h

/-- The phases of a session: the replies that it has heard, how far the connection has come, its outcome, and
all that was said. -/
inductive Opening (c : Client) :
    List (Caller × Channel.Result) → Stage → Option (Except ChannelError Unit) → List Outgoing → Prop where
  | unopened : Opening c [] .unopened none []
  | unreached (e : ChannelError) : Opening c [] .finished (some (.error e)) []
  | introducing : Opening c [] .introducing none [Handshake.request c]
  | refused {reply : Channel.Result} {e : ChannelError} (hrefused : Handshake.accept reply = .error e) :
      Opening c [(.introduction, reply)] .finished (some (.error e)) [Handshake.request c]
  | confirming {v : Json} {i : Introduction} (haccepted : Introduction.ofJson v = .ok i) :
      Opening c [(.introduction, .ok v)] .confirming none [Handshake.request c, Handshake.notification]
  | unconfirmed {v : Json} {i : Introduction} (haccepted : Introduction.ofJson v = .ok i)
      (e : ChannelError) :
      Opening c [(.introduction, .ok v), (.confirmation, .error e)] .finished (some (.error e))
        [Handshake.request c, Handshake.notification]
  | ready {v : Json} {i : Introduction} (haccepted : Introduction.ofJson v = .ok i) (w : Json)
      {questions : List Outgoing} (hquestions : ∀ m ∈ questions, m.IsQuestion) :
      Opening c [(.introduction, .ok v), (.confirmation, .ok w)] .finished (some (.ok ()))
        (Handshake.request c :: Handshake.notification :: questions)

theorem method_of_question {m : Outgoing} (h : m.IsQuestion) :
    m.method ≠ Handshake.requestMethod ∧ m.method ≠ Handshake.notificationMethod := by
  have hname : ∀ method : Method,
      method.name ≠ Handshake.requestMethod ∧ method.name ≠ Handshake.notificationMethod := by
    intro method
    cases method <;> decide
  obtain ⟨r, rfl⟩ := h
  exact hname r.method

/-- The introduction itself asks nothing of the index. -/
theorem not_question_request (c : Client) : ¬(Handshake.request c).IsQuestion :=
  fun h => (method_of_question h).1 rfl

theorem not_question_notification : ¬Handshake.notification.IsQuestion :=
  fun h => (method_of_question h).2 rfl

theorem accept_of_ofJson {v : Json} {i : Introduction} (h : Introduction.ofJson v = .ok i) :
    Handshake.accept (.ok v) = .ok i := by
  show (Introduction.ofJson v).mapError (fun m => ChannelError.protocol m.message) = .ok i
  rw [h]
  rfl

/-! ## What each phase allows -/

namespace Opening

variable {c : Client} {heard : List (Caller × Channel.Result)} {stage : Stage}
  {outcome : Option (Except ChannelError Unit)} {said : List Outgoing}

/-- What was said so far starts with the handshake, and only questions come after it. -/
theorem order (h : Opening c heard stage outcome said) :
    ∃ questions, (∀ m ∈ questions, Outgoing.IsQuestion m) ∧
      said <+: Handshake.request c :: Handshake.notification :: questions := by
  have hnone : ∀ m ∈ ([] : List Outgoing), Outgoing.IsQuestion m := fun m hm => absurd hm List.not_mem_nil
  cases h with
  | unopened => exact ⟨[], hnone, List.nil_prefix⟩
  | unreached e => exact ⟨[], hnone, List.nil_prefix⟩
  | introducing => exact ⟨[], hnone, [Handshake.notification], rfl⟩
  | refused hrefused => exact ⟨[], hnone, [Handshake.notification], rfl⟩
  | confirming haccepted => exact ⟨[], hnone, List.prefix_refl _⟩
  | unconfirmed haccepted e => exact ⟨[], hnone, List.prefix_refl _⟩
  | ready haccepted w hquestions => exact ⟨_, hquestions, List.prefix_refl _⟩

/-- The messages of the handshake are said once at most, whatever is asked after them. -/
theorem countP_le (h : Opening c heard stage outcome said) {method : String}
    (hmethod : method = Handshake.requestMethod ∨ method = Handshake.notificationMethod) :
    said.countP (fun m => m.method = method) ≤ 1 := by
  obtain ⟨questions, hquestions, hprefix⟩ := h.order
  have hnone : questions.countP (fun m => m.method = method) = 0 := by
    refine List.countP_eq_zero.mpr fun m hm => ?_
    rw [decide_eq_true_eq]
    obtain ⟨hrequest, hnotification⟩ := method_of_question (hquestions m hm)
    rcases hmethod with rfl | rfl
    · exact hrequest
    · exact hnotification
  have hhandshake :
      [Handshake.request c, Handshake.notification].countP (fun m => m.method = method) = 1 := by
    rcases hmethod with rfl | rfl <;> rfl
  calc said.countP (fun m => m.method = method)
      ≤ ([Handshake.request c, Handshake.notification] ++ questions).countP
          (fun m => m.method = method) := hprefix.sublist.countP_le
    _ = 1 := by rw [List.countP_append, hhandshake, hnone]

/-- Nothing is asked before the handshake has come to a good end. -/
theorem unasked (h : Opening c heard stage outcome said) (houtcome : outcome ≠ some (.ok ())) :
    ∀ m ∈ said, ¬m.IsQuestion := by
  have hrequest : ∀ m ∈ [Handshake.request c], ¬m.IsQuestion := by
    intro m hm
    rw [List.mem_singleton.mp hm]
    exact not_question_request c
  have hhandshake : ∀ m ∈ [Handshake.request c, Handshake.notification], ¬m.IsQuestion := by
    intro m hm
    rcases List.mem_cons.mp hm with rfl | hm
    · exact not_question_request c
    · rw [List.mem_singleton.mp hm]
      exact not_question_notification
  cases h with
  | unopened => exact fun m hm => absurd hm List.not_mem_nil
  | unreached e => exact fun m hm => absurd hm List.not_mem_nil
  | introducing => exact hrequest
  | refused hrefused => exact hrequest
  | confirming haccepted => exact hhandshake
  | unconfirmed haccepted e => exact hhandshake
  | ready haccepted w hquestions => exact absurd rfl houtcome

/-- A handshake that fails is the outcome. -/
theorem failed (h : Opening c heard stage outcome said) {e : ChannelError}
    (hfails : (∃ reply, (.introduction, reply) ∈ heard ∧ Handshake.accept reply = .error e) ∨
      (.confirmation, .error e) ∈ heard) : outcome = some (.error e) := by
  -- an introduction that was accepted did not fail
  have hgood : ∀ {v i}, Introduction.ofJson v = .ok i → Handshake.accept (.ok v) ≠ .error e := by
    intro v i haccepted hrefused
    rw [accept_of_ofJson haccepted] at hrefused
    cases hrefused
  -- of each stage it is known what was heard, and only two of them end with a failure
  cases h with
  | unopened => simp at hfails
  | unreached e' => simp at hfails
  | introducing => simp at hfails
  | refused hrefused =>
    rcases hfails with ⟨reply, hmem, hrefused'⟩ | hmem
    · cases List.mem_singleton.mp hmem
      rw [hrefused] at hrefused'
      cases hrefused'
      rfl
    · cases List.mem_singleton.mp hmem
  | confirming haccepted =>
    rcases hfails with ⟨reply, hmem, hrefused⟩ | hmem
    · cases List.mem_singleton.mp hmem
      exact absurd hrefused (hgood haccepted)
    · cases List.mem_singleton.mp hmem
  | unconfirmed haccepted e' =>
    rcases hfails with ⟨reply, hmem, hrefused⟩ | hmem
    · rcases List.mem_pair.mp hmem with heq | heq
      · cases heq
        exact absurd hrefused (hgood haccepted)
      · cases heq
    · rcases List.mem_pair.mp hmem with heq | heq
      · cases heq
      · cases heq
        rfl
  | ready haccepted w hquestions =>
    rcases hfails with ⟨reply, hmem, hrefused⟩ | hmem
    · rcases List.mem_pair.mp hmem with heq | heq
      · cases heq
        exact absurd hrefused (hgood haccepted)
      · cases heq
    · rcases List.mem_pair.mp hmem with heq | heq <;> cases heq

/-! ## From phase to phase -/

theorem fail (h : Opening c heard .unopened outcome said) (e : ChannelError) :
    Opening c heard .finished (some (.error e)) said := by
  cases h
  exact .unreached e

theorem refuse (h : Opening c heard .introducing outcome said) {reply : Channel.Result}
    {e : ChannelError} (hrefused : Handshake.accept reply = .error e) :
    Opening c (heard ++ [(.introduction, reply)]) .finished (some (.error e)) said := by
  cases h
  exact .refused hrefused

theorem finish (h : Opening c heard .confirming outcome said) (reply : Channel.Result) :
    Opening c (heard ++ [(.confirmation, reply)]) .finished (some (reply.map fun _ => ())) said := by
  cases h with
  | confirming haccepted =>
    cases reply with
    | error e => exact .unconfirmed haccepted e
    | ok w => exact .ready haccepted w (fun m hm => absurd hm List.not_mem_nil)

theorem ask (h : Opening c heard stage (some (.ok ())) said) {m : Outgoing} (hm : m.IsQuestion) :
    Opening c heard stage (some (.ok ())) (said ++ [m]) := by
  cases h with
  | ready haccepted w hquestions =>
    refine .ready haccepted w fun m' hm' => ?_
    rcases List.mem_append.mp hm' with hm' | hm'
    · exact hquestions m' hm'
    · rw [List.mem_singleton.mp hm']
      exact hm

/-- A session that has not finished its handshake takes the first outcome there is. -/
theorem resolve {g : Gate Nat} (h : Opening c heard stage g.outcome said) (hstage : stage ≠ .finished)
    (r : Except ChannelError Unit) : (g.resolve r).outcome = some r := by
  have hnone : g.outcome = none := by
    cases houtcome : g.outcome with
    | none => rfl
    | some r' =>
      rw [houtcome] at h
      cases h <;> exact absurd rfl hstage
  unfold Gate.resolve
  rw [hnone]

end Opening

namespace Session

variable {connector : Connector} {statErrorsAsNotFound : Bool} {processId : Nat} {name : String}

/-! ## Phases -/

/-- A history that tells what has happened to a session on a link of its own, and what it has said. -/
structure Tells (connector : Connector) (statErrorsAsNotFound : Bool) (processId : Nat)
    (events : List Event) (s : Session) (h : List Mark) (t : Session) : Prop where
  happened : h.filterMap Mark.event? = events
  history : History connector statErrorsAsNotFound processId h t
  /-- The session is the one at the end of the history, but for its link. -/
  mirrors : s.Mirrors t
  /-- An index at hand has received all that was said. -/
  atHand : ∀ index received results, s.link = .direct index received results → received = t.said
  /-- Any index has received the same up to some point, but for the parameters. -/
  received : s.link.received.map Outgoing.bare <+: t.said.map Outgoing.bare
  /-- Once the handshake has failed, no read is left without an end. -/
  ended : ∀ e, HandshakeFails connector h e → ∀ before call r after,
    events = before ++ .read call r :: after → .cancel call ∉ after →
      (call, .error (.connectionUnavailable e.message)) ∈ s.results

end Session

end FileSystem

end IndexFs

import IndexFs.Proofs.Frame.Stream
import IndexFs.Server

/-!
# Servers at rest

A server that is left alone takes all messages that have arrived, and then waits, is stuck or has hung up
(`atRest_receive`). Whatever it is sent, it sends nothing but responses (`output_receive`).
-/

namespace IndexFs

/-- Bytes that are the frames of responses, one after the other. -/
inductive Responses : List UInt8 → Prop where
  | nil : Responses []
  | cons {bs : List UInt8} (id : Json) (r : Except (Int × String) Json) (h : Responses bs) :
      Responses (Frame.bytes (Message.response id r) ++ bs)

/-- A single response. -/
theorem Responses.one (id : Json) (r : Except (Int × String) Json) :
    Responses (Frame.bytes (Message.response id r)) := by
  rw [← List.append_nil (Frame.bytes _)]
  exact .cons id r .nil

/-- Responses behind responses. -/
theorem Responses.append {bs bs' : List UInt8} (h : Responses bs) (h' : Responses bs') :
    Responses (bs ++ bs') := by
  induction h with
  | nil => exact h'
  | cons id r _ ih =>
    rw [List.append_assoc]
    exact .cons id r ih

/-- Nothing was said, which is no response. -/
theorem responses_none (bs : List UInt8) : ∃ bs', Responses bs' ∧ bs = bs ++ bs' :=
  ⟨[], .nil, (List.append_nil bs).symm⟩

namespace Server

/-! ## Taking a message -/

/-- To answer changes nothing about what is left to read. -/
theorem answer_input (s : Server) (id : Json) (message : Outgoing) :
    (s.answer id message).input = s.input := by
  simp only [answer]
  split_ifs
  · rfl
  · split <;> rfl

/-- To take a message changes nothing about what is left to read. -/
theorem take_input (s : Server) (message : Json) : (s.take message).input = s.input := by
  simp only [take]
  split
  · exact answer_input s _ _
  · rfl

/-- A request is answered with one response, or with none. -/
theorem answer_output (s : Server) (id : Json) (message : Outgoing) :
    ∃ bs, Responses bs ∧ (s.answer id message).output = s.output ++ bs := by
  simp only [answer]
  split_ifs
  · exact responses_none _
  · split
    · exact ⟨_, .one _ _, rfl⟩
    · exact ⟨_, .one _ _, rfl⟩
    · exact responses_none _
    · exact responses_none _

/-- A message is answered with responses, and with nothing else. -/
theorem take_output (s : Server) (message : Json) :
    ∃ bs, Responses bs ∧ (s.take message).output = s.output ++ bs := by
  simp only [take]
  split
  · exact answer_output s _ _
  · exact responses_none _

/-! ## Coming to rest -/

/-- Unless something arrives, nothing more is taken. -/
def AtRest (s : Server) : Prop :=
  s.closed = true ∨ s.stuck = true ∨ Frame.read .unknown s.input = .pending

/-- A server at rest says nothing. -/
theorem run_of_atRest {s : Server} (h : s.AtRest) (fuel : Nat) : s.run fuel = s := by
  cases fuel with
  | zero => rfl
  | succ fuel =>
    rw [run]
    split_ifs with hdone
    · rfl
    · rw [Bool.not_eq_true, Bool.or_eq_false_iff] at hdone
      rcases h with hclosed | hstuck | hpending
      · rw [hdone.1] at hclosed
        cases hclosed
      · rw [hdone.2] at hstuck
        cases hstuck
      · rw [hpending]

/-- There is fuel for each message, since it takes at least one byte. -/
theorem atRest_run {s : Server} {fuel : Nat} (hfuel : s.input.length < fuel) : (s.run fuel).AtRest := by
  induction fuel generalizing s with
  | zero => exact absurd hfuel (Nat.not_lt_zero _)
  | succ fuel ih =>
    rw [run]
    split_ifs with hdone
    · rw [Bool.or_eq_true] at hdone
      exact hdone.imp_right .inl
    · split
      · next message rest hread =>
        have hrest := Frame.length_lt_of_read hread
        refine ih ?_
        rw [take_input]
        show rest.length < fuel
        omega
      · next hpending => exact .inr (.inr hpending)
      · exact .inl rfl

/-- Whatever a server is told, it says responses, and nothing else. -/
theorem run_output (s : Server) (fuel : Nat) :
    ∃ bs, Responses bs ∧ (s.run fuel).output = s.output ++ bs := by
  induction fuel generalizing s with
  | zero => exact responses_none _
  | succ fuel ih =>
    rw [run]
    split_ifs
    · exact responses_none _
    · split
      · next message rest hread =>
        obtain ⟨bs, hbs, htake⟩ := take_output { s with input := rest } message
        obtain ⟨bs', hbs', hrun⟩ := ih ({ s with input := rest }.take message)
        refine ⟨bs ++ bs', hbs.append hbs', ?_⟩
        rw [hrun, htake, List.append_assoc]
      · exact responses_none _
      · exact responses_none _

/-- A server comes to rest after whatever it receives. -/
theorem atRest_receive (s : Server) (bytes : List UInt8) : (s.receive bytes).AtRest :=
  atRest_run (Nat.lt_succ_self _)

/-- What a server sends are responses. -/
theorem output_receive (s : Server) (bytes : List UInt8) :
    ∃ bs, Responses bs ∧ (s.receive bytes).output = s.output ++ bs :=
  run_output { s with input := s.input ++ bytes } _

/-- A server at rest that receives nothing stays as it is. -/
theorem receive_nil {s : Server} (h : s.AtRest) : s.receive [] = s := by
  unfold receive
  rw [List.append_nil]
  exact run_of_atRest h _

end Server

end IndexFs

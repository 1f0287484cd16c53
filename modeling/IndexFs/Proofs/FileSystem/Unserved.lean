import IndexFs.Proofs.FileSystem.History

/-!
# Sessions without a connection

While there is no connection, and after it has failed, a session serves nobody: changes are refused, and a
read waits at the gate until it is told why there is no connection (`unserved_history`, `turned_history`).
-/

namespace IndexFs.FileSystem.Session

variable {connector : Connector} {statErrorsAsNotFound : Bool} {processId : Nat}

/-! ## What a step leaves in place -/

/-- Making the connection ends no read and lets none through. -/
theorem openChannel_reads (s : Session) :
    s.openChannel.results = s.results ∧ s.openChannel.reads = s.reads ∧
      s.openChannel.gate.waiting = s.gate.waiting := by
  rcases openChannel_cases s with ⟨metrics, r, hopen⟩ | ⟨name, hopen⟩
  · rw [hopen]
    exact ⟨rfl, rfl, (resolve_gate s r).2⟩
  · rw [hopen]
    exact ⟨rfl, rfl, rfl⟩

theorem hear_reads (s : Session) (caller : Caller) (hcaller : ∀ call, caller ≠ .read call)
    (reply : Channel.Result) :
    (s.hear caller reply).results = s.results ∧ (s.hear caller reply).reads = s.reads ∧
      (s.hear caller reply).gate.waiting = s.gate.waiting := by
  cases caller with
  | introduction =>
    unfold hear
    cases Handshake.accept reply with
    | error e => exact ⟨rfl, rfl, (resolve_gate _ _).2⟩
    | ok i => exact ⟨rfl, rfl, rfl⟩
  | confirmation => exact ⟨rfl, rfl, (resolve_gate _ _).2⟩
  | read call => exact absurd rfl (hcaller call)

end IndexFs.FileSystem.Session

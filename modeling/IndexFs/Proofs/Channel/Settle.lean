import IndexFs.Proofs.Channel.Ids

/-!
# Settling

A session that is left alone comes to rest: everything that it does by itself brings it nearer to a state
in which it does nothing more (`measure`), and `settle` is that state.
-/

namespace IndexFs.Channel.Session

variable {Call : Type} [DecidableEq Call]

/-- What is left to do: a frame of at least one byte may make a frame to be written. -/
def measure (s : Session Call) : Nat :=
  s.queue.length + if s.closed then 0 else 2 * s.input.length + 1

/-- A message adds at most one frame to the queue. -/
theorem length_dispatch_queue (s : Session Call) (m : Json) :
    (s.dispatch m).queue.length ≤ s.queue.length + 1 := by
  unfold dispatch
  split
  · split
    · rw [deliver_queue]
      exact Nat.le_succ _
    · exact Nat.le_succ _
  · simp
  · exact Nat.le_succ _

/-- Every step on the way to rest leaves less to do. -/
theorem measure_advance? {s t : Session Call} (h : s.advance? = some t) : t.measure < s.measure := by
  rcases advance?_eq_some h with hwrite | ⟨-, hnext⟩
  · obtain ⟨-, job, rest, hqueue, rfl⟩ := writeNext?_eq_some hwrite
    unfold measure wrote
    obtain ⟨-, hclosed, hrest, hinput⟩ :=
      written_frame (s.popped job rest) job.origin (s.writer.write job.frame).2.1
    rw [hclosed, hrest, hinput, hqueue, List.length_cons]
    exact Nat.add_lt_add_right (Nat.lt_succ_self rest.length) _
  · obtain ⟨hclosed, -, ⟨m, rest, hread, rfl⟩ | ⟨rest, -, rfl⟩⟩ := readNext?_eq_some hnext
    · -- a message takes away a byte, which counts twice, and adds one frame at most
      have hlength := Frame.length_lt_of_read hread
      have hqueue := length_dispatch_queue { s with input := rest } m
      unfold measure
      rw [(dispatch_frame _ _).2.1, (dispatch_frame _ _).2.2]
      simp only [hclosed, Bool.false_eq_true, if_false] at hqueue ⊢
      omega
    · rw [close_eq]
      unfold measure
      simp [hclosed]

omit [DecidableEq Call] in
/-- The number of steps that a session is given is enough. -/
theorem measure_le_work (s : Session Call) : s.measure ≤ s.work := by
  unfold measure work
  split <;> omega

/-- A session at rest stays as it is. -/
theorem run_of_none {s : Session Call} (h : s.advance? = none) (n : Nat) : s.run n = s := by
  cases n with
  | zero => rfl
  | succ n =>
    rw [run, h]

/-- More steps than are needed do no harm. -/
theorem run_eq_of_le {s : Session Call} {n m : Nat} (hn : s.measure ≤ n) (hm : s.measure ≤ m) :
    s.run n = s.run m := by
  induction n generalizing s m with
  | zero =>
    cases hadvance : s.advance? with
    | none => rw [run_of_none hadvance, run_of_none hadvance]
    | some t =>
      have := measure_advance? hadvance
      omega
  | succ n ih =>
    cases hadvance : s.advance? with
    | none => rw [run_of_none hadvance, run_of_none hadvance]
    | some t =>
      have := measure_advance? hadvance
      cases m with
      | zero => omega
      | succ m =>
        rw [run, run, hadvance]
        exact ih (by omega) (by omega)

/-- Enough steps bring a session to rest. -/
theorem advance?_run {s : Session Call} {n : Nat} (hn : s.measure ≤ n) : (s.run n).advance? = none := by
  induction n generalizing s with
  | zero =>
    cases hadvance : s.advance? with
    | none => exact hadvance
    | some t =>
      have := measure_advance? hadvance
      omega
  | succ n ih =>
    rw [run]
    cases hadvance : s.advance? with
    | none => exact hadvance
    | some t =>
      have := measure_advance? hadvance
      exact ih (by omega)

/-- A settled session does nothing more by itself. -/
theorem advance?_settle (s : Session Call) : s.settle.advance? = none :=
  advance?_run s.measure_le_work

/-- A session at rest has settled. -/
theorem settle_of_none {s : Session Call} (h : s.advance? = none) : s.settle = s :=
  run_of_none h _

/-- A step on the way to rest does not change where the way ends. -/
theorem settle_of_some {s t : Session Call} (h : s.advance? = some t) : s.settle = t.settle := by
  have hmeasure := measure_advance? h
  have hwork := s.measure_le_work
  unfold settle
  rw [show s.work = s.work - 1 + 1 by omega, run, h]
  exact run_eq_of_le (by omega) t.measure_le_work

/-- What holds in every settled session, and of a session whenever it holds after its next step, holds of
every session. -/
theorem settle_induction {P : Session Call → Prop} (hnone : ∀ s, s.advance? = none → P s)
    (hsome : ∀ s t, s.advance? = some t → P t → P s) (s : Session Call) : P s := by
  induction hn : s.measure using Nat.strongRecOn generalizing s with
  | ind n ih =>
    cases hadvance : s.advance? with
    | none => exact hnone s hadvance
    | some t => exact hsome s t hadvance (ih _ (hn ▸ measure_advance? hadvance) t rfl)

/-! ## The next step -/

/-- Where writing is not blocked, the first frame of the queue is written first. -/
theorem advance?_of_queue {s : Session Call} {job : Job Call} {rest : List (Job Call)}
    (hblocked : s.blocked = false) (hqueue : s.queue = job :: rest) :
    s.advance? = some (s.wrote job rest) := by
  unfold advance? writeNext?
  rw [if_neg (by simp [hblocked]), hqueue]
  rfl

/-- Where nothing can be written, the session reads. -/
theorem advance?_of_idle {s : Session Call} (h : s.blocked = true ∨ s.queue = []) :
    s.advance? = s.readNext? := by
  have hwrite : s.writeNext? = none := by
    unfold writeNext?
    rcases h with hblocked | hqueue
    · rw [if_pos hblocked]
    · rw [hqueue]
      split <;> rfl
  unfold advance?
  rw [hwrite]
  rfl

/-- What the reader does upon what it finds. -/
def after (s : Session Call) : Frame.Outcome → Option (Session Call)
  | .pending => none
  | .message m rest => some ({ s with input := rest }.dispatch m)
  | .fault _ rest => some { s with input := rest }.close
  | .finished => some { s with input := [] }.close
  | .failed _ => some s.close

/-- A session reads until it is closed, and waits while a rejection is in the queue. -/
theorem readNext?_eq (s : Session Call) :
    s.readNext? = if s.closed || s.rejecting then none else s.after (Frame.read s.ending s.input) := by
  unfold readNext?
  congr 1

end IndexFs.Channel.Session

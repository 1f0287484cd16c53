import IndexFs.Proofs.Channel.Flow

/-!
# Results that are still owed

A call gets no more results than it was promised: one for each request or notification. While the writer
takes everything, a session that is left alone only ever keeps such a promise, or breaks it
(`owed_settle`).
-/

namespace IndexFs.Channel.Session

variable {Call : Type} [DecidableEq Call]

/-- How many results a call can still get, with those that were not collected yet. -/
def owed (s : Session Call) (call : Call) : Nat :=
  s.pending.countP (fun p => p.2 = call) + s.answered.countP (fun a => a.1 = call) +
    s.queue.countP (fun j => j.origin = .notification call) +
    s.results.countP (fun r => r.1 = call)

/-! ## Counting -/

/-- Something that is filtered out no longer counts. -/
theorem countP_filter_add_le {α : Type} {p q : α → Bool} {as : List α} {a : α} (hmem : a ∈ as)
    (hq : q a = false) : (as.filter q).countP p + (if p a = true then 1 else 0) ≤ as.countP p := by
  induction as with
  | nil => cases hmem
  | cons b as ih =>
    rw [List.countP_cons]
    rcases List.mem_cons.mp hmem with rfl | hmem
    · rw [List.filter_cons_of_neg (by simp [hq])]
      exact Nat.add_le_add_right List.filter_sublist.countP_le _
    · have hrest := ih hmem
      by_cases hb : q b = true
      · rw [List.filter_cons_of_pos hb, List.countP_cons]
        omega
      · rw [List.filter_cons_of_neg hb]
        omega

/-- A result counts for the call that it is for, and for no other. -/
theorem owed_finish (s : Session Call) (c : Call) (r : Result) (call : Call) :
    (s.finish c r).owed call = s.owed call + if c = call then 1 else 0 := by
  simp only [finish, owed, List.countP_append, List.countP_singleton, decide_eq_true_eq]
  omega

/-- An answer counts once, whether it is kept or handed over. -/
theorem owed_deliver (s : Session Call) (c : Call) (r : Result) (call : Call) :
    (s.deliver c r).owed call = s.owed call + if c = call then 1 else 0 := by
  unfold deliver
  split
  · simp only [owed, List.countP_append, List.countP_singleton, decide_eq_true_eq]
    omega
  · exact owed_finish s c r call

/-! ## Steps -/

/-- A frame that was written keeps the promise of its notification, or makes room for an answer that is known
already. -/
theorem owed_wrote {s : Session Call} (hwriter : s.writer = .unlimited) {job : Job Call}
    {rest : List (Job Call)} (hqueue : s.queue = job :: rest) (call : Call) :
    (s.wrote job rest).owed call ≤ s.owed call := by
  have hpopped : s.owed call =
      (s.popped job rest).owed call + if job.origin = .notification call then 1 else 0 := by
    simp only [owed, popped, hqueue, List.countP_cons, decide_eq_true_eq]
    omega
  have hresult : (s.writer.write job.frame).2.1 = .ok () := by
    rw [hwriter]
    rfl
  unfold wrote
  rw [hresult, hpopped]
  cases job.origin with
  | request id c =>
    simp only [written, requestWritten]
    split
    · next r hlookup =>
      rw [owed_finish]
      -- the answer that was kept for the call is handed over, and is no longer kept
      have hmem : (c, r) ∈ (s.popped job rest).answered := mem_of_lookup hlookup
      have hle := @countP_filter_add_le _ (fun a => decide (a.1 = call)) (fun a => decide (a.1 ≠ c)) _ _
        hmem (by simp)
      simp only [decide_eq_true_eq] at hle
      simp only [owed]
      omega
    · exact Nat.le_add_right _ _
  | notification c =>
    simp only [written, owed_finish, Origin.notification.injEq]
    exact Nat.le_refl _
  | rejection => exact Nat.le_add_right _ _

/-- A response turns what was owed into an answer, and owes nothing new. -/
theorem owed_dispatch (s : Session Call) (m : Json) (call : Call) :
    (s.dispatch m).owed call ≤ s.owed call := by
  unfold dispatch
  split
  · next id r _ =>
    cases hpending : s.pendingCall? id with
    | none => exact Nat.le_refl _
    | some c =>
      obtain ⟨k, hk, hmem⟩ := mem_of_pendingCall? hpending
      have hle := @countP_filter_add_le _ (fun p => decide (p.2 = call))
        (fun p => decide ((p.1 : Int) ≠ id)) _ _ hmem (by simp [hk])
      simp only [decide_eq_true_eq] at hle
      rw [owed_deliver]
      simp only [owed]
      omega
  · simp [owed, List.countP_append]
  · exact Nat.le_refl _

/-- At the end of reading, everyone who waits gets a result. -/
theorem owed_close (s : Session Call) (call : Call) : s.close.owed call = s.owed call := by
  have hsplit : (s.pending.filter fun p => s.isQueued p.2).countP (fun p => p.2 = call) +
      (s.pending.filter fun p => !s.isQueued p.2).countP (fun p => p.2 = call) =
        s.pending.countP (fun p => p.2 = call) := by
    rw [← List.countP_append]
    exact (List.filter_append_perm (fun p => s.isQueued p.2) s.pending).countP_eq _
  rw [close_eq]
  simp only [owed, List.countP_append, List.countP_map, List.countP_nil, Function.comp_def]
  omega

/-- A session with a writer that never fails owes no more after a step than before. -/
theorem owed_advance? {s t : Session Call} (hwriter : s.writer = .unlimited) (h : s.advance? = some t)
    (call : Call) : t.writer = .unlimited ∧ t.owed call ≤ s.owed call := by
  rcases advance?_eq_some h with hwrite | ⟨-, hread⟩
  · obtain ⟨-, job, rest, hqueue, rfl⟩ := writeNext?_eq_some hwrite
    obtain ⟨-, -, hwrote⟩ := wrote_wire s job rest
    rw [hwriter] at hwrote
    exact ⟨hwrote, owed_wrote hwriter hqueue call⟩
  · obtain ⟨-, -, ⟨m, rest, -, rfl⟩ | ⟨rest, -, rfl⟩⟩ := readNext?_eq_some hread
    · exact ⟨(dispatch_writer _ m).trans hwriter, owed_dispatch { s with input := rest } m call⟩
    · refine ⟨?_, Nat.le_of_eq (owed_close { s with input := rest } call)⟩
      rw [close_eq]
      exact hwriter

/-- On its way to rest, a session promises nothing. -/
theorem owed_settle {s : Session Call} (hwriter : s.writer = .unlimited) (call : Call) :
    s.settle.owed call ≤ s.owed call := by
  induction s using settle_induction with
  | hnone s hnone =>
    have hsame : s.settle = s := settle_of_none hnone
    exact Nat.le_of_eq (by rw [hsame])
  | hsome s t hadvance ih =>
    obtain ⟨hwriter', hle⟩ := owed_advance? hwriter hadvance call
    rw [settle_of_some hadvance]
    exact Nat.le_trans (ih hwriter') hle

/-! ## Events -/

/-- A request owes its call one result. -/
theorem owed_request (s : Session Call) (c : Call) (method : String) (params : Json) (call : Call) :
    (s.request c method params).owed call = s.owed call + if c = call then 1 else 0 := by
  simp only [request]
  split
  · rw [owed_finish]
    rfl
  · simp [owed, List.countP_append, List.countP_singleton]
    omega

/-- A notification owes its call one result. -/
theorem owed_notify (s : Session Call) (c : Call) (method : String) (params : Json) (call : Call) :
    (s.notify c method params).owed call = s.owed call + if c = call then 1 else 0 := by
  simp only [notify]
  split
  · rw [owed_finish]
  · simp [owed, List.countP_append, List.countP_singleton]
    omega

/-- To cancel a call owes nobody more than before. -/
theorem owed_cancel (s : Session Call) (c call : Call) : (s.cancel c).owed call ≤ s.owed call := by
  refine Nat.add_le_add_right ?_ _
  refine Nat.add_le_add (Nat.add_le_add ?_ ?_) ?_
  all_goals exact List.filter_sublist.countP_le

/-- What arrives owes nobody anything before it is read. -/
theorem owed_inbound (s : Session Call) (call : Call) :
    (∀ bytes, (s.receive bytes).owed call = s.owed call) ∧
      ∀ ending, (s.endInput ending).owed call = s.owed call := by
  refine ⟨fun bytes => ?_, fun ending => ?_⟩
  · unfold receive
    split <;> rfl
  · unfold endInput
    split <;> rfl

end IndexFs.Channel.Session

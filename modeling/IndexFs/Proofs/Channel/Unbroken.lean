import IndexFs.Proofs.Channel.Alike

/-!
# Writers that do not fail

As long as the writer takes everything, no call ends because its frame could not be written.
-/

namespace IndexFs.Channel.Session

variable {Call : Type} [DecidableEq Call]

/-- Everything could be written so far, and will be. -/
structure Unbroken (s : Session Call) : Prop where
  writer : s.writer = .unlimited
  results : ∀ call m, (call, .error (.io m)) ∉ s.results
  answered : ∀ call m, (call, .error (.io m)) ∉ s.answered

omit [DecidableEq Call] in
/-- A result that is no failed write leaves the session unbroken. -/
theorem Unbroken.finish {s : Session Call} (hs : s.Unbroken) (call : Call) {r : Result}
    (hr : ∀ m, r ≠ .error (.io m)) : (s.finish call r).Unbroken := by
  refine ⟨hs.writer, fun c m hmem => ?_, hs.answered⟩
  rcases List.mem_append.mp hmem with hmem | hmem
  · exact hs.results c m hmem
  · cases List.mem_singleton.mp hmem
    exact hr m rfl

/-- An answer that is no failed write leaves the session unbroken, whether it is kept or handed over. -/
theorem Unbroken.deliver {s : Session Call} (hs : s.Unbroken) (call : Call) {r : Result}
    (hr : ∀ m, r ≠ .error (.io m)) : (s.deliver call r).Unbroken := by
  unfold Session.deliver
  split
  · refine ⟨hs.writer, hs.results, fun c m hmem => ?_⟩
    rcases List.mem_append.mp hmem with hmem | hmem
    · exact hs.answered c m hmem
    · cases List.mem_singleton.mp hmem
      exact hr m rfl
  · exact hs.finish call hr

/-- A frame that was written leaves the session unbroken. -/
theorem Unbroken.written {s : Session Call} (hs : s.Unbroken) (origin : Origin Call) :
    (s.written origin (.ok ())).Unbroken := by
  cases origin with
  | request id call =>
    simp only [Session.written, requestWritten]
    split
    · next r hlookup =>
      refine Unbroken.finish ?_ call fun m hr => hs.answered call m (hr ▸ mem_of_lookup hlookup)
      exact ⟨hs.writer, hs.results, fun c m hmem => hs.answered c m (List.mem_filter.mp hmem).1⟩
    · exact hs
  | notification call => exact hs.finish call fun m h => by cases h
  | rejection => exact ⟨hs.writer, hs.results, hs.answered⟩

/-- No response says that a write has failed. -/
theorem outcome_ne_io (j : Json) (m : String) : Message.outcome j ≠ .error (.io m) := by
  unfold Message.outcome
  split <;> intro h <;> cases h

/-- Whatever the other side says leaves the session unbroken. -/
theorem Unbroken.dispatch {s : Session Call} (hs : s.Unbroken) (j : Json) :
    (s.dispatch j).Unbroken := by
  unfold Session.dispatch
  split
  · next n r hincoming =>
    have hr : ∀ m, r ≠ .error (.io m) := fun m => by
      rw [(of_eq_response hincoming).2.2]
      exact outcome_ne_io j m
    split
    · refine Unbroken.deliver ?_ _ hr
      exact ⟨hs.writer, hs.results, hs.answered⟩
    · exact hs
  · exact ⟨hs.writer, hs.results, hs.answered⟩
  · exact hs

/-- Only a writer that breaks can break a session. -/
theorem unbroken_step {s t : Session Call} {m : Mark Call} (hstep : Step s m t)
    (hm : ∀ after message, m ≠ .event (.breakWriter after message)) (hs : s.Unbroken) : t.Unbroken := by
  cases hstep with
  | event e =>
    cases e with
    | request call method params =>
      simp only [occur, request]
      split
      · -- a call on a closed session ends, but not because a write has failed
        refine Unbroken.finish ?_ call fun m h => by cases h
        exact ⟨hs.writer, hs.results, hs.answered⟩
      · exact ⟨hs.writer, hs.results, hs.answered⟩
    | notify call method params =>
      simp only [occur, notify]
      split
      · exact hs.finish call fun m h => by cases h
      · exact ⟨hs.writer, hs.results, hs.answered⟩
    | cancel call =>
      exact ⟨hs.writer, hs.results, fun c m hmem => hs.answered c m (List.mem_filter.mp hmem).1⟩
    | receive bytes =>
      simp only [occur, receive]
      split <;> exact ⟨hs.writer, hs.results, hs.answered⟩
    | endInput ending =>
      simp only [occur, endInput]
      split <;> exact ⟨hs.writer, hs.results, hs.answered⟩
    | breakWriter after message => exact absurd rfl (hm after message)
    | block => exact ⟨hs.writer, hs.results, hs.answered⟩
    | unblock => exact ⟨hs.writer, hs.results, hs.answered⟩
  | @write job rest hblocked hqueue =>
    unfold wrote
    -- an unlimited writer takes every frame
    have hwritten : (s.writer.write job.frame).2.1 = .ok () := by
      rw [hs.writer]
      rfl
    rw [hwritten]
    refine Unbroken.written ?_ job.origin
    refine ⟨?_, hs.results, hs.answered⟩
    show (s.writer.write job.frame).2.2 = .unlimited
    rw [hs.writer]
    rfl
  | message =>
    refine Unbroken.dispatch ?_ _
    exact ⟨hs.writer, hs.results, hs.answered⟩
  | @ended rest hclosed hrejecting hends =>
    -- whoever still waits is told that the session was closed, and not that a write has failed
    have hclosed : ∀ (c : Call) (m : String) (ps : List (Nat × Call)),
        (c, .error (.io m)) ∉ ps.map fun p => (p.2, (.error .closed : Result)) := by
      intro c m ps hmem
      obtain ⟨p, -, hp⟩ := List.mem_map.mp hmem
      cases hp
    rw [close_eq]
    refine ⟨hs.writer, fun c m hmem => ?_, fun c m hmem => ?_⟩
    · rcases List.mem_append.mp hmem with hmem | hmem
      · exact hs.results c m hmem
      · exact hclosed c m _ hmem
    · rcases List.mem_append.mp hmem with hmem | hmem
      · exact hs.answered c m hmem
      · exact hclosed c m _ hmem

/-- A session whose writer never breaks is unbroken. -/
theorem unbroken_history {h : List (Mark Call)} {s : Session Call} (hist : History h s)
    (hevents : ∀ after message, .breakWriter after message ∉ h.filterMap Mark.event?) : s.Unbroken := by
  induction hist with
  | new => exact ⟨rfl, fun _ _ h => absurd h List.not_mem_nil, fun _ _ h => absurd h List.not_mem_nil⟩
  | step hist hstep ih =>
    rw [List.filterMap_append] at hevents
    refine unbroken_step hstep ?_ (ih fun after message hmem =>
      hevents after message (List.mem_append_left _ hmem))
    intro after message hm
    refine hevents after message (List.mem_append_right _ ?_)
    rw [hm]
    exact List.mem_singleton_self _

/-- Without a failure, no call ends because it could not be written. -/
theorem not_failed {events : List (Event Call)}
    (hevents : ∀ after message, .breakWriter after message ∉ events) (call : Call) :
    ¬Failed call (events.foldl apply .new) := by
  obtain ⟨h, rfl, hist⟩ := history_foldl_apply events
  rintro ⟨m, hmem⟩
  exact (unbroken_history hist hevents).results call m hmem

end IndexFs.Channel.Session

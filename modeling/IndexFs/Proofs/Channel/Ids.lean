import IndexFs.Proofs.Channel.History
import Mathlib.Data.List.Nodup

/-!
# Ids

Every request takes the next id, and so the requests of a session are told apart by their ids: those that
wait for a response, and those whose frames wait for their turn (`Numbered`).
-/

namespace IndexFs.Channel.Session

variable {Call : Type}

/-- All ids so far are smaller than the next, and no two calls share one. -/
structure Numbered (s : Session Call) : Prop where
  pos : 1 ≤ s.nextId
  pending_pos : ∀ p ∈ s.pending, 1 ≤ p.1
  pending_lt : ∀ p ∈ s.pending, p.1 < s.nextId
  distinct : (s.pending.map (·.1)).Nodup
  queue_lt : ∀ id call, Origin.request id call ∈ s.queue.map (·.origin) → id < s.nextId
  owner : ∀ id call other, (id, call) ∈ s.pending →
    Origin.request id other ∈ s.queue.map (·.origin) → other = call

namespace Numbered

/-- Two calls that are pending under one id are the same. -/
theorem eq_of_mem {s : Session Call} (hs : s.Numbered) {id : Nat} {c d : Call}
    (hc : (id, c) ∈ s.pending) (hd : (id, d) ∈ s.pending) : c = d :=
  congrArg Prod.snd (List.inj_on_of_nodup_map hs.distinct hc hd rfl)

/-- A new session has given out no id. -/
theorem new : (Session.new : Session Call).Numbered where
  pos := Nat.le_refl 1
  pending_pos := by simp [Session.new]
  pending_lt := by simp [Session.new]
  distinct := by simp [Session.new]
  queue_lt := by simp [Session.new]
  owner := by simp [Session.new]

/-- It is enough that nothing is added, and that no id is taken back. -/
theorem mono {s t : Session Call} (hs : s.Numbered) (hid : s.nextId ≤ t.nextId)
    (hpending : t.pending.Sublist s.pending)
    (hqueue : ∀ id call, Origin.request id call ∈ t.queue.map (·.origin) →
      Origin.request id call ∈ s.queue.map (·.origin)) : t.Numbered where
  pos := Nat.le_trans hs.pos hid
  pending_pos p hp := hs.pending_pos p (hpending.subset hp)
  pending_lt p hp := Nat.lt_of_lt_of_le (hs.pending_lt p (hpending.subset hp)) hid
  distinct := (hpending.map _).nodup hs.distinct
  queue_lt id call h := Nat.lt_of_lt_of_le (hs.queue_lt id call (hqueue id call h)) hid
  owner id call other hp hq := hs.owner id call other (hpending.subset hp) (hqueue id other hq)

/-- The id of a new request is not among those that wait. -/
theorem add {s : Session Call} (hs : s.Numbered) (call : Call) (frame : List UInt8) :
    { s with
      nextId := s.nextId + 1
      pending := s.pending ++ [(s.nextId, call)]
      queue := s.queue ++ [(⟨.request s.nextId call, frame⟩ : Job Call)] }.Numbered where
  pos := Nat.le_succ_of_le hs.pos
  pending_pos p hp := by
    rcases List.mem_append.mp hp with hp | hp
    · exact hs.pending_pos p hp
    · rw [List.mem_singleton.mp hp]
      exact hs.pos
  pending_lt p hp := by
    rcases List.mem_append.mp hp with hp | hp
    · exact Nat.lt_succ_of_lt (hs.pending_lt p hp)
    · rw [List.mem_singleton.mp hp]
      exact Nat.lt_succ_self s.nextId
  distinct := by
    -- the new id is larger than those before it, and so is not among them
    have hnew : s.nextId ∉ s.pending.map (·.1) := fun hmem => by
      obtain ⟨p, hp, hid⟩ := List.mem_map.mp hmem
      have := hs.pending_lt p hp
      omega
    rw [List.map_append, List.nodup_append]
    refine ⟨hs.distinct, List.nodup_singleton _, fun id hid other hother => ?_⟩
    rw [List.mem_singleton.mp hother]
    rintro rfl
    exact hnew hid
  queue_lt id c h := by
    rw [List.map_append, List.mem_append] at h
    rcases h with h | h
    · exact Nat.lt_succ_of_lt (hs.queue_lt id c h)
    · cases List.mem_singleton.mp h
      exact Nat.lt_succ_self s.nextId
  owner id c other hp hq := by
    rw [List.map_append, List.mem_append] at hq
    -- every older id is smaller than the new one, so that an older entry and a new frame never meet
    rcases List.mem_append.mp hp with hp | hp <;> rcases hq with hq | hq
    · exact hs.owner id c other hp hq
    · cases List.mem_singleton.mp hq
      have := hs.pending_lt _ hp
      exact absurd this (Nat.lt_irrefl _)
    · cases List.mem_singleton.mp hp
      have := hs.queue_lt _ _ hq
      exact absurd this (Nat.lt_irrefl _)
    · cases List.mem_singleton.mp hp
      cases List.mem_singleton.mp hq
      rfl

end Numbered

variable [DecidableEq Call]

/-! ## Closing -/

/-- An answer does not touch the frames that wait. -/
@[simp] theorem deliver_queue (s : Session Call) (call : Call) (r : Result) :
    (s.deliver call r).queue = s.queue := by
  unfold deliver
  split <;> rfl

/-- One result for many calls: those whose frames are still in the queue keep it, the others have ended. -/
theorem foldl_deliver (ps : List (Nat × Call)) (r : Result) (s : Session Call) :
    ps.foldl (fun s p => s.deliver p.2 r) s =
      { s with
        answered := s.answered ++ (ps.filter fun p => s.isQueued p.2).map fun p => (p.2, r)
        results := s.results ++ (ps.filter fun p => !s.isQueued p.2).map fun p => (p.2, r) } := by
  induction ps generalizing s with
  | nil => simp
  | cons p ps ih =>
    -- who has a frame in the queue is not changed by the calls before
    have hqueued : ∀ c, (s.deliver p.2 r).isQueued c = s.isQueued c := fun c => by
      unfold isQueued
      rw [deliver_queue]
    rw [List.foldl_cons, ih]
    simp only [hqueued]
    cases hp : s.isQueued p.2 with
    | true => simp [deliver, hp]
    | false => simp [deliver, hp, finish]

/-- What closing does in one step: everybody who waits for a response gets the same result. -/
theorem close_eq (s : Session Call) :
    s.close =
      { s with
        closed := true
        pending := []
        answered := s.answered ++
          (s.pending.filter fun p => s.isQueued p.2).map fun p => (p.2, .error .closed)
        results := s.results ++
          (s.pending.filter fun p => !s.isQueued p.2).map fun p => (p.2, .error .closed) } := by
  unfold close
  rw [foldl_deliver]
  rfl

/-! ## Steps -/

/-- The end of a write changes neither ids nor the queue, nor anything about reading. -/
theorem written_frame (s : Session Call) (origin : Origin Call) (r : Except ChannelError Unit) :
    (s.written origin r).nextId = s.nextId ∧ (s.written origin r).closed = s.closed ∧
      (s.written origin r).queue = s.queue ∧ (s.written origin r).input = s.input := by
  cases origin with
  | request id call =>
    cases r with
    | ok _ =>
      simp only [written, requestWritten]
      split <;> exact ⟨rfl, rfl, rfl, rfl⟩
    | error e => exact ⟨rfl, rfl, rfl, rfl⟩
  | notification call => exact ⟨rfl, rfl, rfl, rfl⟩
  | rejection => exact ⟨rfl, rfl, rfl, rfl⟩

/-- An answer changes neither ids nor anything about reading. -/
theorem deliver_frame (s : Session Call) (call : Call) (r : Result) :
    (s.deliver call r).nextId = s.nextId ∧ (s.deliver call r).closed = s.closed ∧
      (s.deliver call r).input = s.input := by
  unfold deliver
  split <;> exact ⟨rfl, rfl, rfl⟩

/-- A message changes neither ids nor what is left to read. -/
theorem dispatch_frame (s : Session Call) (m : Json) :
    (s.dispatch m).nextId = s.nextId ∧ (s.dispatch m).closed = s.closed ∧
      (s.dispatch m).input = s.input := by
  unfold dispatch
  split
  · split
    · exact deliver_frame _ _ _
    · exact ⟨rfl, rfl, rfl⟩
  · exact ⟨rfl, rfl, rfl⟩
  · exact ⟨rfl, rfl, rfl⟩

/-- Only a request takes an id, and no event closes a session by itself. -/
theorem occur_frame (s : Session Call) (e : Event Call) :
    (s.occur e).nextId = s.nextId + (if (Mark.event e).isRequest then 1 else 0) ∧
      (s.occur e).closed = s.closed := by
  cases e with
  | request call method params =>
    simp only [occur, request]
    split <;> exact ⟨rfl, rfl⟩
  | notify call method params =>
    simp only [occur, notify]
    split <;> exact ⟨rfl, rfl⟩
  | receive bytes =>
    simp only [occur, receive]
    split <;> exact ⟨rfl, rfl⟩
  | endInput ending =>
    simp only [occur, endInput]
    split <;> exact ⟨rfl, rfl⟩
  | _ => exact ⟨rfl, rfl⟩

/-- Only a request takes an id. -/
theorem nextId_step {s t : Session Call} {m : Mark Call} (hstep : Step s m t) :
    t.nextId = s.nextId + (if m.isRequest then 1 else 0) := by
  cases hstep with
  | event e => exact (occur_frame s e).1
  | write => exact (written_frame _ _ _).1
  | message => exact (dispatch_frame _ _).1
  | ended =>
    rw [close_eq]
    rfl

/-- A session is closed as soon as reading has ended, and stays so. -/
theorem closed_step {s t : Session Call} {m : Mark Call} (hstep : Step s m t) :
    t.closed = true ↔ s.closed = true ∨ m = .ended := by
  cases hstep with
  | event e =>
    rw [(occur_frame s e).2]
    simp
  | write =>
    rw [wrote, (written_frame _ _ _).2.1]
    simp [popped]
  | message =>
    rw [(dispatch_frame _ _).2.1]
    simp
  | ended =>
    rw [close_eq]
    simp

/-- Every event keeps the ids apart: the one new id is larger than all others. -/
theorem numbered_occur {s : Session Call} (hs : s.Numbered) (e : Event Call) :
    (s.occur e).Numbered := by
  cases e with
  | request call method params =>
    simp only [occur, request]
    split
    · -- a request on a closed session takes an id all the same
      exact hs.mono (Nat.le_succ _) (List.Sublist.refl _) fun _ _ h => h
    · exact hs.add call _
  | notify call method params =>
    simp only [occur, notify]
    split
    · exact hs.mono (Nat.le_refl _) (List.Sublist.refl _) fun _ _ h => h
    · refine hs.mono (Nat.le_refl _) (List.Sublist.refl _) fun id c h => ?_
      simpa using h
  | cancel call =>
    refine hs.mono (Nat.le_refl _) List.filter_sublist fun id c h => ?_
    -- cancelling takes frames out, and leaves those of the others in place
    exact (List.filter_sublist.map _).subset h
  | receive bytes =>
    simp only [occur, receive]
    split
    · exact hs.mono (Nat.le_refl _) (List.Sublist.refl _) fun _ _ h => h
    · exact hs
  | endInput ending =>
    simp only [occur, endInput]
    split
    · exact hs.mono (Nat.le_refl _) (List.Sublist.refl _) fun _ _ h => h
    · exact hs
  | breakWriter after message => exact hs.mono (Nat.le_refl _) (List.Sublist.refl _) fun _ _ h => h
  | block => exact hs.mono (Nat.le_refl _) (List.Sublist.refl _) fun _ _ h => h
  | unblock => exact hs.mono (Nat.le_refl _) (List.Sublist.refl _) fun _ _ h => h

/-- The end of a write keeps the ids apart, since it adds no entry. -/
theorem numbered_written {s : Session Call} (hs : s.Numbered) (origin : Origin Call)
    (r : Except ChannelError Unit) : (s.written origin r).Numbered := by
  cases origin with
  | request id call =>
    cases r with
    | ok _ =>
      simp only [written, requestWritten]
      split <;> exact hs.mono (Nat.le_refl _) (List.Sublist.refl _) fun _ _ h => h
    | error e => exact hs.mono (Nat.le_refl _) List.filter_sublist fun _ _ h => h
  | notification call => exact hs.mono (Nat.le_refl _) (List.Sublist.refl _) fun _ _ h => h
  | rejection => exact hs.mono (Nat.le_refl _) (List.Sublist.refl _) fun _ _ h => h

/-- An answer keeps the ids apart, since it adds no entry. -/
theorem numbered_deliver {s : Session Call} (hs : s.Numbered) (call : Call) (r : Result) :
    (s.deliver call r).Numbered := by
  unfold deliver
  split <;> exact hs.mono (Nat.le_refl _) (List.Sublist.refl _) fun _ _ h => h

/-- A message keeps the ids apart: it takes at most one entry out. -/
theorem numbered_dispatch {s : Session Call} (hs : s.Numbered) (m : Json) :
    (s.dispatch m).Numbered := by
  unfold dispatch
  split
  · split
    · apply numbered_deliver
      exact hs.mono (Nat.le_refl _) List.filter_sublist fun _ _ h => h
    · exact hs
  · refine hs.mono (Nat.le_refl _) (List.Sublist.refl _) fun id c h => ?_
    simpa using h
  · exact hs

/-- Every step keeps the ids apart. -/
theorem numbered_step {s t : Session Call} {m : Mark Call} (hstep : Step s m t) (hs : s.Numbered) :
    t.Numbered := by
  cases hstep with
  | event e => exact numbered_occur hs e
  | write hblocked hqueue =>
    apply numbered_written
    refine hs.mono (Nat.le_refl _) (List.Sublist.refl _) fun id c h => ?_
    rw [hqueue]
    exact List.mem_cons_of_mem _ h
  | message =>
    apply numbered_dispatch
    exact hs.mono (Nat.le_refl _) (List.Sublist.refl _) fun _ _ h => h
  | ended =>
    rw [close_eq]
    exact hs.mono (Nat.le_refl _) (List.nil_sublist _) fun _ _ h => h

/-- The ids of a session are apart, whatever has happened. -/
theorem numbered_history {h : List (Mark Call)} {s : Session Call} (hist : History h s) :
    s.Numbered := by
  induction hist with
  | new => exact Numbered.new
  | step _ hstep ih => exact numbered_step hstep ih

end IndexFs.Channel.Session

import IndexFs.Proofs.Channel.Others
import IndexFs.Proofs.Channel.Settle

/-!
# Two sessions that differ in other calls

What becomes of a call does not depend on the other calls: two sessions that differ only in these
(`Alike`) go on to give the call the same result. The one exception is a writer that fails: how many bytes
it has accepted before does depend on the frames of the others, and so whether the frame of the call itself
is written may differ (`Failed`).
-/

namespace IndexFs.Channel.Session

variable {Call : Type} [DecidableEq Call]

/-- Whether a frame matters to a call: its own, and a rejection, since reading waits for it. -/
def Origin.concerns (call : Call) : Origin Call → Bool
  | .rejection => true
  | origin => Origin.belongsTo call origin

/-- What belongs to no call. -/
def shared (s : Session Call) : Nat × Bool × Bool × List UInt8 × Ending × Bool :=
  (s.nextId, s.closed, s.rejecting, s.input, s.ending, s.blocked)

omit [DecidableEq Call] in
/-- Two sessions share what belongs to no call if they agree on each part of it. -/
theorem shared_eq_iff {s t : Session Call} :
    t.shared = s.shared ↔ t.nextId = s.nextId ∧ t.closed = s.closed ∧ t.rejecting = s.rejecting ∧
      t.input = s.input ∧ t.ending = s.ending ∧ t.blocked = s.blocked := by
  simp only [shared, Prod.mk.injEq]

/-- The frames that matter to a call, by whose they are. -/
def concerned (s : Session Call) (call : Call) : List (Origin Call) :=
  (s.queue.map (·.origin)).filter (Origin.concerns call)

/-- Two sessions that differ only in other calls, and in what was written. -/
structure Alike (call : Call) (s t : Session Call) : Prop where
  left : s.Numbered
  right : t.Numbered
  shared : t.shared = s.shared
  same : SameFor call s t
  concerned : t.concerned call = s.concerned call

/-- It does not matter which of the two sessions comes first. -/
theorem Alike.symm {call : Call} {s t : Session Call} (h : Alike call s t) : Alike call t s :=
  ⟨h.right, h.left, h.shared.symm, h.same.symm, h.concerned.symm⟩

/-- The frame of a call could not be written. -/
def Failed (call : Call) (s : Session Call) : Prop :=
  ∃ m, (call, .error (.io m)) ∈ s.results

/-! ## Results are final -/

omit [DecidableEq Call] in
/-- A result is added to those that are there. -/
theorem finish_results (s : Session Call) (call : Call) (r : Result) :
    s.results ⊆ (s.finish call r).results :=
  List.subset_append_left _ _

/-- The end of a write takes no result back. -/
theorem written_results (s : Session Call) (origin : Origin Call) (r : Except ChannelError Unit) :
    s.results ⊆ (s.written origin r).results := by
  cases origin with
  | request id call =>
    cases r with
    | ok _ =>
      simp only [written, requestWritten]
      split
      · exact finish_results _ _ _
      · exact List.Subset.refl _
    | error e => exact finish_results _ _ _
  | notification call => exact finish_results _ _ _
  | rejection => exact List.Subset.refl _

/-- A message takes no result back. -/
theorem dispatch_results (s : Session Call) (m : Json) : s.results ⊆ (s.dispatch m).results := by
  unfold dispatch
  split
  · split
    · unfold deliver
      split
      · exact List.Subset.refl _
      · exact finish_results _ _ _
    · exact List.Subset.refl _
  · exact List.Subset.refl _
  · exact List.Subset.refl _

/-- No event takes a result back. -/
theorem occur_results (s : Session Call) (e : Event Call) : s.results ⊆ (s.occur e).results := by
  cases e with
  | request call method params =>
    simp only [occur, request]
    split
    · exact finish_results _ _ _
    · exact List.Subset.refl _
  | notify call method params =>
    simp only [occur, notify]
    split
    · exact finish_results _ _ _
    · exact List.Subset.refl _
  | receive bytes =>
    simp only [occur, receive]
    split <;> exact List.Subset.refl _
  | endInput ending =>
    simp only [occur, endInput]
    split <;> exact List.Subset.refl _
  | _ => exact List.Subset.refl _

/-- A call that has ended keeps its result. -/
theorem results_step {s t : Session Call} {m : Mark Call} (hstep : Step s m t) :
    s.results ⊆ t.results := by
  cases hstep with
  | event e => exact occur_results s e
  | @write job rest _ _ => exact written_results (s.popped job rest) _ _
  | @message m rest _ _ _ => exact dispatch_results { s with input := rest } m
  | ended =>
    rw [close_eq]
    exact List.subset_append_left _ _

/-- On its way to rest, a session takes no result back. -/
theorem results_settle (s : Session Call) : s.results ⊆ s.settle.results := by
  induction s using settle_induction with
  | hnone s h =>
    rw [settle_of_none h]
    exact List.Subset.refl _
  | hsome s t h ih =>
    obtain ⟨m, -, hstep⟩ := step_of_advance? h
    rw [settle_of_some h]
    exact List.Subset.trans (results_step hstep) ih

omit [DecidableEq Call] in
/-- A frame that could not be written stays one that could not be written. -/
theorem Failed.mono {call : Call} {s t : Session Call} (h : Failed call s)
    (hresults : s.results ⊆ t.results) : Failed call t :=
  h.imp fun _ hm => hresults hm

/-! ## Writing -/

omit [DecidableEq Call] in
/-- Taking a frame off the queue keeps the ids apart. -/
theorem numbered_popped {s : Session Call} (hs : s.Numbered) {job : Job Call} {rest : List (Job Call)}
    (hqueue : s.queue = job :: rest) : (s.popped job rest).Numbered := by
  refine hs.mono (Nat.le_refl _) (List.Sublist.refl _) fun id c h => ?_
  rw [hqueue]
  exact List.mem_cons_of_mem _ h

/-- An answer changes nothing that belongs to no call. -/
theorem deliver_shared (s : Session Call) (call : Call) (r : Result) :
    (s.deliver call r).shared = s.shared := by
  unfold deliver
  split <;> rfl

/-- The end of a write changes nothing that belongs to no call, except that reading goes on after a
rejection. -/
theorem written_shared (s : Session Call) {origin : Origin Call} (horigin : origin ≠ .rejection)
    (r : Except ChannelError Unit) : (s.written origin r).shared = s.shared := by
  cases origin with
  | request id call =>
    cases r with
    | ok _ =>
      simp only [written, requestWritten]
      split <;> rfl
    | error e => rfl
  | notification call => rfl
  | rejection => exact absurd rfl horigin

/-- One of two alike sessions writes a frame that does not matter to the call, and they stay alike. -/
theorem alike_wrote_left {call : Call} {s t : Session Call} (h : Alike call s t) {job : Job Call}
    {rest : List (Job Call)} (hblocked : s.blocked = false) (hqueue : s.queue = job :: rest)
    (hjob : Origin.concerns call job.origin = false) : Alike call (s.wrote job rest) t := by
  have hrejection : job.origin ≠ .rejection := fun horigin => by
    rw [horigin] at hjob
    cases hjob
  have hother : Origin.belongsTo call job.origin = false := by
    cases horigin : job.origin with
    | rejection => rfl
    | _ =>
      rw [horigin] at hjob
      exact hjob
  have hsame : SameFor call s (s.wrote job rest) := by
    refine SameFor.trans ?_ (written_other hother ?_ _)
    · exact ⟨rfl, rfl, rfl⟩
    · intro id c hid hmem
      -- the frame under the id of a pending call is the call's own
      have hc : c = call := h.left.owner id call c hmem (by simp [hqueue, hid])
      rw [hid, hc] at hother
      simp [Origin.belongsTo] at hother
  -- the session on the left moves, the one on the right does not
  refine ⟨numbered_step (.write hblocked hqueue) h.left, h.right, ?_, hsame.symm.trans h.same, ?_⟩
  · exact h.shared.trans (written_shared (s.popped job rest) hrejection _).symm
  · rw [h.concerned]
    unfold Session.concerned wrote
    rw [(written_frame _ _ _).2.2.1, hqueue, List.map_cons, List.filter_cons_of_neg (by simpa using hjob)]
    rfl

/-- A writer fails in one way only. -/
theorem write_error {w : Frame.Writer} {bs : List UInt8} {e : ChannelError}
    (h : (w.write bs).2.1 = .error e) : ∃ m, e = .io m := by
  unfold Frame.Writer.write at h
  split at h
  · cases h
  · split at h
    · cases h
    · cases h
      exact ⟨_, rfl⟩

/-- A frame of the call itself, or a rejection. -/
theorem alike_written {call : Call} {s t : Session Call} (h : Alike call s t) {origin : Origin Call}
    (horigin : Origin.concerns call origin = true) (result : Except ChannelError Unit) :
    Alike call (s.written origin result) (t.written origin result) := by
  have hqueue : (t.written origin result).concerned call = (s.written origin result).concerned call := by
    unfold concerned
    rw [(written_frame _ _ _).2.2.1, (written_frame _ _ _).2.2.1]
    exact h.concerned
  refine ⟨numbered_written h.left _ _, numbered_written h.right _ _, ?_, ?_, hqueue⟩
  · -- a rejection that is out of the way lets both sessions read on
    cases origin with
    | rejection =>
      obtain ⟨hid, hclosed, -, hinput, hending, hblocked⟩ := shared_eq_iff.mp h.shared
      exact shared_eq_iff.mpr ⟨hid, hclosed, rfl, hinput, hending, hblocked⟩
    | _ =>
      rw [written_shared _ (by intro h; cases h), written_shared _ (by intro h; cases h)]
      exact h.shared
  · obtain ⟨hpending, hanswered, hresults⟩ := h.same
    cases origin with
    | request id c =>
      cases of_decide_eq_true horigin
      have hdropped := filter_filter_congr hanswered fun a => a.1 ≠ call
      cases result with
      | ok _ =>
        -- both sessions find the same answer for the call, or none
        have hlookup : t.answered.lookup call = s.answered.lookup call := by
          rw [lookup_eq, lookup_eq, hanswered]
        simp only [written, requestWritten, hlookup]
        cases s.answered.lookup call with
        | none => exact ⟨hpending, hanswered, hresults⟩
        | some r =>
          refine SameFor.finish ?_ call r
          exact ⟨hpending, hdropped, hresults⟩
      | error e =>
        refine SameFor.finish ?_ call (.error e)
        exact ⟨filter_filter_congr hpending _, hdropped, hresults⟩
    | notification c => exact h.same.finish c _
    | rejection => exact ⟨hpending, hanswered, hresults⟩

/-- A call whose own frame could not be written has ended with that failure. -/
theorem failed_written {call : Call} (s : Session Call) {origin : Origin Call}
    (horigin : Origin.belongsTo call origin = true) (m : String) :
    Failed call (s.written origin (.error (.io m))) := by
  cases origin with
  | request id c =>
    cases of_decide_eq_true horigin
    exact ⟨m, List.mem_append_right _ (List.mem_singleton_self _)⟩
  | notification c =>
    cases of_decide_eq_true horigin
    exact ⟨m, List.mem_append_right _ (List.mem_singleton_self _)⟩
  | rejection => cases horigin

/-- Two alike sessions stay alike when each takes a frame that matters to the call off its queue. -/
theorem alike_popped {call : Call} {s t : Session Call} (h : Alike call s t) {job job' : Job Call}
    {rest rest' : List (Job Call)} (hqueue : s.queue = job :: rest) (hqueue' : t.queue = job' :: rest')
    (hrest : (rest'.map (·.origin)).filter (Origin.concerns call) =
      (rest.map (·.origin)).filter (Origin.concerns call)) :
    Alike call (s.popped job rest) (t.popped job' rest') := by
  refine ⟨numbered_popped h.left hqueue, numbered_popped h.right hqueue', h.shared, ?_, hrest⟩
  exact ⟨h.same.pending, h.same.answered, h.same.results⟩

/-- Two alike sessions that each write the next frame that matters to the call stay alike, unless it is the
call's own and one of the writers fails. -/
theorem alike_wrote {call : Call} {s t : Session Call} (h : Alike call s t) {job job' : Job Call}
    {rest rest' : List (Job Call)} (hqueue : s.queue = job :: rest) (hqueue' : t.queue = job' :: rest')
    (hjob : Origin.concerns call job.origin = true) (hjob' : Origin.concerns call job'.origin = true) :
    Alike call (s.wrote job rest) (t.wrote job' rest') ∨ Failed call (s.wrote job rest) ∨
      Failed call (t.wrote job' rest') := by
  have hconcerned := h.concerned
  unfold concerned at hconcerned
  rw [hqueue, hqueue', List.map_cons, List.map_cons, List.filter_cons_of_pos hjob,
    List.filter_cons_of_pos hjob'] at hconcerned
  injection hconcerned with horigin hrest
  have hpopped := alike_popped h hqueue hqueue' hrest
  unfold wrote
  rw [horigin]
  by_cases hown : Origin.belongsTo call job.origin = true
  · cases hr : (s.writer.write job.frame).2.1 with
    | error e =>
      obtain ⟨m, rfl⟩ := write_error hr
      exact .inr (.inl (failed_written _ hown m))
    | ok _ =>
      cases hr' : (t.writer.write job'.frame).2.1 with
      | error e =>
        obtain ⟨m, rfl⟩ := write_error hr'
        exact .inr (.inr (failed_written _ hown m))
      | ok _ => exact .inl (alike_written hpopped hjob _)
  · -- nobody learns whether a rejection was written
    cases hrejection : job.origin with
    | rejection =>
      rw [hrejection] at hjob
      exact .inl (alike_written hpopped hjob (.ok ()))
    | request id c =>
      rw [hrejection] at hjob hown
      exact absurd hjob hown
    | notification c =>
      rw [hrejection] at hjob hown
      exact absurd hjob hown

/-! ## Reading -/

/-- Whether a call has a frame in the queue is seen from the frames that matter to it. -/
theorem isQueued_eq {call : Call} (s : Session Call) :
    s.isQueued call = (s.concerned call).any (Origin.belongsTo call) := by
  unfold isQueued concerned
  rw [List.any_filter, List.any_map]
  congr 1
  funext job
  simp only [Function.comp]
  cases job.origin with
  | rejection => rfl
  | _ => exact (Bool.and_self _).symm

/-- Two alike sessions stay alike when the call gets an answer in both. -/
theorem alike_deliver {call : Call} {s t : Session Call} (h : Alike call s t) (r : Result) :
    Alike call (s.deliver call r) (t.deliver call r) := by
  refine ⟨numbered_deliver h.left _ _, numbered_deliver h.right _ _, ?_, ?_, ?_⟩
  · rw [deliver_shared, deliver_shared]
    exact h.shared
  · unfold deliver
    rw [isQueued_eq s, isQueued_eq t, h.concerned]
    split
    · exact ⟨h.same.pending, filter_append_congr h.same.answered _, h.same.results⟩
    · exact h.same.finish call r
  · unfold concerned
    rw [deliver_queue, deliver_queue]
    exact h.concerned

/-- Two alike sessions have the call pending under the same id. -/
theorem Alike.mem_pending {call : Call} {s t : Session Call} (h : Alike call s t) (id : Nat) :
    (id, call) ∈ t.pending ↔ (id, call) ∈ s.pending := by
  have hfilter := mem_iff_mem_filter (p := fun e : Nat × Call => e.2 = call) (a := (id, call))
    (decide_eq_true rfl)
  rw [hfilter t.pending, h.same.pending, ← hfilter s.pending]

/-- A response changes neither what belongs to no call nor the queue. -/
theorem dispatch_shared {s : Session Call} {m : Json} {n : Int} {r : Result}
    (hm : Incoming.of m = .response n r) (call : Call) :
    (s.dispatch m).shared = s.shared ∧ (s.dispatch m).concerned call = s.concerned call := by
  cases hcall : s.pendingCall? n with
  | none =>
    simp only [dispatch, hm, hcall, and_self]
  | some c =>
    simp only [dispatch, hm, hcall]
    refine ⟨deliver_shared _ _ _, ?_⟩
    unfold concerned
    rw [deliver_queue]

/-- Two alike sessions stay alike when both receive the same message. -/
theorem alike_dispatch {call : Call} {s t : Session Call} (h : Alike call s t) (m : Json) :
    Alike call (s.dispatch m) (t.dispatch m) := by
  cases hm : Incoming.of m with
  | response n r =>
    by_cases hmine : ∃ id : Nat, (id : Int) = n ∧ (id, call) ∈ s.pending
    · -- the message answers the call, which is pending under the same id in both sessions
      obtain ⟨id, rfl, hmem⟩ := hmine
      simp only [dispatch, hm, pendingCall?_eq_some h.left hmem,
        pendingCall?_eq_some h.right ((h.mem_pending id).mpr hmem)]
      refine alike_deliver ?_ r
      refine ⟨?_, ?_, h.shared, ?_, h.concerned⟩
      · exact h.left.mono (Nat.le_refl _) List.filter_sublist fun _ _ h => h
      · exact h.right.mono (Nat.le_refl _) List.filter_sublist fun _ _ h => h
      · exact ⟨filter_filter_congr h.same.pending _, h.same.answered, h.same.results⟩
    · -- the message answers another call, or none, and so it does in the other session
      have hother : ∀ id r', (id, call) ∈ s.pending → Incoming.of m ≠ .response id r' := by
        intro id r' hmem hm'
        rw [hm] at hm'
        injection hm' with hn
        exact hmine ⟨id, hn.symm, hmem⟩
      have hother' : ∀ id r', (id, call) ∈ t.pending → Incoming.of m ≠ .response id r' :=
        fun id r' hmem => hother id r' ((h.mem_pending id).mp hmem)
      refine ⟨numbered_dispatch h.left m, numbered_dispatch h.right m, ?_, ?_, ?_⟩
      · rw [(dispatch_shared hm call).1, (dispatch_shared hm call).1]
        exact h.shared
      · exact ((dispatch_other h.left hother).symm.trans h.same).trans (dispatch_other h.right hother')
      · rw [(dispatch_shared hm call).2, (dispatch_shared hm call).2]
        exact h.concerned
  | request id method =>
    -- both sessions reject the request, with the same frame
    have hleft := numbered_dispatch h.left m
    have hright := numbered_dispatch h.right m
    simp only [dispatch, hm] at hleft hright ⊢
    refine ⟨hleft, hright, ?_, ?_, ?_⟩
    · obtain ⟨hid, hclosed, -, hinput, hending, hblocked⟩ := shared_eq_iff.mp h.shared
      exact shared_eq_iff.mpr ⟨hid, hclosed, rfl, hinput, hending, hblocked⟩
    · exact ⟨h.same.pending, h.same.answered, h.same.results⟩
    · unfold concerned
      rw [List.map_append, List.map_append]
      exact filter_append_congr h.concerned _
  | other =>
    simp only [dispatch, hm]
    exact h

/-- Two alike sessions stay alike when both close. -/
theorem alike_close {call : Call} {s t : Session Call} (h : Alike call s t) :
    Alike call s.close t.close := by
  have hleft : s.close.Numbered := by
    rw [close_eq]
    exact h.left.mono (Nat.le_refl _) (List.nil_sublist _) fun _ _ h => h
  have hright : t.close.Numbered := by
    rw [close_eq]
    exact h.right.mono (Nat.le_refl _) (List.nil_sublist _) fun _ _ h => h
  have hqueued : t.isQueued call = s.isQueued call := by
    rw [isQueued_eq, isQueued_eq, h.concerned]
  rw [close_eq] at hleft hright ⊢
  rw [close_eq t]
  refine ⟨hleft, hright, ?_, ?_, h.concerned⟩
  · obtain ⟨hid, -, hrejecting, hinput, hending, hblocked⟩ := shared_eq_iff.mp h.shared
    exact shared_eq_iff.mpr ⟨hid, rfl, hrejecting, hinput, hending, hblocked⟩
  · obtain ⟨hpending, hanswered, hresults⟩ := h.same
    refine ⟨rfl, ?_, ?_⟩
    · rw [List.filter_append, List.filter_append, filter_closed, filter_closed, hanswered, hpending, hqueued]
    · rw [List.filter_append, List.filter_append, filter_closed _ _ fun c => !s.isQueued c,
        filter_closed _ _ fun c => !t.isQueued c, hresults, hpending, hqueued]

/-- Two alike sessions stay alike when both have the same left to read. -/
theorem alike_input {call : Call} {s t : Session Call} (h : Alike call s t) (rest : List UInt8) :
    Alike call { s with input := rest } { t with input := rest } := by
  refine ⟨?_, ?_, ?_, ⟨h.same.pending, h.same.answered, h.same.results⟩, h.concerned⟩
  · exact h.left.mono (Nat.le_refl _) (List.Sublist.refl _) fun _ _ h => h
  · exact h.right.mono (Nat.le_refl _) (List.Sublist.refl _) fun _ _ h => h
  · obtain ⟨hid, hclosed, hrejecting, -, hending, hblocked⟩ := shared_eq_iff.mp h.shared
    exact shared_eq_iff.mpr ⟨hid, hclosed, hrejecting, rfl, hending, hblocked⟩

/-- Two alike sessions do the same with what was read. -/
theorem alike_after {call : Call} {s t : Session Call} (h : Alike call s t) (o : Frame.Outcome) :
    (s.after o = none ∧ t.after o = none) ∨
      ∃ s' t', s.after o = some s' ∧ t.after o = some t' ∧ Alike call s' t' := by
  cases o with
  | pending => exact .inl ⟨rfl, rfl⟩
  | message m rest => exact .inr ⟨_, _, rfl, rfl, alike_dispatch (alike_input h rest) m⟩
  | fault e rest => exact .inr ⟨_, _, rfl, rfl, alike_close (alike_input h rest)⟩
  | finished => exact .inr ⟨_, _, rfl, rfl, alike_close (alike_input h [])⟩
  | failed m => exact .inr ⟨_, _, rfl, rfl, alike_close h⟩

/-- Both sessions read the same, and act upon it alike. -/
theorem alike_readNext? {call : Call} {s t : Session Call} (h : Alike call s t) :
    (s.readNext? = none ∧ t.readNext? = none) ∨
      ∃ s' t', s.readNext? = some s' ∧ t.readNext? = some t' ∧ Alike call s' t' := by
  obtain ⟨-, hclosed, hrejecting, hinput, hending, -⟩ := shared_eq_iff.mp h.shared
  rw [readNext?_eq, readNext?_eq, hclosed, hrejecting, hinput, hending]
  split
  · exact .inl ⟨rfl, rfl⟩
  · exact alike_after h _

/-! ## Runs -/

/-- Once the frame of a call has failed, the call has ended. -/
theorem Failed.settle {call : Call} {s t : Session Call} (hadvance : s.advance? = some t)
    (h : Failed call t) : Failed call s.settle := by
  rw [settle_of_some hadvance]
  exact h.mono (results_settle t)

/-- A session whose first frame does not matter to the call moves on alone, and otherwise both sessions
move. -/
theorem alike_settle {call : Call} {s t : Session Call} (h : Alike call s t) :
    Alike call s.settle t.settle ∨ Failed call s.settle ∨ Failed call t.settle := by
  -- one session may move while the other one waits, so both together have to come nearer to rest
  induction hn : s.measure + t.measure using Nat.strongRecOn generalizing s t with
  | ind n ih =>
    obtain ⟨-, -, -, -, -, hblocked⟩ := shared_eq_iff.mp h.shared
    have hboth : ∀ s' t', s.advance? = some s' → t.advance? = some t' → Alike call s' t' →
        Alike call s.settle t.settle ∨ Failed call s.settle ∨ Failed call t.settle := by
      intro s' t' hs ht halike
      have hs' := measure_advance? hs
      have ht' := measure_advance? ht
      rw [settle_of_some hs, settle_of_some ht]
      exact ih _ (by omega) halike rfl
    have hread : (s.blocked = true ∨ s.queue = []) → (t.blocked = true ∨ t.queue = []) →
        Alike call s.settle t.settle ∨ Failed call s.settle ∨ Failed call t.settle := by
      intro hs ht
      have hs := advance?_of_idle hs
      have ht := advance?_of_idle ht
      rcases alike_readNext? h with ⟨hs', ht'⟩ | ⟨s', t', hs', ht', halike⟩
      · rw [settle_of_none (hs.trans hs'), settle_of_none (ht.trans ht')]
        exact .inl h
      · exact hboth s' t' (hs.trans hs') (ht.trans ht') halike
    cases hb : s.blocked with
    | true => exact hread (.inl hb) (.inl (hblocked.trans hb))
    | false =>
      have hb' := hblocked.trans hb
      have hleft : ∀ {job rest}, s.queue = job :: rest → Origin.concerns call job.origin = false →
          Alike call s.settle t.settle ∨ Failed call s.settle ∨ Failed call t.settle := by
        intro job rest hqueue hjob
        have hs := advance?_of_queue hb hqueue
        have hs' := measure_advance? hs
        rw [settle_of_some hs]
        exact ih _ (by omega) (alike_wrote_left h hb hqueue hjob) rfl
      have hright : ∀ {job rest}, t.queue = job :: rest → Origin.concerns call job.origin = false →
          Alike call s.settle t.settle ∨ Failed call s.settle ∨ Failed call t.settle := by
        intro job rest hqueue hjob
        have ht := advance?_of_queue hb' hqueue
        have ht' := measure_advance? ht
        rw [settle_of_some ht]
        exact ih _ (by omega) (alike_wrote_left h.symm hb' hqueue hjob).symm rfl
      have hconcerned := h.concerned
      unfold concerned at hconcerned
      -- the frames in front that do not matter go first, on either side
      cases hqueue : s.queue with
      | nil =>
        cases hqueue' : t.queue with
        | nil => exact hread (.inr hqueue) (.inr hqueue')
        | cons job' rest' =>
          cases hjob' : Origin.concerns call job'.origin with
          | false => exact hright hqueue' hjob'
          | true =>
            rw [hqueue, hqueue', List.map_cons, List.filter_cons_of_pos hjob'] at hconcerned
            cases hconcerned
      | cons job rest =>
        cases hjob : Origin.concerns call job.origin with
        | false => exact hleft hqueue hjob
        | true =>
          cases hqueue' : t.queue with
          | nil =>
            rw [hqueue, hqueue', List.map_cons, List.filter_cons_of_pos hjob] at hconcerned
            cases hconcerned
          | cons job' rest' =>
            cases hjob' : Origin.concerns call job'.origin with
            | false => exact hright hqueue' hjob'
            | true =>
              have hs := advance?_of_queue hb hqueue
              have ht := advance?_of_queue hb' hqueue'
              rcases alike_wrote h hqueue hqueue' hjob hjob' with halike | hfailed | hfailed
              · exact hboth _ _ hs ht halike
              · exact .inr (.inl (hfailed.settle hs))
              · exact .inr (.inr (hfailed.settle ht))

/-! ## Events -/

/-- What belongs to no call depends on the event and on itself alone. -/
theorem occur_shared {s t : Session Call} (h : t.shared = s.shared) (e : Event Call) :
    (t.occur e).shared = (s.occur e).shared := by
  obtain ⟨hid, hclosed, hrejecting, hinput, hending, hblocked⟩ := shared_eq_iff.mp h
  cases e with
  | request c method params =>
    simp only [occur, request, hclosed]
    split <;> simp only [Session.shared, finish, hid, hrejecting, hinput, hending, hblocked]
  | notify c method params =>
    simp only [occur, notify, hclosed]
    split <;> simp only [Session.shared, finish, hid, hclosed, hrejecting, hinput, hending, hblocked]
  | receive bytes =>
    simp only [occur, receive, hending]
    split <;> simp only [Session.shared, hid, hclosed, hrejecting, hinput, hending, hblocked]
  | endInput ending =>
    simp only [occur, endInput, hending]
    split <;> simp only [Session.shared, hid, hclosed, hrejecting, hinput, hending, hblocked]
  | _ => simp only [Session.shared, occur, cancel, hid, hclosed, hrejecting, hinput, hending, hblocked]

/-- What a session holds of the call depends on the event, on itself and on what belongs to no call. -/
theorem occur_same {call : Call} {s t : Session Call} (h : SameFor call s t)
    (hshared : t.shared = s.shared) (e : Event Call) : SameFor call (s.occur e) (t.occur e) := by
  obtain ⟨hid, hclosed, -, -, hending, -⟩ := shared_eq_iff.mp hshared
  -- what decides about an event is shared: whether the session is closed, its next id and its ending
  obtain ⟨hpending, hanswered, hresults⟩ := h
  cases e with
  | request c method params =>
    simp only [occur, request, hclosed, hid]
    split
    · exact ⟨hpending, hanswered, filter_append_congr hresults _⟩
    · exact ⟨filter_append_congr hpending _, hanswered, hresults⟩
  | notify c method params =>
    simp only [occur, notify, hclosed]
    split
    · exact ⟨hpending, hanswered, filter_append_congr hresults _⟩
    · exact ⟨hpending, hanswered, hresults⟩
  | cancel c => exact ⟨filter_filter_congr hpending _, filter_filter_congr hanswered _, hresults⟩
  | receive bytes =>
    simp only [occur, receive, hending]
    split <;> exact ⟨hpending, hanswered, hresults⟩
  | endInput ending =>
    simp only [occur, endInput, hending]
    split <;> exact ⟨hpending, hanswered, hresults⟩
  | _ => exact ⟨hpending, hanswered, hresults⟩

/-- The frames that matter to the call depend on the event, on themselves and on what belongs to no call. -/
theorem occur_concerned {call : Call} {s t : Session Call} (h : t.concerned call = s.concerned call)
    (hshared : t.shared = s.shared) (e : Event Call) :
    (t.occur e).concerned call = (s.occur e).concerned call := by
  obtain ⟨hid, hclosed, -, -, hending, -⟩ := shared_eq_iff.mp hshared
  unfold concerned at h ⊢
  cases e with
  | request c method params =>
    simp only [occur, request, hclosed, hid]
    split
    · exact h
    · -- the new frame comes last in both queues
      rw [List.map_append, List.map_append]
      exact filter_append_congr h _
  | notify c method params =>
    simp only [occur, notify, hclosed]
    split
    · exact h
    · rw [List.map_append, List.map_append]
      exact filter_append_congr h _
  | cancel c =>
    simp only [occur]
    rw [map_cancel_queue, map_cancel_queue]
    exact filter_filter_congr h _
  | receive bytes =>
    simp only [occur, receive, hending]
    split <;> exact h
  | endInput ending =>
    simp only [occur, endInput, hending]
    split <;> exact h
  | _ => exact h

/-- Two alike sessions stay alike when the same event happens to both. -/
theorem alike_occur {call : Call} {s t : Session Call} (h : Alike call s t) (e : Event Call) :
    Alike call (s.occur e) (t.occur e) :=
  ⟨numbered_occur h.left e, numbered_occur h.right e, occur_shared h.shared e,
    occur_same h.same h.shared e, occur_concerned h.concerned h.shared e⟩

/-- Two alike sessions stay alike when the same event happens to both and they come to rest, unless the
frame of the call fails in one of them. -/
theorem alike_apply {call : Call} {s t : Session Call} (h : Alike call s t) (e : Event Call) :
    Alike call (s.apply e) (t.apply e) ∨ Failed call (s.apply e) ∨ Failed call (t.apply e) :=
  alike_settle (alike_occur h e)

/-- A frame that could not be written before an event could not be written after it. -/
theorem Failed.apply {call : Call} {s : Session Call} (h : Failed call s) (e : Event Call) :
    Failed call (s.apply e) :=
  (h.mono (occur_results s e)).mono (results_settle _)

/-- Whatever happens after a failed write, the frame could not be written. -/
theorem Failed.foldl {call : Call} {s : Session Call} (h : Failed call s) (events : List (Event Call)) :
    Failed call (events.foldl Session.apply s) := by
  induction events generalizing s with
  | nil => exact h
  | cons e events ih => exact ih (h.apply e)

/-- Whatever happens to both sessions from now on. -/
theorem alike_foldl {call : Call} {s t : Session Call} (h : Alike call s t) (events : List (Event Call)) :
    Alike call (events.foldl apply s) (events.foldl apply t) ∨ Failed call (events.foldl apply s) ∨
      Failed call (events.foldl apply t) := by
  induction events generalizing s t with
  | nil => exact .inl h
  | cons e events ih =>
    rcases alike_apply h e with halike | hfailed | hfailed
    · exact ih halike
    · exact .inr (.inl (hfailed.foldl events))
    · exact .inr (.inr (hfailed.foldl events))

/-! ## Cancelling another call -/

/-- A session in which another call is cancelled is alike to one in which it is not. -/
theorem alike_cancel {call c : Call} (hc : c ≠ call) {s : Session Call} (hs : s.Numbered) :
    Alike call s (s.cancel c) := by
  refine ⟨hs, numbered_occur hs (.cancel c), rfl, cancel_other hc s, ?_⟩
  unfold concerned
  rw [map_cancel_queue]
  refine filter_filter_of_imp fun origin _ horigin => ?_
  cases origin with
  | rejection => rfl
  | request id d =>
    cases of_decide_eq_true horigin
    simpa [Origin.belongsTo] using Ne.symm hc
  | notification d =>
    cases of_decide_eq_true horigin
    simpa [Origin.belongsTo] using Ne.symm hc

/-- A session in which everything has been done that could be, is left as it is. -/
theorem settle_foldl (events : List (Event Call)) :
    (events.foldl apply (new : Session Call)).settle = events.foldl apply .new := by
  apply settle_of_none
  induction events using List.reverseRecOn with
  | nil => rfl
  | append_singleton events e _ =>
    rw [List.foldl_append]
    exact advance?_settle _

end IndexFs.Channel.Session

import IndexFs.Proofs.FileSystem.ReadOnly
import IndexFs.Proofs.FileSystem.Unserved

/-!
# Failed requests for metadata

A session may take a request for metadata that fails on its way as the answer that there is no such entry.
Such a session and one that does not go through the same states side by side (`Parallel`): the same calls end
in the same steps, the same is said to the index, and only the labels of these failures differ
(`stat_errors_relabelled`).
-/

namespace IndexFs.FileSystem

/-- The end of a call in a session that reports failed requests for metadata, and in one that takes them as
answers, after some events. -/
inductive Relabelled (happened : List Event) :
    Nat × Except FsError Value → Nat × Except FsError Value → Prop where
  /-- A change is refused. -/
  | refused {call : Nat} {c : Change} (hchange : .change call c ∈ happened) :
      Relabelled happened (call, .error c.refusal) (call, .error c.refusal)
  /-- A request for metadata has failed on its way. -/
  | folded {call : Nat} {r : Read} (hread : .read call r ∈ happened) (hmethod : r.method = .statFile)
      (e : ChannelError) :
      Relabelled happened (call, .error (.transport e)) (call, .error (.fileNotFound r.uri))
  /-- Any other end of a read. -/
  | kept {call : Nat} {r : Read} {result : Except FsError Value} (hread : .read call r ∈ happened)
      (hother : r.method = .statFile → ∀ e, result ≠ .error (.transport e)) :
      Relabelled happened (call, result) (call, result)

/-- What can be seen of a step is the same but for the labels of the calls that have ended. -/
structure RelabelledGlimpse (happened : List Event) (reported taken : Glimpse) : Prop where
  finished : List.Forall₂ (Relabelled happened) reported.finished taken.finished
  connects : taken.connects = reported.connects
  state : taken.state = reported.state
  received : taken.received = reported.received
  metrics : taken.metrics = reported.metrics

/-- The two ends of one read. -/
theorem relabelled_result {happened : List Event} {call : Nat} {r : Read}
    (hread : .read call r ∈ happened) (result : Except FsError Value) :
    Relabelled happened (call, result) (call, r.folded result) := by
  unfold Read.folded
  split
  · next hmethod => exact .folded hread hmethod _
  · next hother => exact .kept hread fun hmethod e hresult => hother e hmethod hresult

/-- What has happened before also has happened later. -/
theorem Relabelled.mono {happened happened' : List Event} (hsub : happened ⊆ happened')
    {p q : Nat × Except FsError Value} (h : Relabelled happened p q) : Relabelled happened' p q := by
  cases h with
  | refused hchange => exact .refused (hsub hchange)
  | folded hread hmethod e => exact .folded (hsub hread) hmethod e
  | kept hread hother => exact .kept (hsub hread) hother

namespace Session

/-- The session from now on takes failed requests for metadata as answers. -/
def taking (s : Session) : Session :=
  { s with statErrorsAsNotFound := true }

/-- Two sessions side by side: the first reports failed requests for metadata, the second takes them as
answers, and this is all that they do not agree on. -/
structure Parallel (happened : List Event) (s t : Session) : Prop where
  reports : s.statErrorsAsNotFound = false
  agrees : ∃ results, t = s.taking.withResults results
  results : List.Forall₂ (Relabelled happened) s.results t.results
  started : ∀ p ∈ s.reads, .read p.1 p.2 ∈ happened

/-- Sessions that go in parallel do so with regard to more events. -/
theorem Parallel.mono {happened happened' : List Event} (hsub : happened ⊆ happened') {s t : Session}
    (h : Parallel happened s t) : Parallel happened' s t where
  reports := h.reports
  agrees := h.agrees
  results := h.results.imp fun _ _ => Relabelled.mono hsub
  started p hp := hsub (h.started p hp)

variable {happened : List Event} {s t : Session}

/-- Sessions stay side by side when both do the same to all but their results. -/
theorem parallel_congr {s' t' : Session} (h : Parallel happened s t)
    (hreports : s'.statErrorsAsNotFound = s.statErrorsAsNotFound) (hreads : s'.reads ⊆ s.reads)
    (hresults : s'.results = s.results) (hagrees : t' = s'.taking.withResults t.results) :
    Parallel happened s' t' where
  reports := hreports.trans h.reports
  agrees := ⟨_, hagrees⟩
  results := by
    rw [hresults, hagrees]
    exact h.results
  started p hp := h.started p (hreads hp)

/-- Two sessions in parallel differ in the switch and in their results only. -/
theorem Parallel.eq (h : Parallel happened s t) : t = s.taking.withResults t.results := by
  obtain ⟨results, rfl⟩ := h.agrees
  rfl

/-- A call ends in both. -/
theorem parallel_finish (h : Parallel happened s t) {call : Nat} {r r' : Except FsError Value}
    (hr : Relabelled happened (call, r) (call, r')) :
    Parallel happened (s.finish call r) (t.finish call r') where
  reports := h.reports
  agrees := by
    rw [h.eq]
    exact ⟨t.results ++ [(call, r')], rfl⟩
  results := List.rel_append h.results (.cons hr .nil)
  started := h.started

/-- A read ends in both sessions. -/
theorem parallel_without (h : Parallel happened s t) (call : Nat) :
    Parallel happened (s.without call) (t.without call) := by
  refine parallel_congr h rfl (List.filter_subset_self _) rfl ?_
  rw [h.eq]
  rfl

/-- A read that goes on has started. -/
theorem Parallel.lookup (h : Parallel happened s t) {call : Nat} {r : Read}
    (hlookup : s.reads.lookup call = some r) : .read call r ∈ happened := by
  obtain ⟨before, after, hreads, -⟩ := List.lookup_eq_some_iff.mp hlookup
  refine h.started (call, r) ?_
  rw [hreads]
  exact List.mem_append_right _ List.mem_cons_self

/-- Apart from the switch and their results, two sessions in parallel are the same. -/
theorem Parallel.same (h : Parallel happened s t) : t.withResults [] = s.taking.withResults [] := by
  obtain ⟨results, rfl⟩ := h.agrees
  rfl

/-! ## What the sessions do -/

/-- The same event happens to both sessions. -/
theorem parallel_occur (h : Parallel happened s t) {e : Event} (he : e ∈ happened) :
    Parallel happened (s.occur e) (t.occur e) := by
  cases e with
  | read call r =>
    obtain ⟨hreports, ⟨results, rfl⟩, hresults, hstarted⟩ := h
    refine ⟨hreports, ⟨results, rfl⟩, hresults, fun p hp => ?_⟩
    rcases List.mem_append.mp hp with hp | hp
    · exact hstarted p hp
    · rw [List.mem_singleton.mp hp]
      exact he
  | change call c => exact parallel_finish h (.refused he)
  | cancel call =>
    refine parallel_congr h rfl (List.filter_subset_self _) rfl ?_
    rw [h.eq]
    rfl
  | _ =>
    refine parallel_congr h rfl (List.Subset.refl _) rfl ?_
    rw [h.eq]
    rfl

/-- Both sessions open the same channel. -/
theorem parallel_connect (h : Parallel happened s t) : Parallel happened s.connect t.connect := by
  -- the switch and the results do not matter to how the channel is opened
  have hopen : ∀ results, (s.taking.withResults results).openChannel =
      s.openChannel.taking.withResults results := by
    intro results
    unfold openChannel
    simp only [withResults, taking]
    split <;> rfl
  have hreports : s.openChannel.statErrorsAsNotFound = s.statErrorsAsNotFound := by
    rcases openChannel_cases s with ⟨metrics, r, hcase⟩ | ⟨name, hcase⟩ <;> rw [hcase] <;> rfl
  obtain ⟨hresults, hreads, -⟩ := openChannel_reads s
  have ht := h.eq
  cases hready : s.canConnect with
  | false =>
    have hready' : t.canConnect = false := by
      rw [ht]
      exact hready
    rw [connect_of_false hready, connect_of_false hready']
    exact h
  | true =>
    have hready' : t.canConnect = true := by
      rw [ht]
      exact hready
    rw [connect_of_true hready, connect_of_true hready']
    refine parallel_congr h hreports (hreads ▸ List.Subset.refl _) hresults ?_
    rw [ht]
    exact hopen _

/-- Both sessions hear the same answer, and may make different errors of it. -/
theorem parallel_hear (h : Parallel happened s t) (caller : Caller) (reply : Channel.Result) :
    Parallel happened (s.hear caller reply) (t.hear caller reply) := by
  have ht := h.eq
  cases caller with
  | introduction =>
    rw [ht]
    unfold hear
    cases Handshake.accept reply <;>
      exact parallel_congr h rfl (List.Subset.refl _) rfl rfl
  | confirmation =>
    rw [ht]
    exact parallel_congr h rfl (List.Subset.refl _) rfl rfl
  | read call =>
    have hsame : t.reads = s.reads := by
      rw [ht]
      rfl
    cases hlookup : s.reads.lookup call with
    | none =>
      rw [hear_read_of_none hlookup, hear_read_of_none (s := t) (by rw [hsame, hlookup])]
      exact h
    | some r =>
      rw [hear_read_of_some hlookup, hear_read_of_some (s := t) (by rw [hsame, hlookup])]
      -- the read ends, and only here does it matter which of the sessions it belongs to
      have htaking : t.statErrorsAsNotFound = true := by
        rw [ht]
        rfl
      have hcounted : Parallel happened ((s.count (·.countResult reply)).without call)
          ((t.count (·.countResult reply)).without call) := by
        have hcount : Parallel happened (s.count (·.countResult reply))
            (t.count (·.countResult reply)) := by
          refine parallel_congr h rfl (List.Subset.refl _) rfl ?_
          rw [ht]
          rfl
        exact parallel_without hcount call
      have hended := parallel_finish hcounted (relabelled_result (h.lookup hlookup) (r.result reply))
      have hs : (s.count (·.countResult reply)).finishRead call r reply =
          ((s.count (·.countResult reply)).without call).finish call (r.result reply) := by
        simp only [finishRead, count, h.reports, Bool.false_eq_true, if_false]
        rfl
      have ht' : (t.count (·.countResult reply)).finishRead call r reply =
          ((t.count (·.countResult reply)).without call).finish call (r.folded (r.result reply)) := by
        simp only [finishRead, count, htaking, if_true]
        rfl
      rw [hs, ht']
      exact hended

/-- Both sessions hear the same answers. -/
theorem parallel_hearAll (rs : List (Caller × Channel.Result)) (h : Parallel happened s t) :
    Parallel happened (s.hearAll rs) (t.hearAll rs) := by
  induction rs generalizing s t with
  | nil => exact h
  | cons r rs ih => exact ih (parallel_hear h r.1 r.2)

/-- Both sessions hear what their links have collected. -/
theorem parallel_exchange (h : Parallel happened s t) : Parallel happened s.exchange t.exchange := by
  have ht := h.eq
  have hlink : t.link = s.link := by
    rw [ht]
    rfl
  rw [exchange_eq_hearAll, exchange_eq_hearAll, hlink]
  refine parallel_hearAll _ (parallel_congr h rfl (List.Subset.refl _) rfl ?_)
  rw [ht]
  rfl

/-- Both sessions let a read through, or refuse it with the same error. -/
theorem parallel_proceed (h : Parallel happened s t) (call : Nat) (verdict : Except FsError Unit)
    (hverdict : ∀ e, verdict = .error e → ∀ e', e ≠ .transport e') :
    Parallel happened (s.proceed call verdict) (t.proceed call verdict) := by
  have ht := h.eq
  have hsame : t.reads = s.reads := by
    rw [ht]
    rfl
  cases hlookup : s.reads.lookup call with
  | none =>
    rw [proceed_of_none hlookup, proceed_of_none (s := t) (by rw [hsame, hlookup])]
    exact h
  | some r =>
    -- a read that is let through asks the same question; one that is refused ends with an error of its own kind
    cases verdict with
    | ok _ =>
      rw [proceed_of_ok hlookup, proceed_of_ok (s := t) (by rw [hsame, hlookup])]
      refine parallel_congr h rfl (List.Subset.refl _) rfl ?_
      rw [ht]
      rfl
    | error e =>
      rw [proceed_of_error hlookup, proceed_of_error (s := t) (by rw [hsame, hlookup])]
      refine parallel_finish (parallel_without h call) (.kept (h.lookup hlookup) fun _ e' he' => ?_)
      exact hverdict e rfl e' (Except.error.inj he')

/-- Both sessions give the same reads the same verdict. -/
theorem parallel_proceedAll {r : Except ChannelError Unit} (calls : List Nat)
    (h : Parallel happened s t) :
    Parallel happened (s.proceedAll (calls.map fun c => (c, Gate.verdict r)))
      (t.proceedAll (calls.map fun c => (c, Gate.verdict r))) := by
  have hverdict : ∀ e, Gate.verdict r = .error e → ∀ e', e ≠ .transport e' := by
    intro e he e' htransport
    subst htransport
    cases r <;> cases he
  induction calls generalizing s t with
  | nil => exact h
  | cons call calls ih => exact ih (parallel_proceed h call _ hverdict)

/-- Both sessions let the reads through that wait for the same outcome. -/
theorem parallel_letThrough (h : Parallel happened s t) :
    Parallel happened s.letThrough t.letThrough := by
  have ht := h.eq
  have hgate : t.gate = s.gate := by
    rw [ht]
    rfl
  cases houtcome : s.gate.outcome with
  | none =>
    rw [letThrough_of_none houtcome, letThrough_of_none (s := t) (by rw [hgate, houtcome])]
    exact h
  | some r =>
    rw [letThrough_of_some houtcome, letThrough_of_some (s := t) (by rw [hgate, houtcome]), hgate]
    have hemptied : Parallel happened s.emptied t.emptied := by
      refine parallel_congr h rfl (List.Subset.refl _) rfl ?_
      rw [ht]
      rfl
    exact parallel_proceedAll s.gate.waiting hemptied

/-- Sessions that are side by side stay so in every step. -/
theorem parallel_apply (h : Parallel happened s t) {e : Event} (he : e ∈ happened) :
    Parallel happened (s.apply e) (t.apply e) :=
  parallel_exchange (parallel_letThrough (parallel_exchange (parallel_exchange
    (parallel_connect (parallel_occur h he)))))

/-! ## The session as a whole -/

/-- Sessions with and without the switch go in parallel, whatever happens. -/
theorem parallel_run (connector : Connector) (link : Link Caller) (processId : Nat)
    (events : List Event) :
    Parallel events (events.foldl apply (new connector link false processId))
      (events.foldl apply (new connector link true processId)) := by
  induction events using List.reverseRecOn with
  | nil =>
    exact ⟨rfl, ⟨[], rfl⟩, .nil, fun p hp => absurd hp List.not_mem_nil⟩
  | append_singleton events e ih =>
    rw [List.foldl_append, List.foldl_append]
    exact parallel_apply (ih.mono (List.subset_append_left _ _))
      (List.mem_append_right _ List.mem_cons_self)

/-- What a step shows of sessions that are side by side before and after it. -/
theorem relabelled_glimpse {s' t' : Session} (h : Parallel happened s t)
    (h' : Parallel happened s' t') : RelabelledGlimpse happened (s.glimpse s') (t.glimpse t') := by
  have hlength := h.results.length_eq
  have hfinished := List.forall₂_drop s.results.length h'.results
  obtain ⟨results, rfl⟩ := h'.agrees
  refine ⟨?_, rfl, rfl, rfl, rfl⟩
  show List.Forall₂ _ (s'.results.drop s.results.length) (results.drop t.results.length)
  rw [← hlength]
  exact hfinished

/-- Whether failed requests for metadata are reported or taken as answers changes nothing but their labels,
whatever the connector, whoever answers and in whatever order things happen: two sessions that differ in it
are in the same state after every step but for the results, the same calls end in each step, and those that
end differently are exactly the requests for metadata that have failed on their way, which are told that
there is no such entry. -/
theorem stat_errors_relabelled (connector : Connector) (link : Link Caller) (processId : Nat)
    (events : List Event) (e : Event) :
    let reporting := events.foldl apply (new connector link false processId)
    let taking := events.foldl apply (new connector link true processId)
    RelabelledGlimpse (events ++ [e]) (reporting.glimpse (reporting.apply e))
        (taking.glimpse (taking.apply e)) ∧
      List.Forall₂ (Relabelled events) reporting.results taking.results ∧
      taking.withResults [] = reporting.taking.withResults [] := by
  intro reporting taking
  have hrun : Parallel events reporting taking := parallel_run connector link processId events
  clear_value reporting taking
  have hnext : Parallel (events ++ [e]) reporting taking := hrun.mono (List.subset_append_left _ _)
  have hstep := parallel_apply hnext (List.mem_append_right events List.mem_cons_self)
  exact ⟨relabelled_glimpse hnext hstep, hrun.results, hrun.same⟩

end Session

end IndexFs.FileSystem

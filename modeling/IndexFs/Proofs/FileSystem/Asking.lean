import IndexFs.Proofs.FileSystem.Introduction
import IndexFs.Proofs.FileSystem.Meaning

/-!
# How reads are asked

On a link to an index at hand, a session that makes its connection says nothing but what belongs to that
(`prepares_connected`). Once the connection is made, each read that waits is asked as its one question, and
ends with what the answer means to it (`letThrough_exchange_ok`); if it could not be made, each is told so
(`letThrough_exchange_error`).
-/

namespace IndexFs

/-- The question that a read asks: its method, and its URL as the only parameter. -/
def Read.question (r : Read) : Outgoing :=
  .request r.method.name (.object [("uri", .string r.url.toRemote)])

/-- The answer, if there is one. -/
def Reply.answer? : Reply → Option (Except ChannelError Json)
  | .answer r => some r
  | .silence => none

theorem Reply.answer?_eq_some {reply : Reply} {r : Except ChannelError Json} :
    reply.answer? = some r ↔ reply = .answer r := by
  cases reply <;> simp [answer?]

namespace Index

open FileSystem (Caller)

/-- What the index says to those of the reads that it answers. -/
def answers (index : Index) (reads : List (Nat × Read)) : List (Caller × Channel.Result) :=
  reads.filterMap fun p => (index p.2.question).answer?.map fun reply => (.read p.1, reply)

/-- How those of the reads end that the index answers. -/
def ends (index : Index) (folding : Bool) (reads : List (Nat × Read)) :
    List (Nat × Except FsError Value) :=
  reads.filterMap fun p => (index p.2.question).answer?.map fun reply => (p.1, p.2.told folding reply)

theorem mem_ends {index : Index} {folding : Bool} {reads : List (Nat × Read)} {call : Nat}
    {x : Except FsError Value} :
    (call, x) ∈ index.ends folding reads ↔
      ∃ r reply, (call, r) ∈ reads ∧ index r.question = .answer reply ∧ x = r.told folding reply := by
  unfold ends
  rw [List.mem_filterMap]
  constructor
  · rintro ⟨⟨c, r⟩, hmem, hends⟩
    obtain ⟨reply, hreply, heq⟩ := Option.map_eq_some_iff.mp hends
    cases heq
    exact ⟨r, reply, hmem, Reply.answer?_eq_some.mp hreply, rfl⟩
  · rintro ⟨r, reply, hmem, hreply, rfl⟩
    exact ⟨(call, r), hmem, Option.map_eq_some_iff.mpr ⟨reply, Reply.answer?_eq_some.mpr hreply, rfl⟩⟩

/-- A read ends once if it came once. -/
theorem ends_keys_sublist (index : Index) (folding : Bool) (reads : List (Nat × Read)) :
    ((index.ends folding reads).map (·.1)).Sublist (reads.map (·.1)) := by
  induction reads with
  | nil => exact List.Sublist.refl []
  | cons p reads ih =>
    unfold ends
    cases hanswer : (index p.2.question).answer? with
    | none =>
      rw [List.filterMap_cons_none (by rw [hanswer]; rfl)]
      exact ih.cons _
    | some reply =>
      rw [List.filterMap_cons_some (by rw [hanswer]; rfl)]
      exact ih.cons_cons _

end Index

/-! ## Lists of reads -/

/-- A read is found under its call, where each call has one read. -/
theorem lookup_of_mem {α : Type} {l : List (Nat × α)} (hnodup : (l.map (·.1)).Nodup) {call : Nat} {a : α}
    (h : (call, a) ∈ l) : l.lookup call = some a := by
  induction l with
  | nil => cases h
  | cons p l ih =>
    obtain ⟨c, b⟩ := p
    rw [List.map_cons, List.nodup_cons] at hnodup
    rw [List.lookup_cons]
    rcases List.mem_cons.mp h with heq | hmem
    · cases heq
      rw [beq_self_eq_true]
    · have hne : call ≠ c := by
        rintro rfl
        exact hnodup.1 (List.mem_map.mpr ⟨_, hmem, rfl⟩)
      rw [beq_eq_false_iff_ne.mpr hne]
      exact ih hnodup.2 hmem

/-- Leaving out one call and then others is leaving out all of them. -/
theorem filter_ne_filter_notMem {α : Type} (l : List (Nat × α)) (call : Nat) (calls : List Nat) :
    ((l.filter fun p => p.1 ≠ call).filter fun p => p.1 ∉ calls) = l.filter fun p => p.1 ∉ call :: calls := by
  rw [List.filter_filter]
  refine List.filter_congr fun p _ => ?_
  by_cases heq : p.1 = call <;> simp [heq]

/-- Where each call has one read, leaving out one call leaves the reads of all others. -/
theorem subset_filter_ne {α : Type} {l reads : List (Nat × α)} {call : Nat}
    (hfirst : call ∉ reads.map (·.1)) (h : reads ⊆ l) : reads ⊆ l.filter fun p => p.1 ≠ call := by
  intro p hp
  have hne : p.1 ≠ call := fun heq => hfirst (List.mem_map.mpr ⟨p, hp, heq⟩)
  exact List.mem_filter.mpr ⟨h hp, decide_eq_true hne⟩

theorem filter_notMem_nil {α : Type} (l : List (Nat × α)) :
    (l.filter fun p => p.1 ∉ ([] : List Nat)) = l :=
  List.filter_eq_self.mpr fun p _ => by simp

theorem askDirectly_eq (index : Index) (received : List Outgoing)
    (results : List (FileSystem.Caller × Channel.Result)) (call : FileSystem.Caller) (message : Outgoing)
    (read : Channel.Result → Channel.Result) :
    Link.askDirectly index received results call message read =
      .direct index (received ++ [message])
        (results ++ ((index message).answer?.map fun r => (call, read r)).toList) := by
  unfold Link.askDirectly
  cases index message with
  | answer r => rfl
  | silence =>
    show Link.direct index (received ++ [message]) results =
      .direct index (received ++ [message]) (results ++ [])
    rw [List.append_nil]

namespace FileSystem.Session

/-! ## Reads that are let through -/

variable {s : Session}

/-- One after the other, the reads ask their questions. -/
theorem proceedAll_ok {index : Index} (reads : List (Nat × Read)) {received : List Outgoing}
    {results : List (Caller × Channel.Result)} (hlink : s.link = .direct index received results)
    (hkeys : (s.reads.map (·.1)).Nodup) (hreads : reads ⊆ s.reads) :
    ∃ metrics, s.proceedAll (reads.map fun p => (p.1, .ok ())) =
      { s with
        link := .direct index (received ++ reads.map (·.2.question)) (results ++ index.answers reads)
        metrics := metrics } := by
  induction reads generalizing s received results with
  | nil =>
    refine ⟨s.metrics, ?_⟩
    show s = _
    rw [Index.answers, List.filterMap_nil, List.map_nil, List.append_nil, List.append_nil, ← hlink]
  | cons p reads ih =>
    obtain ⟨call, r⟩ := p
    obtain ⟨hmem, hrest⟩ := List.cons_subset.mp hreads
    -- the first question is asked, and answered behind the answers before it
    have hasked : s.proceed call (.ok ()) = s.request (.read call) r.method.name r.params :=
      proceed_of_ok (lookup_of_mem hkeys hmem)
    have hlink' : (s.request (.read call) r.method.name r.params).link =
        .direct index (received ++ [r.question])
          (results ++ ((index r.question).answer?.map fun reply => (Caller.read call, reply)).toList) := by
      show s.link.request (.read call) r.method.name r.params = _
      rw [hlink]
      exact askDirectly_eq _ _ _ _ _ _
    have hanswers : index.answers ((call, r) :: reads) =
        ((index r.question).answer?.map fun reply => (Caller.read call, reply)).toList ++
          index.answers reads := by
      unfold Index.answers
      cases hanswer : (index r.question).answer? with
      | none => exact List.filterMap_cons_none (by rw [hanswer]; rfl)
      | some reply => exact List.filterMap_cons_some (by rw [hanswer]; rfl)
    obtain ⟨metrics, hothers⟩ := ih hlink' hkeys hrest
    refine ⟨metrics, ?_⟩
    show (s.proceed call (.ok ())).proceedAll _ = _
    rw [hasked, hothers, hanswers, List.append_assoc, List.append_assoc]
    rfl

/-- One after the other, the reads are turned back. -/
theorem proceedAll_error (e : FsError) (reads : List (Nat × Read)) (hnodup : (reads.map (·.1)).Nodup)
    (hkeys : (s.reads.map (·.1)).Nodup) (hreads : reads ⊆ s.reads) :
    s.proceedAll (reads.map fun p => (p.1, .error e)) =
      { s with
        reads := s.reads.filter fun p => p.1 ∉ reads.map (·.1)
        results := s.results ++ reads.map fun p => (p.1, .error e) } := by
  induction reads generalizing s with
  | nil =>
    show s = _
    rw [List.map_nil, List.map_nil, filter_notMem_nil, List.append_nil]
  | cons p reads ih =>
    obtain ⟨call, r⟩ := p
    rw [List.map_cons, List.nodup_cons] at hnodup
    obtain ⟨hmem, hrest⟩ := List.cons_subset.mp hreads
    -- the first read is turned away, and then the others as if it had never been there
    have hturned : s.proceed call (.error e) = (s.without call).finish call (.error e) :=
      proceed_of_error (lookup_of_mem hkeys hmem) e
    have hothers := ih (s := (s.without call).finish call (.error e)) hnodup.2
      (hkeys.sublist (List.filter_sublist.map _)) (subset_filter_ne hnodup.1 hrest)
    show (s.proceed call (.error e)).proceedAll _ = _
    rw [hturned, hothers]
    show ({ s with reads := _, results := _ } : Session) = { s with reads := _, results := _ }
    congr 1
    · exact filter_ne_filter_notMem s.reads call _
    · exact (List.append_cons _ _ _).symm

/-- One after the other, the reads that are answered end. -/
theorem hearAll_answers (index : Index) (reads : List (Nat × Read)) (hnodup : (reads.map (·.1)).Nodup)
    (hkeys : (s.reads.map (·.1)).Nodup) (hreads : reads ⊆ s.reads) :
    ∃ metrics, s.hearAll (index.answers reads) =
      { s with
        metrics := metrics
        reads := s.reads.filter fun p => p.1 ∉ (index.ends s.statErrorsAsNotFound reads).map (·.1)
        results := s.results ++ index.ends s.statErrorsAsNotFound reads } := by
  induction reads generalizing s with
  | nil =>
    refine ⟨s.metrics, ?_⟩
    show s = _
    rw [Index.ends, List.filterMap_nil, List.map_nil, filter_notMem_nil, List.append_nil]
  | cons p reads ih =>
    obtain ⟨call, r⟩ := p
    rw [List.map_cons, List.nodup_cons] at hnodup
    obtain ⟨hmem, hrest⟩ := List.cons_subset.mp hreads
    unfold Index.answers Index.ends
    -- the index is silent about a question, or answers it
    cases hanswer : (index r.question).answer? with
    | none =>
      rw [List.filterMap_cons_none (by rw [hanswer]; rfl), List.filterMap_cons_none (by rw [hanswer]; rfl)]
      exact ih hnodup.2 hkeys hrest
    | some reply =>
      rw [List.filterMap_cons_some (by rw [hanswer]; rfl), List.filterMap_cons_some (by rw [hanswer]; rfl)]
      -- the first read ends with its answer, and then the others as if it had never been there
      have hended : s.hear (.read call) reply = (s.count (·.countResult reply)).finishRead call r reply :=
        hear_read_of_some (lookup_of_mem hkeys hmem) reply
      obtain ⟨metrics, hothers⟩ := ih (s := (s.count (·.countResult reply)).finishRead call r reply) hnodup.2
        (hkeys.sublist (List.filter_sublist.map _)) (subset_filter_ne hnodup.1 hrest)
      refine ⟨metrics, ?_⟩
      show (s.hear (.read call) reply).hearAll (index.answers reads) = _
      rw [hended, hothers]
      show ({ s with metrics := _, reads := _, results := _ } : Session) =
        { s with metrics := _, reads := _, results := _ }
      congr 1
      · exact filter_ne_filter_notMem s.reads call _
      · exact (List.append_cons _ _ _).symm

/-- Behind an open gate each read that waits is asked, and those that are answered end. -/
theorem letThrough_exchange_ok {index : Index} {received : List Outgoing} {waiting : List (Nat × Read)}
    (hlink : s.link = .direct index received []) (houtcome : s.gate.outcome = some (.ok ()))
    (hwaiting : s.gate.waiting = waiting.map (·.1)) (hnodup : (waiting.map (·.1)).Nodup)
    (hkeys : (s.reads.map (·.1)).Nodup) (hreads : waiting ⊆ s.reads) :
    ∃ metrics, s.letThrough.exchange =
      { s.emptied with
        link := .direct index (received ++ waiting.map (·.2.question)) []
        metrics := metrics
        reads := s.reads.filter fun p => p.1 ∉ (index.ends s.statErrorsAsNotFound waiting).map (·.1)
        results := s.results ++ index.ends s.statErrorsAsNotFound waiting } := by
  have hverdicts : (s.gate.waiting.map fun c => (c, Gate.verdict (.ok ()))) =
      waiting.map fun p => (p.1, .ok ()) := by
    rw [hwaiting, List.map_map]
    rfl
  -- all questions are asked before the first answer is heard
  obtain ⟨metrics, hasked⟩ := proceedAll_ok (s := s.emptied) waiting hlink hkeys hreads
  have hpassed : s.letThrough = s.emptied.proceedAll (waiting.map fun p => (p.1, .ok ())) := by
    rw [letThrough_of_some houtcome, hverdicts]
    rfl
  rw [hpassed, hasked, exchange_eq_hearAll]
  obtain ⟨metrics', hheard⟩ := hearAll_answers index waiting
    (s := { s.emptied with
      link := .direct index (received ++ waiting.map (·.2.question)) []
      metrics := metrics }) hnodup hkeys hreads
  exact ⟨metrics', hheard⟩

/-- If the connection could not be made, each read that waits is told why. -/
theorem letThrough_exchange_error {e : ChannelError} {waiting : List (Nat × Read)} (hcalm : s.link.Calm)
    (houtcome : s.gate.outcome = some (.error e)) (hwaiting : s.gate.waiting = waiting.map (·.1))
    (hnodup : (waiting.map (·.1)).Nodup) (hreads : s.reads = waiting) :
    s.letThrough.exchange =
      { s.emptied with
        reads := []
        results := s.results ++ waiting.map fun p => (p.1, .error (.connectionUnavailable e.message)) } := by
  have hverdicts : (s.gate.waiting.map fun c => (c, Gate.verdict (.error e))) =
      waiting.map fun p => (p.1, .error (.connectionUnavailable e.message)) := by
    rw [hwaiting, List.map_map]
    rfl
  -- every read that has not ended waits at the gate
  have hnone : (s.reads.filter fun p => p.1 ∉ waiting.map (·.1)) = [] := by
    refine List.filter_eq_nil_iff.mpr fun p hp => ?_
    rw [decide_eq_true_eq, not_not]
    exact List.mem_map.mpr ⟨p, hreads ▸ hp, rfl⟩
  have hpassed : s.letThrough =
      { s.emptied with
        reads := s.reads.filter fun p => p.1 ∉ waiting.map (·.1)
        results := s.results ++ waiting.map fun p => (p.1, .error (.connectionUnavailable e.message)) } := by
    rw [letThrough_of_some houtcome, hverdicts]
    exact proceedAll_error _ waiting hnodup (by rw [emptied, hreads]; exact hnodup)
      (by rw [emptied, hreads]; exact List.Subset.refl _)
  rw [hpassed, hnone]
  exact exchange_of_calm hcalm

/-! ## Making the connection -/

/-- Nothing is said from one session to the other but what belongs to making the connection, and no read
gets on. -/
structure Prepares (s t : Session) : Prop where
  folding : t.statErrorsAsNotFound = s.statErrorsAsNotFound
  waiting : t.gate.waiting = s.gate.waiting
  reads : t.reads = s.reads
  results : t.results = s.results
  said : ∀ {index received results}, s.link = .direct index received results →
    ∃ more results', t.link = .direct index (received ++ more) results' ∧ ∀ m ∈ more, ¬m.IsQuestion

theorem link_said {index : Index} {received : List Outgoing} {results : List (Caller × Channel.Result)} :
    ∃ more results', Link.direct index received results = .direct index (received ++ more) results' ∧
      ∀ m ∈ more, ¬Outgoing.IsQuestion m :=
  ⟨[], results, by rw [List.append_nil], fun _ hm => absurd hm List.not_mem_nil⟩

theorem Prepares.refl (s : Session) : s.Prepares s :=
  ⟨rfl, rfl, rfl, rfl, fun hlink => hlink ▸ link_said⟩

theorem Prepares.trans {t u : Session} (h : s.Prepares t) (h' : t.Prepares u) : s.Prepares u where
  folding := h'.folding.trans h.folding
  waiting := h'.waiting.trans h.waiting
  reads := h'.reads.trans h.reads
  results := h'.results.trans h.results
  said hlink := by
    obtain ⟨more, results, hlink', hmore⟩ := h.said hlink
    obtain ⟨more', results', hlink'', hmore'⟩ := h'.said hlink'
    refine ⟨more ++ more', results', by rw [hlink'', List.append_assoc], fun m hm => ?_⟩
    rcases List.mem_append.mp hm with hm | hm
    · exact hmore m hm
    · exact hmore' m hm

/-- A message of the handshake is said. -/
theorem said_askDirectly {message : Outgoing} (hmessage : ¬message.IsQuestion) (index : Index)
    (received : List Outgoing) (results : List (Caller × Channel.Result)) (caller : Caller)
    (read : Channel.Result → Channel.Result) :
    ∃ more results', Link.askDirectly index received results caller message read =
      .direct index (received ++ more) results' ∧ ∀ m ∈ more, ¬Outgoing.IsQuestion m := by
  refine ⟨[message], _, askDirectly_eq _ _ _ _ _ _, fun m hm => ?_⟩
  rw [List.mem_singleton.mp hm]
  exact hmessage

theorem prepares_openChannel (s : Session) : s.Prepares s.openChannel := by
  obtain ⟨hresults, hreads, hwaiting⟩ := openChannel_reads s
  rcases openChannel_cases s with ⟨metrics, r, hopen⟩ | ⟨name, hopen⟩
  · refine ⟨by rw [hopen]; rfl, hwaiting, hreads, hresults, fun hlink => ?_⟩
    rw [hopen]
    exact hlink ▸ link_said
  · refine ⟨by rw [hopen]; rfl, hwaiting, hreads, hresults, fun hlink => ?_⟩
    rw [hopen]
    have hrequest := not_question_request ⟨name, Handshake.version, s.processId⟩
    show ∃ more results', s.link.request _ _ _ = _ ∧ _
    rw [hlink]
    exact said_askDirectly hrequest _ _ _ _ _

theorem prepares_hear (s : Session) {caller : Caller} (hcaller : ∀ call, caller ≠ .read call)
    (reply : Channel.Result) : s.Prepares (s.hear caller reply) := by
  obtain ⟨hresults, hreads, hwaiting⟩ := hear_reads s caller hcaller reply
  cases caller with
  | introduction =>
    unfold hear at hresults hreads hwaiting ⊢
    cases haccept : Handshake.accept reply with
    | error e =>
      rw [haccept] at hresults hreads hwaiting
      exact ⟨rfl, hwaiting, hreads, hresults, fun hlink => hlink ▸ link_said⟩
    | ok i =>
      refine ⟨rfl, rfl, rfl, rfl, fun hlink => ?_⟩
      show ∃ more results', s.link.notify _ _ _ = _ ∧ _
      rw [hlink]
      exact said_askDirectly not_question_notification _ _ _ _ _
  | confirmation => exact ⟨rfl, hwaiting, hreads, hresults, fun hlink => hlink ▸ link_said⟩
  | read call => exact absurd rfl (hcaller call)

/-- As long as there is no outcome, the only result that can be heard belongs to the handshake. -/
theorem Coherent.greeting {rs : List (Caller × Channel.Result)} (h : s.Coherent rs)
    (houtcome : s.gate.outcome = none) :
    rs = [] ∨ ∃ caller reply, rs = [(caller, reply)] ∧ ∀ call, caller ≠ .read call := by
  have hstage : s.stage ≠ .finished := by
    intro hfinished
    rw [← h.finished, houtcome] at hfinished
    cases hfinished
  cases rs with
  | nil => exact .inl rfl
  | cons r rs =>
    obtain ⟨caller, reply⟩ := r
    have hcaller := Stage.handshake_of_caller (h.caller_of_expects hstage h.head.1)
    refine .inr ⟨caller, reply, ?_, fun call hread => by simp [hread] at hcaller⟩
    cases rs with
    | nil => rfl
    | cons r' rs =>
      have hdue := h.nothing_due hstage r'.1
      rw [h.tail.head.2] at hdue
      cases hdue

theorem prepares_exchange (h : s.Coherent []) (hready : s.gate.outcome = none ∨ s.link.Calm) :
    s.Prepares s.exchange := by
  rcases hready with houtcome | hcalm
  · have hcollected : s.Prepares (s.withLink s.link.settle.collect.1) := by
      refine ⟨rfl, rfl, rfl, rfl, fun hlink => ?_⟩
      show ∃ more results', s.link.settle.collect.1 = _ ∧ _
      rw [hlink]
      exact link_said
    rw [exchange_eq_hearAll]
    rcases (coherent_collected h).greeting houtcome with hnone | ⟨caller, reply, hone, hcaller⟩
    · rw [hnone]
      exact hcollected
    · rw [hone]
      exact hcollected.trans (prepares_hear _ hcaller reply)
  · rw [exchange_of_calm hcalm]
    exact .refl s

/-- Where the connector ends at once, nothing is on its way. -/
theorem connect_calm (hcalm : s.link.Calm) (houtcome : s.gate.outcome = none) :
    s.Prepares s.connect ∧ (s.connect.gate.outcome = none ∨ s.connect.link.Calm) := by
  cases hready : s.canConnect with
  | false =>
    rw [connect_of_false hready]
    exact ⟨.refl s, .inl houtcome⟩
  | true =>
    rw [connect_of_true hready]
    refine ⟨prepares_openChannel s, ?_⟩
    rcases openChannel_cases s with ⟨metrics, r, hopen⟩ | ⟨name, hopen⟩
    · rw [hopen]
      exact .inr hcalm
    · rw [hopen]
      exact .inl houtcome

/-- The connection is made, as far as it gets. -/
theorem prepares_connected (h : s.Coherent []) (hcalm : s.link.Calm) (houtcome : s.gate.outcome = none) :
    s.Prepares s.connect.exchange.exchange := by
  obtain ⟨hconnect, hready⟩ := connect_calm hcalm houtcome
  have hcoherent := (coherent_connect h).1
  refine (hconnect.trans (prepares_exchange hcoherent hready)).trans
    (prepares_exchange (coherent_exchange hcoherent).1 ?_)
  rcases exchange_calm hcoherent with hcalm' | hstage
  · exact .inr hcalm'
  · refine .inl ((coherent_exchange hcoherent).1.outcome_of_stage ?_)
    rw [hstage]
    decide

/-- A connection is made once. -/
theorem connected_of_outcome (h : s.Coherent []) (hcalm : s.link.Calm) (houtcome : s.gate.outcome ≠ none) :
    s.connect.exchange.exchange = s := by
  have hstage : s.stage = .finished := h.finished.mp (Option.isSome_iff_ne_none.mpr houtcome)
  have hready : s.canConnect = false := by
    unfold canConnect
    rw [hstage]
    rfl
  rw [connect_of_false hready, exchange_of_calm hcalm, exchange_of_calm hcalm]

end FileSystem.Session

end IndexFs

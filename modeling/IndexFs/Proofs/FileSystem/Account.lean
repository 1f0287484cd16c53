import IndexFs.Proofs.FileSystem.Asking
import Mathlib.Data.List.Pairwise

/-!
# The account of all reads

A session on a link to an index at hand keeps an account of its reads (`Account`): each read that was not
withdrawn before the connection was made is asked as one question, and ends with what the answer to this
question means. All others say nothing (`reads_accounted`).
-/

namespace IndexFs.FileSystem

/-- The call that starts. -/
def Event.started? : Event → Option Nat
  | .read call _ => some call
  | .change call _ => some call
  | _ => none

/-- The read that starts. -/
def Event.read? : Event → Option (Nat × Read)
  | .read call r => some (call, r)
  | _ => none

theorem Event.mem_read? {events : List Event} {call : Nat} {r : Read} :
    (call, r) ∈ events.filterMap Event.read? ↔ .read call r ∈ events := by
  rw [List.mem_filterMap]
  constructor
  · rintro ⟨e, he, hread⟩
    cases e with
    | read c r' =>
      cases hread
      exact he
    | _ => cases hread
  · exact fun h => ⟨_, h, rfl⟩

/-- The calls of the reads are among the calls that start. -/
theorem Event.read?_sublist (events : List Event) :
    ((events.filterMap Event.read?).map (·.1)).Sublist (events.filterMap Event.started?) := by
  induction events with
  | nil => exact List.Sublist.refl []
  | cons e events ih =>
    cases e with
    | read call r => exact ih.cons_cons _
    | change call c => exact ih.cons _
    | _ => exact ih

/-- Where each call starts once, there is one event that starts it. -/
theorem Event.eq_of_started {events : List Event} (hcalls : (events.filterMap Event.started?).Nodup)
    {e f : Event} (he : e ∈ events) (hf : f ∈ events) {call : Nat} (hstarts : e.started? = some call)
    (hstarts' : f.started? = some call) : e = f := by
  have hdistinct := List.pairwise_filterMap.mp hcalls
  have hsymm : Std.Symm fun e f : Event =>
      ∀ c, e.started? = some c → ∀ c', f.started? = some c' → c ≠ c' :=
    ⟨fun _ _ h c hc c' hc' => (h c' hc' c hc).symm⟩
  by_contra hne
  exact hdistinct.forall he hf hne call hstarts call hstarts' rfl

namespace Session

/-- A read is withdrawn if it is cancelled while there is no outcome of the connection. -/
def Withdrawn (start : Session) (events : List Event) (call : Nat) : Prop :=
  ∃ before after, events = before ++ .cancel call :: after ∧ (∃ r, .read call r ∈ before) ∧
    (before.foldl apply start).gate.outcome = none

/-- What a session with the given events owes to its reads, and what it has said: first what belongs to
making the connection, and then the questions of the reads that were asked. -/
structure Account (start : Session) (index : Index) (folding : Bool) (events : List Event)
    (greeting : List Outgoing) (asked : List (Nat × Read)) : Prop where
  received : (events.foldl apply start).link.received = greeting ++ asked.map (·.2.question)
  greets : ∀ m ∈ greeting, ¬m.IsQuestion
  once : (asked.map (·.1)).Nodup
  asks : ∀ call r, (call, r) ∈ asked ↔
    (events.foldl apply start).gate.outcome = some (.ok ()) ∧ .read call r ∈ events ∧
      ¬Withdrawn start events call
  /-- A read that was asked ends when it is answered, with what the answer means. -/
  served : ∀ call r, (call, r) ∈ asked → ∀ x, (call, x) ∈ (events.foldl apply start).results ↔
    ∃ reply, index r.question = .answer reply ∧ x = r.told folding reply
  /-- A read that was not asked ends when there is no connection, unless it was withdrawn. -/
  unserved : ∀ call r, .read call r ∈ events → (call, r) ∉ asked → ∀ x,
    (call, x) ∈ (events.foldl apply start).results ↔
      ¬Withdrawn start events call ∧
        ∃ e, (events.foldl apply start).gate.outcome = some (.error e) ∧
          x = .error (.connectionUnavailable e.message)
  endsOnce : ((events.foldl apply start).results.map (·.1)).Nodup

/-! ## What is kept from event to event -/

/-- How a read ends that has passed the gate, by the outcome of the connection. -/
def Ends (index : Index) (folding : Bool) :
    Option (Except ChannelError Unit) → Read → Except FsError Value → Prop
  | none, _, _ => False
  | some (.ok ()), r, x => ∃ reply, index r.question = .answer reply ∧ x = r.told folding reply
  | some (.error e), _, x => x = .error (.connectionUnavailable e.message)

/-- What those ask who have passed the gate, by the outcome of the connection. -/
def questions (passed : List (Nat × Read)) : Option (Except ChannelError Unit) → List Outgoing
  | some (.ok ()) => passed.map (·.2.question)
  | _ => []

/-- The reads of a session: those that have passed the gate, and those that wait for it. -/
structure Books (start : Session) (index : Index) (folding : Bool) (events : List Event) (s : Session)
    (greeting : List Outgoing) (passed waiting : List (Nat × Read)) : Prop where
  folds : s.statErrorsAsNotFound = folding
  link : s.link = .direct index (greeting ++ questions passed s.gate.outcome) []
  greets : ∀ m ∈ greeting, ¬m.IsQuestion
  closed : s.gate.outcome = none → passed = []
  waits : s.gate.waiting = waiting.map (·.1)
  reads : s.reads.Sublist (passed ++ waiting)
  unfinished : waiting ⊆ s.reads
  /-- Where nothing is asked, nobody but those who wait has not ended. -/
  unasked : s.gate.outcome ≠ some (.ok ()) → s.reads = waiting
  begun : (passed ++ waiting).Sublist (events.filterMap Event.read?)
  remains : ∀ p ∈ events.filterMap Event.read?, p ∈ passed ++ waiting ↔ ¬Withdrawn start events p.1
  results : ∀ call x, (call, x) ∈ s.results ↔
    (∃ c, .change call c ∈ events ∧ x = .error c.refusal) ∨
      ∃ r, (call, r) ∈ passed ∧ Ends index folding s.gate.outcome r x
  once : (s.results.map (·.1)).Nodup

variable {start s : Session} {index : Index} {folding : Bool} {events : List Event}
  {greeting : List Outgoing} {passed waiting : List (Nat × Read)}

theorem withdrawn_concat {e : Event} {call : Nat} :
    Withdrawn start (events ++ [e]) call ↔
      Withdrawn start events call ∨
        e = .cancel call ∧ (∃ r, .read call r ∈ events) ∧
          (events.foldl apply start).gate.outcome = none := by
  constructor
  · rintro ⟨before, after, hsplit, hread, hnone⟩
    rcases List.eq_nil_or_concat' after with rfl | ⟨after, last, rfl⟩
    · obtain ⟨rfl, he⟩ := List.append_inj' hsplit rfl
      cases he
      exact .inr ⟨rfl, hread, hnone⟩
    · rw [← List.cons_append, ← List.append_assoc] at hsplit
      obtain ⟨rfl, -⟩ := List.append_inj' hsplit rfl
      exact .inl ⟨before, after, rfl, hread, hnone⟩
  · rintro (⟨before, after, rfl, hread, hnone⟩ | ⟨rfl, hread, hnone⟩)
    · exact ⟨before, after ++ [e], by rw [List.append_assoc]; rfl, hread, hnone⟩
    · exact ⟨events, [], rfl, hread, hnone⟩

/-- Only a cancellation withdraws a read. -/
theorem withdrawn_concat_of_ne {e : Event} {call : Nat} (he : e ≠ .cancel call) :
    Withdrawn start (events ++ [e]) call ↔ Withdrawn start events call := by
  rw [withdrawn_concat]
  exact or_iff_left fun h => he h.1

theorem started_of_withdrawn {call : Nat} (h : Withdrawn start events call) :
    call ∈ events.filterMap Event.started? := by
  obtain ⟨before, after, rfl, ⟨r, hr⟩, -⟩ := h
  exact List.mem_filterMap.mpr ⟨_, List.mem_append_left _ hr, rfl⟩

namespace Books

/-- A call that has ended has been started. -/
theorem started_of_result (h : Books start index folding events s greeting passed waiting) {call : Nat}
    {x : Except FsError Value} (hx : (call, x) ∈ s.results) : call ∈ events.filterMap Event.started? := by
  rcases (h.results call x).mp hx with ⟨c, hc, -⟩ | ⟨r, hr, -⟩
  · exact List.mem_filterMap.mpr ⟨_, hc, rfl⟩
  · have hbegun := h.begun.subset (List.mem_append_left _ hr)
    exact List.mem_filterMap.mpr ⟨_, Event.mem_read?.mp hbegun, rfl⟩

theorem keys_nodup (h : Books start index folding events s greeting passed waiting)
    (hcalls : (events.filterMap Event.started?).Nodup) : ((passed ++ waiting).map (·.1)).Nodup :=
  hcalls.sublist ((h.begun.map _).trans (Event.read?_sublist events))

/-! ## Events -/

/-- A read starts. -/
theorem occur_read (h : Books start index folding events s greeting passed waiting) {call : Nat} {r : Read}
    (hnew : call ∉ events.filterMap Event.started?) :
    Books start index folding (events ++ [.read call r]) (s.occur (.read call r)) greeting passed
      (waiting ++ [(call, r)]) where
  folds := h.folds
  link := h.link
  greets := h.greets
  closed := h.closed
  waits := by
    rw [List.map_append, ← h.waits]
    rfl
  reads := by
    rw [← List.append_assoc]
    exact h.reads.append_right _
  unfinished := List.append_subset.mpr
    ⟨List.Subset.trans h.unfinished (List.subset_append_left _ _), List.subset_append_right _ _⟩
  unasked hclosed := congrArg (· ++ [(call, r)]) (h.unasked hclosed)
  begun := by
    rw [List.filterMap_append, ← List.append_assoc]
    exact h.begun.append_right _
  -- the new read is not withdrawn, and its number is not that of an older one
  remains p hp := by
    rw [List.filterMap_append] at hp
    rw [← List.append_assoc, List.mem_append,
      withdrawn_concat_of_ne (e := .read call r) nofun]
    rcases List.mem_append.mp hp with hp | hp
    · have hother : p ∉ [(call, r)] := by
        intro hsame
        rw [List.mem_singleton.mp hsame] at hp
        exact hnew (List.mem_filterMap.mpr ⟨_, Event.mem_read?.mp hp, rfl⟩)
      rw [or_iff_left hother]
      exact h.remains p hp
    · rw [List.mem_singleton.mp hp]
      exact iff_of_true (.inr List.mem_cons_self) fun hwithdrawn => hnew (started_of_withdrawn hwithdrawn)
  -- a read that waits has no result yet
  results c x := by
    rw [show (s.occur (.read call r)).results = s.results from rfl, h.results]
    simp [occur, Gate.enter]
  once := h.once

/-- A change is refused. -/
theorem occur_change (h : Books start index folding events s greeting passed waiting) {call : Nat}
    {c : Change} (hnew : call ∉ events.filterMap Event.started?) :
    Books start index folding (events ++ [.change call c]) (s.occur (.change call c)) greeting passed
      waiting where
  folds := h.folds
  link := h.link
  greets := h.greets
  closed := h.closed
  waits := h.waits
  reads := h.reads
  unfinished := h.unfinished
  unasked := h.unasked
  begun := by
    rw [List.filterMap_append]
    exact h.begun.trans (List.sublist_append_left _ _)
  remains p hp := by
    rw [List.filterMap_append, List.mem_append] at hp
    rw [withdrawn_concat_of_ne (e := .change call c) nofun]
    exact h.remains p (hp.resolve_right List.not_mem_nil)
  -- the only new result is the refusal, which stands for the change itself
  results c' x := by
    show (c', x) ∈ s.results ++ [(call, .error c.refusal)] ↔ _
    rw [List.mem_append, h.results, List.mem_singleton]
    show _ ↔ _ ∨ ∃ r, (c', r) ∈ passed ∧ Ends index folding s.gate.outcome r x
    constructor
    · rintro ((⟨c'', hc, hx⟩ | hr) | heq)
      · exact .inl ⟨c'', List.mem_append_left _ hc, hx⟩
      · exact .inr hr
      · cases heq
        exact .inl ⟨c, List.mem_append_right _ List.mem_cons_self, rfl⟩
    · rintro (⟨c'', hc, hx⟩ | hr)
      · rcases List.mem_append.mp hc with hc | hc
        · exact .inl (.inl ⟨c'', hc, hx⟩)
        · cases List.mem_singleton.mp hc
          exact .inr (by rw [hx])
      · exact .inl (.inr hr)
  once := by
    show (List.map (·.1) (s.results ++ [(call, .error c.refusal)])).Nodup
    rw [List.map_append, List.nodup_append]
    -- a call that is started now has no result from before
    refine ⟨h.once, List.nodup_singleton _, fun c' hc' c'' hc'' => ?_⟩
    rw [List.mem_singleton.mp hc'']
    rintro rfl
    obtain ⟨p, hp, hcall⟩ := List.mem_map.mp hc'
    exact hnew (hcall ▸ h.started_of_result hp)

/-- Nothing is started or cancelled. -/
theorem occur_other (h : Books start index folding events s greeting passed waiting) {e : Event}
    (hstarts : e.started? = none) (hcancels : ∀ call, e ≠ .cancel call) :
    Books start index folding (events ++ [e]) (s.occur e) greeting passed waiting := by
  -- the event neither starts a read nor withdraws one
  have hreads : (events ++ [e]).filterMap Event.read? = events.filterMap Event.read? := by
    rw [List.filterMap_append]
    cases e <;> first | exact List.append_nil _ | cases hstarts
  have hchanges : ∀ call c, .change call c ∈ events ++ [e] ↔ .change call c ∈ events := by
    intro call c
    rw [List.mem_append, List.mem_singleton]
    refine or_iff_left fun heq => ?_
    rw [← heq] at hstarts
    cases hstarts
  have hwithdrawn : ∀ call, Withdrawn start (events ++ [e]) call ↔ Withdrawn start events call :=
    fun call => withdrawn_concat_of_ne (hcancels call)
  have hsame : Books start index folding (events ++ [e]) s greeting passed waiting := {
    h with
    begun := by
      rw [hreads]
      exact h.begun
    remains := by
      intro p hp
      rw [hreads] at hp
      rw [hwithdrawn]
      exact h.remains p hp
    results := by
      intro call x
      simp only [hchanges]
      exact h.results call x }
  -- what it does to the session, the books do not look at
  cases e with
  | read call r => cases hstarts
  | change call c => cases hstarts
  | cancel call => exact absurd rfl (hcancels call)
  | _ => exact { hsame with }

/-- A call is cancelled: a read that waits is withdrawn, and one that was asked is forgotten. -/
theorem occur_cancel (h : Books start index folding events s greeting passed waiting) (call : Nat)
    (hstate : (events.foldl apply start).gate.outcome = s.gate.outcome)
    (hrest : s.gate.outcome = none ∨ waiting = []) :
    Books start index folding (events ++ [.cancel call]) (s.occur (.cancel call)) greeting passed
      (waiting.filter fun p => p.1 ≠ call) where
  folds := h.folds
  link := by
    show s.link.cancel (.read call) = _
    rw [h.link]
    rfl
  greets := h.greets
  closed := h.closed
  waits := by
    show s.gate.waiting.filter (· ≠ call) = _
    rw [h.waits, List.filter_map]
    rfl
  reads := by
    show (s.reads.filter fun p => p.1 ≠ call).Sublist _
    rcases hrest with hnone | rfl
    · rw [h.unasked (by rw [hnone]; nofun), h.closed hnone]
      exact List.Sublist.refl _
    · exact List.filter_sublist.trans h.reads
  unfinished := List.filter_subset _ h.unfinished
  unasked hclosed := congrArg (List.filter _) (h.unasked hclosed)
  begun := by
    rw [List.filterMap_append]
    exact ((List.filter_sublist.append_left passed).trans h.begun).trans (List.sublist_append_left _ _)
  remains p hp := by
    rw [List.filterMap_append, List.mem_append] at hp
    have hp' := hp.resolve_right List.not_mem_nil
    have hread : .read p.1 p.2 ∈ events := Event.mem_read?.mp hp'
    rw [withdrawn_concat, hstate]
    by_cases hnone : s.gate.outcome = none
    · have hremains := h.remains p hp'
      rw [h.closed hnone, List.nil_append] at hremains ⊢
      rw [List.mem_filter, hremains, decide_eq_true_eq, not_or]
      refine and_congr_right fun _ => ⟨fun hne hcancel => ?_, fun hcancel heq => hcancel ?_⟩
      · exact hne (Event.cancel.inj hcancel.1).symm
      · exact ⟨by rw [heq], ⟨p.2, hread⟩, hnone⟩
    · -- behind the gate nothing is withdrawn any more
      obtain rfl := hrest.resolve_left hnone
      rw [or_iff_left fun hcancel => hnone hcancel.2.2]
      exact h.remains p hp'
  results c x := by
    show (c, x) ∈ s.results ↔ _
    rw [h.results]
    simp [occur, Gate.leave]
  once := h.once

/-! ## Between two events -/

theorem calm (h : Books start index folding events s greeting passed waiting) : s.link.Calm := by
  rw [h.link]
  exact .direct index _

/-- The connection is made, as far as it gets. -/
theorem connected (h : Books start index folding events s greeting passed waiting)
    (hcoherent : s.Coherent []) :
    ∃ greeting', Books start index folding events s.connect.exchange.exchange greeting' passed waiting := by
  -- as long as there is no outcome, connecting only adds to the greeting
  by_cases hnone : s.gate.outcome = none
  · have hprepares := prepares_connected hcoherent h.calm hnone
    obtain ⟨more, results, hlink, hmore⟩ := hprepares.said h.link
    have hcalm := exchange_exchange_calm (coherent_connect hcoherent).1
    -- the link has come to rest, and nobody is owed an answer
    have hresults : results = [] := by
      rw [hlink] at hcalm
      cases hcalm
      rfl
    obtain rfl := h.closed hnone
    have hquestions : ∀ outcome, questions [] outcome = [] := fun outcome => by
      rcases outcome with _ | (_ | _) <;> rfl
    refine ⟨greeting ++ more, ?_⟩
    exact {
      folds := hprepares.folding.trans h.folds
      link := by
        rw [hlink, hresults, hquestions, hquestions, List.append_nil, List.append_nil]
      greets := fun m hm => (List.mem_append.mp hm).elim (h.greets m) (hmore m)
      closed := fun _ => rfl
      waits := hprepares.waiting.trans h.waits
      reads := by
        rw [hprepares.reads]
        exact h.reads
      unfinished := by
        rw [hprepares.reads]
        exact h.unfinished
      unasked := fun _ => hprepares.reads.trans (h.unasked (by rw [hnone]; nofun))
      begun := h.begun
      remains := h.remains
      results := fun call x => by
        rw [hprepares.results, h.results]
        simp
      once := by
        rw [hprepares.results]
        exact h.once }
  · -- with an outcome, there is nothing to connect
    rw [connected_of_outcome hcoherent h.calm hnone]
    exact ⟨greeting, h⟩

/-- A read that waits has not ended. -/
theorem not_ended (h : Books start index folding events s greeting passed waiting)
    (hcalls : (events.filterMap Event.started?).Nodup) {call : Nat} (hcall : call ∈ waiting.map (·.1)) :
    call ∉ s.results.map (·.1) := by
  intro hended
  obtain ⟨⟨c, x⟩, hx, rfl⟩ := List.mem_map.mp hended
  obtain ⟨⟨c', r⟩, hr, rfl⟩ := List.mem_map.mp hcall
  rcases (h.results _ x).mp hx with ⟨c, hc, -⟩ | ⟨r', hr', -⟩
  · have hread := Event.mem_read?.mp (h.begun.subset (List.mem_append_right _ hr))
    cases Event.eq_of_started hcalls hc hread rfl rfl
  · have hnodup := h.keys_nodup hcalls
    rw [List.map_append] at hnodup
    exact (List.nodup_append.mp hnodup).2.2 _ (List.mem_map.mpr ⟨_, hr', rfl⟩) _
      (List.mem_map.mpr ⟨_, hr, rfl⟩) rfl

/-- Results of reads that waited come once. -/
theorem once_append (h : Books start index folding events s greeting passed waiting)
    (hcalls : (events.filterMap Event.started?).Nodup) {more : List (Nat × Except FsError Value)}
    (hmore : (more.map (·.1)).Sublist (waiting.map (·.1))) : ((s.results ++ more).map (·.1)).Nodup := by
  have hnodup := h.keys_nodup hcalls
  rw [List.map_append] at hnodup
  rw [List.map_append, List.nodup_append]
  refine ⟨h.once, (List.nodup_append.mp hnodup).2.1.sublist hmore, fun c hc c' hc' => ?_⟩
  rintro rfl
  exact h.not_ended hcalls (hmore.subset hc') hc

/-- Those who waited have passed the gate, and some of them have ended. -/
theorem pass (h : Books start index folding events s greeting passed waiting) {t : Session}
    (houtcome : s.gate.outcome ≠ none) (hgate : t.gate = s.emptied.gate)
    (hfolds : t.statErrorsAsNotFound = s.statErrorsAsNotFound)
    (hlink : t.link = .direct index (greeting ++ questions (passed ++ waiting) s.gate.outcome) [])
    (hreads : t.reads.Sublist s.reads) (hunasked : s.gate.outcome ≠ some (.ok ()) → t.reads = [])
    (hresults : ∀ call x, (call, x) ∈ t.results ↔
      (call, x) ∈ s.results ∨ ∃ r, (call, r) ∈ waiting ∧ Ends index folding s.gate.outcome r x)
    (honce : (t.results.map (·.1)).Nodup) :
    Books start index folding events t greeting (passed ++ waiting) [] := by
  have houtcome' : t.gate.outcome = s.gate.outcome := by
    rw [hgate]
    rfl
  exact {
    folds := hfolds.trans h.folds
    link := by
      rw [houtcome', hlink]
    greets := h.greets
    closed := fun hnone => absurd (houtcome'.symm.trans hnone) houtcome
    waits := by
      rw [hgate]
      rfl
    reads := by
      rw [List.append_nil]
      exact hreads.trans h.reads
    unfinished := List.nil_subset _
    unasked := fun hclosed => hunasked (houtcome' ▸ hclosed)
    begun := by
      rw [List.append_nil]
      exact h.begun
    remains := by
      rw [List.append_nil]
      exact h.remains
    -- an old result, or one of a read that was let through just now
    results := fun call x => by
      rw [hresults, h.results, houtcome', or_assoc]
      simp only [List.mem_append, or_and_right, exists_or]
    once := honce }

/-- All who wait pass the gate when there is an outcome. -/
theorem passed_gate (h : Books start index folding events s greeting passed waiting)
    (hcalls : (events.filterMap Event.started?).Nodup) :
    ∃ passed' waiting',
      Books start index folding events s.letThrough.exchange greeting passed' waiting' ∧
        (s.letThrough.exchange.gate.outcome = none ∨ waiting' = []) := by
  have hkeys : (s.reads.map (·.1)).Nodup := (h.keys_nodup hcalls).sublist (h.reads.map _)
  have hwaiting : (waiting.map (·.1)).Nodup :=
    (h.keys_nodup hcalls).sublist ((List.sublist_append_right passed waiting).map _)
  -- the gate decides: the reads wait on, or all ask their questions, or all are refused
  cases houtcome : s.gate.outcome with
  | none =>
    rw [letThrough_of_none houtcome, exchange_of_calm h.calm]
    exact ⟨passed, waiting, h, .inl houtcome⟩
  | some r =>
    have hsome : s.gate.outcome ≠ none := by
      rw [houtcome]
      nofun
    cases r with
    | ok u =>
      obtain ⟨metrics, hasked⟩ := letThrough_exchange_ok (h.link.trans (by rw [houtcome])) houtcome
        h.waits hwaiting hkeys h.unfinished
      rw [hasked]
      refine ⟨passed ++ waiting, [], h.pass hsome rfl rfl ?_ List.filter_sublist ?_ ?_ ?_, .inr rfl⟩
      · show Link.direct index _ [] = _
        rw [houtcome, questions, questions, List.map_append, List.append_assoc]
      · exact fun hclosed => absurd houtcome hclosed
      · -- the results of the reads that were let through are what the index has answered
        intro call x
        rw [List.mem_append, Index.mem_ends, houtcome, h.folds]
        exact or_congr_right (exists_congr fun r => exists_and_left)
      · exact h.once_append hcalls (Index.ends_keys_sublist index _ waiting)
    | error e =>
      have hclosed : s.gate.outcome ≠ some (.ok ()) := by
        rw [houtcome]
        nofun
      rw [letThrough_exchange_error h.calm houtcome h.waits hwaiting (h.unasked hclosed)]
      refine ⟨passed ++ waiting, [], h.pass hsome rfl rfl ?_ (List.nil_sublist _) ?_ ?_ ?_, .inr rfl⟩
      · exact h.link.trans (by rw [houtcome]; rfl)
      · exact fun _ => rfl
      · -- the results of the reads that were refused all say the same
        intro call x
        rw [List.mem_append, houtcome]
        simp [Ends, eq_comm]
      · refine h.once_append hcalls ?_
        rw [List.map_map]
        exact List.Sublist.refl _

/-- An event, and all that can happen after it. -/
theorem apply (h : Books start index folding events s greeting passed waiting) (hcoherent : s.Coherent [])
    (hstate : s = events.foldl Session.apply start) {e : Event}
    (hcalls : ((events ++ [e]).filterMap Event.started?).Nodup)
    (hrest : s.gate.outcome = none ∨ waiting = []) :
    ∃ greeting' passed' waiting',
      Books start index folding (events ++ [e]) (s.apply e) greeting' passed' waiting' ∧
        ((s.apply e).gate.outcome = none ∨ waiting' = []) := by
  -- the call of the event, if it starts one, is a new one
  have hnew : ∀ call, e.started? = some call → call ∉ events.filterMap Event.started? := by
    intro call hcall hmem
    rw [List.filterMap_append, List.nodup_append] at hcalls
    refine hcalls.2.2 _ hmem call ?_ rfl
    rw [List.filterMap_cons_some hcall]
    exact List.mem_cons_self
  -- first the event itself, then the channel, then the gate
  have hoccurred : ∃ waiting', Books start index folding (events ++ [e]) (s.occur e) greeting passed waiting' := by
    cases e with
    | read call r => exact ⟨_, h.occur_read (hnew call rfl)⟩
    | change call c => exact ⟨_, h.occur_change (hnew call rfl)⟩
    | cancel call => exact ⟨_, h.occur_cancel call (by rw [hstate]) hrest⟩
    | _ => exact ⟨_, h.occur_other rfl nofun⟩
  obtain ⟨waiting', hoccurred⟩ := hoccurred
  obtain ⟨greeting', hconnected⟩ := hoccurred.connected (coherent_occur hcoherent e)
  obtain ⟨passed', waiting'', hpassed, hrest'⟩ := hconnected.passed_gate hcalls
  exact ⟨greeting', passed', waiting'', hpassed, hrest'⟩

end Books

theorem books_run (connector : Connector) (index : Index) (folding : Bool) (processId : Nat)
    (events : List Event) (hcalls : (events.filterMap Event.started?).Nodup) :
    let start := Session.new connector (.ofIndex index) folding processId
    ∃ greeting passed waiting,
      Books start index folding events (events.foldl apply start) greeting passed waiting ∧
        ((events.foldl apply start).gate.outcome = none ∨ waiting = []) := by
  -- what is owed depends on all that has happened, and so the last event is taken off
  induction events using List.reverseRecOn with
  | nil =>
    refine ⟨[], [], [], ?_, .inl rfl⟩
    exact {
      folds := rfl
      link := rfl
      greets := fun _ hm => absurd hm List.not_mem_nil
      closed := fun _ => rfl
      waits := rfl
      reads := List.Sublist.refl _
      unfinished := List.nil_subset _
      unasked := fun _ => rfl
      begun := List.Sublist.refl _
      remains := fun _ hp => absurd hp List.not_mem_nil
      results := fun _ _ => by simp [Session.new]
      once := List.nodup_nil }
  | append_singleton events e ih =>
    have hbefore : (events.filterMap Event.started?).Nodup := by
      rw [List.filterMap_append] at hcalls
      exact hcalls.sublist (List.sublist_append_left _ _)
    obtain ⟨greeting, passed, waiting, hbooks, hrest⟩ := ih hbefore
    obtain ⟨hcoherent, -⟩ := settled_run (.direct index) connector folding processId events
    simp only [List.foldl_append, List.foldl_cons, List.foldl_nil]
    exact hbooks.apply hcoherent rfl hcalls hrest

/-! ## The account -/

namespace Books

/-- A read ends as one that has passed the gate. -/
theorem ended_iff (h : Books start index folding events s greeting passed waiting)
    (hcalls : (events.filterMap Event.started?).Nodup) {call : Nat} {r : Read}
    (hread : .read call r ∈ events) (x : Except FsError Value) :
    (call, x) ∈ s.results ↔ (call, r) ∈ passed ∧ Ends index folding s.gate.outcome r x := by
  rw [h.results]
  constructor
  · rintro (⟨c, hc, -⟩ | ⟨r', hr', hends⟩)
    · cases Event.eq_of_started hcalls hread hc rfl rfl
    · have hread' := Event.mem_read?.mp (h.begun.subset (List.mem_append_left _ hr'))
      cases Event.eq_of_started hcalls hread hread' rfl rfl
      exact ⟨hr', hends⟩
  · exact fun hpassed => .inr ⟨r, hpassed⟩

theorem passed_iff (h : Books start index folding events s greeting passed []) {call : Nat} {r : Read} :
    (call, r) ∈ passed ↔ .read call r ∈ events ∧ ¬Withdrawn start events call := by
  have hbegun := h.begun
  have hremains := h.remains
  rw [List.append_nil] at hbegun hremains
  constructor
  · exact fun hmem =>
      ⟨Event.mem_read?.mp (hbegun.subset hmem), (hremains _ (hbegun.subset hmem)).mp hmem⟩
  · exact fun ⟨hread, hstays⟩ => (hremains _ (Event.mem_read?.mpr hread)).mpr hstays

/-- Where nothing was asked. -/
theorem account_of_unasked
    (h : Books start index folding events (events.foldl Session.apply start) greeting passed waiting)
    (hcalls : (events.filterMap Event.started?).Nodup)
    (hclosed : (events.foldl Session.apply start).gate.outcome ≠ some (.ok ()))
    (hrest : (events.foldl Session.apply start).gate.outcome = none ∨ waiting = []) :
    Account start index folding events greeting [] where
  received := by
    rw [h.link]
    -- a gate that is not open has let no question through
    show greeting ++ questions passed _ = greeting ++ []
    congr 1
    unfold questions
    split
    · next hopen => exact absurd hopen hclosed
    · rfl
  greets := h.greets
  once := List.nodup_nil
  asks call r := iff_of_false List.not_mem_nil fun hasked => hclosed hasked.1
  served call r hasked := absurd hasked List.not_mem_nil
  unserved call r hread _ x := by
    rw [h.ended_iff hcalls hread]
    cases houtcome : (events.foldl Session.apply start).gate.outcome with
    | none => exact iff_of_false (fun hended => hended.2) fun ⟨_, _, he, _⟩ => nomatch he
    | some outcome =>
      cases outcome with
      | ok u => exact absurd houtcome hclosed
      | error e =>
        -- a gate that failed has nobody waiting
        obtain rfl := hrest.resolve_left (by rw [houtcome]; nofun)
        rw [h.passed_iff, and_iff_right hread]
        refine and_congr_right fun _ => ⟨fun hx => ⟨e, rfl, hx⟩, fun ⟨e', he, hx⟩ => ?_⟩
        cases he
        exact hx
  endsOnce := h.once

/-- Where all that passed the gate was asked. -/
theorem account_of_asked
    (h : Books start index folding events (events.foldl Session.apply start) greeting passed [])
    (hcalls : (events.filterMap Event.started?).Nodup)
    (hopen : (events.foldl Session.apply start).gate.outcome = some (.ok ())) :
    Account start index folding events greeting passed where
  received := by
    rw [h.link, hopen]
    rfl
  greets := h.greets
  once := by
    have hnodup := h.keys_nodup hcalls
    rwa [List.append_nil] at hnodup
  asks call r := by
    rw [h.passed_iff, and_iff_right hopen]
  served call r hasked x := by
    rw [h.ended_iff hcalls (h.passed_iff.mp hasked).1, and_iff_right hasked, hopen]
    rfl
  unserved call r hread hother x := by
    rw [h.ended_iff hcalls hread]
    -- a read that was not asked is still withdrawn, or was never let through
    refine iff_of_false (fun hended => hother hended.1) fun ⟨hstays, _⟩ => ?_
    exact hother (h.passed_iff.mpr ⟨hread, hstays⟩)
  endsOnce := h.once

end Books

/-- A session on a link to an index at hand keeps an account of its reads, and each of them ends with what
the reply to its question means. -/
theorem reads_accounted (connector : Connector) (index : Index) (folding : Bool) (processId : Nat)
    (events : List Event) (hcalls : (events.filterMap Event.started?).Nodup) :
    (∃ greeting asked,
      Account (.new connector (.ofIndex index) folding processId) index folding events greeting asked) ∧
      ∀ (r : Read) (reply : Except ChannelError Json), r.Means folding reply (r.told folding reply) := by
  refine ⟨?_, fun r reply => r.means_told folding reply⟩
  obtain ⟨greeting, passed, waiting, hbooks, hrest⟩ :=
    books_run connector index folding processId events hcalls
  refine ⟨greeting, ?_⟩
  by_cases hopen :
      (events.foldl apply (.new connector (.ofIndex index) folding processId)).gate.outcome = some (.ok ())
  · obtain rfl := hrest.resolve_left (by rw [hopen]; nofun)
    exact ⟨passed, hbooks.account_of_asked hcalls hopen⟩
  · exact ⟨[], hbooks.account_of_unasked hcalls hopen hrest⟩

/-- Two reads wait while the connector is held, one of them is cancelled, and a third one comes when the
connection is made. -/
theorem reads_accounted_held :
    let url : Url := ⟨"lsif", some ⟨"", "", "proj", none⟩, false, .segments ["a"], none, none⟩
    let events : List Event := [.read 0 ⟨.statFile, url⟩, .read 1 ⟨.readFile, url⟩, .cancel 0, .release,
      .read 2 ⟨.readDirectory, url⟩]
    let start := new ⟨true, .opens none⟩ (.ofIndex (.constant .null)) true 0
    (events.filterMap Event.started?).Nodup ∧
      (∃ greeting asked, Account start (.constant .null) true events greeting asked) ∧
      ∀ (r : Read) (reply : Except ChannelError Json), r.Means true reply (r.told true reply) := by
  intro url events start
  have hcalls : (events.filterMap Event.started?).Nodup := by decide
  exact ⟨hcalls, reads_accounted ⟨true, .opens none⟩ (.constant .null) true 0 events hcalls⟩

/-- A request for metadata that fails on its way is not always told as such. -/
theorem failed_stat_taken_as_answer :
    let r : Read := ⟨.statFile, ⟨"lsif", some ⟨"", "", "proj", none⟩, false, .segments ["a"], none, none⟩⟩
    let index : Index := fun _ => .answer (.error .closed)
    let s := [Event.read 0 r].foldl apply (new ⟨false, .opens none⟩ (.ofIndex index) true 0)
    s.gate.outcome = some (.ok ()) ∧ index r.question = .answer (.error .closed) ∧
      s.results = [(0, .error (.fileNotFound "lsif://proj/a"))] ∧
      (0, .error (.transport .closed)) ∉ s.results := by
  have hresults : ([Event.read 0 ⟨.statFile, ⟨"lsif", some ⟨"", "", "proj", none⟩, false, .segments ["a"],
      none, none⟩⟩].foldl apply (new ⟨false, .opens none⟩
        (.ofIndex fun _ => .answer (.error .closed)) true 0)).results =
      [(0, .error (.fileNotFound "lsif://proj/a"))] := by rfl
  refine ⟨rfl, rfl, hresults, ?_⟩
  rw [hresults, List.mem_singleton]
  nofun

end Session

end IndexFs.FileSystem

import IndexFs.Proofs.Gate.History
import Mathlib.Data.List.Nodup
import Mathlib.Data.List.Perm.Subperm

/-!
# One outcome for all callers

However callers come, leave and overtake one another, the connector is called once at most, its outcome
stays what it is, and whoever is answered learns this outcome (`outcome_shared`). Nobody who stays is lost:
as soon as there is an outcome, a session that is left alone has answered all of them.
-/

namespace IndexFs

/-- How the state of a gate moves on: there is no way out of the last two states. -/
inductive GateState.Follows : GateState → GateState → Prop where
  | same (a : GateState) : Follows a a
  | start : Follows .uninitialized .pending
  | succeed : Follows .pending .ready
  | fail : Follows .pending .failed

namespace Gate

/-! ## Gates -/

/-- An outcome is never replaced. -/
theorem resolve_of_some {g : Gate Nat} {r : Except ChannelError Unit} (h : g.outcome = some r)
    (r' : Except ChannelError Unit) : g.resolve r' = g := by
  unfold resolve
  rw [h]

theorem resolve_of_none {g : Gate Nat} (h : g.outcome = none) (r : Except ChannelError Unit) :
    g.resolve r = { g with outcome := some r } := by
  unfold resolve
  rw [h]

/-- Only the outcome is set. -/
theorem resolve_frame (g : Gate Nat) (r : Except ChannelError Unit) :
    (g.resolve r).started = g.started ∧ (g.resolve r).connects = g.connects ∧
      (g.resolve r).waiting = g.waiting := by
  unfold resolve
  split <;> exact ⟨rfl, rfl, rfl⟩

theorem state_of_ok {g : Gate Nat} (h : g.outcome = some (.ok ())) : g.state = .ready := by
  unfold state
  rw [h]

theorem state_of_error {g : Gate Nat} {e : ChannelError} (h : g.outcome = some (.error e)) :
    g.state = .failed := by
  unfold state
  rw [h]

theorem state_of_none {g : Gate Nat} (h : g.outcome = none) :
    g.state = if g.started then .pending else .uninitialized := by
  unfold state
  rw [h]

/-- A call that enters moves the state on or leaves it. -/
theorem follows_enter (g : Gate Nat) (call : Nat) : g.state.Follows (g.enter call).state := by
  cases houtcome : g.outcome with
  | none =>
    have hnext : (g.enter call).outcome = none := houtcome
    rw [state_of_none houtcome, state_of_none hnext]
    show GateState.Follows _ .pending
    split
    · exact .same _
    · exact .start
  | some r =>
    cases r with
    | ok _ =>
      have hnext : (g.enter call).outcome = some (.ok ()) := houtcome
      rw [state_of_ok houtcome, state_of_ok hnext]
      exact .same _
    | error e =>
      have hnext : (g.enter call).outcome = some (.error e) := houtcome
      rw [state_of_error houtcome, state_of_error hnext]
      exact .same _

/-- The outcome of a connection that is being made moves the state on. -/
theorem follows_resolve {g : Gate Nat} (hconnecting : g.isConnecting = true)
    (r : Except ChannelError Unit) : g.state.Follows (g.resolve r).state := by
  rw [isConnecting, Bool.and_eq_true, Option.isNone_iff_eq_none] at hconnecting
  obtain ⟨hstarted, houtcome⟩ := hconnecting
  rw [state_of_none houtcome, if_pos hstarted, resolve_of_none houtcome]
  cases r with
  | ok _ => exact .succeed
  | error e => exact .fail

namespace Session

variable {connector : Connector} {index : Index} {processId : Nat}

/-! ## Outcomes -/

/-- No step changes an outcome that there is. -/
theorem outcome_step {s t : Session} {m : Mark} (hstep : Step processId s m t)
    {r : Except ChannelError Unit} (houtcome : s.gate.outcome = some r) : t.gate.outcome = some r := by
  cases hstep with
  | event e => cases e <;> exact houtcome
  | enter => exact houtcome
  | connect =>
    show (s.gate.resolve _).outcome = some r
    rw [resolve_of_some houtcome, houtcome]
  | pass => exact houtcome

/-- No step takes the state back. -/
theorem follows_step {s t : Session} {m : Mark} (hstep : Step processId s m t) :
    s.gate.state.Follows t.gate.state := by
  cases hstep with
  | event e => cases e <;> exact .same _
  | enter => exact follows_enter s.gate _
  | connect hconnecting => exact follows_resolve hconnecting _
  | pass => exact .same _

/-- What never changes in a session, and where its results come from. -/
structure Coherent (index : Index) (s : Session) : Prop where
  index : s.index = index
  connects : s.gate.connects = if s.gate.started then 1 else 0
  results : ∀ p ∈ s.results, ∃ r, s.gate.outcome = some r ∧ p.2 = s.told r

theorem coherent_step {s t : Session} {m : Mark} (hstep : Step processId s m t)
    (hs : s.Coherent index) : t.Coherent index := by
  cases hstep with
  | event e => cases e <;> exact ⟨hs.index, hs.connects, hs.results⟩
  | enter =>
    refine ⟨hs.index, ?_, hs.results⟩
    -- the connector is called by the first who enters, and by no one after
    show (if s.gate.started then s.gate.connects else s.gate.connects + 1) = 1
    have hconnects := hs.connects
    split
    · next hstarted => rw [hconnects, if_pos hstarted]
    · next hstarted => rw [hconnects, if_neg hstarted]
  | connect hconnecting hfree =>
    obtain ⟨hstarted, hconnects, -⟩ := resolve_frame s.gate (s.fate processId)
    refine ⟨hs.index, ?_, fun p hp => ?_⟩
    · show (s.gate.resolve _).connects = if (s.gate.resolve _).started then 1 else 0
      rw [hstarted, hconnects]
      exact hs.connects
    · obtain ⟨r, hr, hp⟩ := hs.results p hp
      exact ⟨r, outcome_step (.connect hconnecting hfree) hr, hp⟩
  | pass houtcome =>
    refine ⟨hs.index, hs.connects, fun p hp => ?_⟩
    rcases List.mem_append.mp hp with hp | hp
    · exact hs.results p hp
    · rw [List.mem_singleton.mp hp]
      exact ⟨_, houtcome, rfl⟩

theorem coherent_history {h : List Mark} {s : Session} (hist : History connector index processId h s) :
    s.Coherent index := by
  induction hist with
  | new => exact ⟨rfl, rfl, fun p hp => absurd hp List.not_mem_nil⟩
  | step _ hstep ih => exact coherent_step hstep ih

/-! ## Callers -/

/-- The callers who are somewhere: on their way, at the gate, or answered. -/
def present (s : Session) : List Nat :=
  s.arriving ++ s.gate.waiting ++ s.results.map (·.1)

/-- A caller has come and did not leave. -/
def Stays (h : List Mark) (call : Nat) : Prop :=
  ∃ before after, h = before ++ .event (.call call) :: after ∧ .event (.cancel call) ∉ after

theorem stays_snoc {h : List Mark} {m : Mark} {call : Nat} :
    Stays (h ++ [m]) call ↔
      m = .event (.call call) ∨ Stays h call ∧ m ≠ .event (.cancel call) := by
  constructor
  · rintro ⟨before, after, hsplit, hcancel⟩
    -- the caller came either with the last mark or before it
    induction after using List.reverseRecOn with
    | nil =>
      obtain ⟨-, hm⟩ := List.append_inj' hsplit rfl
      exact .inl (List.singleton_inj.mp hm)
    | append_singleton after last =>
      rw [← List.cons_append, ← List.append_assoc] at hsplit
      obtain ⟨rfl, hm⟩ := List.append_inj' hsplit rfl
      have hlast := List.singleton_inj.mp hm
      refine .inr ⟨⟨before, after, rfl, fun hmem => hcancel (List.mem_append_left _ hmem)⟩, ?_⟩
      rintro rfl
      exact hcancel (List.mem_append_right _ (List.mem_singleton.mpr hlast))
  · rintro (rfl | ⟨⟨before, after, rfl, hcancel⟩, hm⟩)
    · exact ⟨h, [], rfl, List.not_mem_nil⟩
    · refine ⟨before, after ++ [m], by rw [List.append_assoc, List.cons_append], fun hmem => ?_⟩
      rcases List.mem_append.mp hmem with hmem | hmem
      · exact hcancel hmem
      · exact hm (List.mem_singleton.mp hmem).symm

/-- Only coming and leaving make a difference. -/
theorem stays_snoc_of_ne {h : List Mark} {m : Mark} {call : Nat} (hcall : m ≠ .event (.call call))
    (hcancel : m ≠ .event (.cancel call)) : Stays (h ++ [m]) call ↔ Stays h call := by
  rw [stays_snoc]
  exact ⟨fun hm => (hm.resolve_left hcall).1, fun hstays => .inr ⟨hstays, hcancel⟩⟩

/-- Nobody is in two places, and whoever is anywhere has come. -/
theorem nodup_present {h : List Mark} {s : Session} (hist : History connector index processId h s)
    (hfresh : (h.filterMap Mark.call?).Nodup) :
    s.present.Nodup ∧ ∀ c ∈ s.present, c ∈ h.filterMap Mark.call? := by
  induction hist with
  | new => exact ⟨List.nodup_nil, fun c hc => hc⟩
  | step hist hstep ih =>
    rename_i h s t m
    rw [List.filterMap_append, List.nodup_append] at hfresh
    obtain ⟨hnodup, hcame⟩ := ih hfresh.1
    -- a step that lets nobody in leaves everyone in one place at most
    have hkeep : ∀ {l : List Nat}, l.Subperm s.present →
        l.Nodup ∧ ∀ c ∈ l, c ∈ (h ++ [m]).filterMap Mark.call? := by
      rintro l ⟨l', hperm, hsublist⟩
      refine ⟨hperm.nodup_iff.mp (hsublist.nodup hnodup), fun c hc => ?_⟩
      rw [List.filterMap_append]
      exact List.mem_append_left _ (hcame c (hsublist.subset (hperm.mem_iff.mpr hc)))
    cases hstep with
    | event e =>
      cases e with
      | call call =>
        have hnew : call ∉ s.present := fun hmem =>
          hfresh.2.2 call (hcame call hmem) call (List.mem_singleton_self call) rfl
        have hp : (present (s.occur (.call call))).Perm (call :: s.present) := by
          rw [List.perm_iff_count]
          intro c
          simp only [present, occur, List.count_append, List.count_cons, List.count_nil]
          omega
        refine ⟨hp.nodup_iff.mpr (List.nodup_cons.mpr ⟨hnew, hnodup⟩), fun c hc => ?_⟩
        rw [List.filterMap_append]
        rcases List.mem_cons.mp (hp.subset hc) with rfl | hc
        · exact List.mem_append_right _ (List.mem_singleton_self c)
        · exact List.mem_append_left _ (hcame c hc)
      | cancel call =>
        apply hkeep
        exact ((List.filter_sublist.append List.filter_sublist).append (List.Sublist.refl _)).subperm
      | release => exact hkeep (List.Subperm.refl _)
    | enter harriving =>
      refine hkeep (List.Perm.subperm ?_)
      rw [List.perm_iff_count]
      intro c
      simp only [present, Gate.enter, harriving, List.count_append, List.count_cons, List.count_nil]
      omega
    | connect =>
      apply hkeep
      unfold present
      rw [(resolve_frame _ _).2.2]
    | pass houtcome hwaiting =>
      refine hkeep (List.Perm.subperm ?_)
      rw [List.perm_iff_count]
      intro c
      simp only [present, hwaiting, List.map_append, List.map_cons, List.map_nil, List.count_append,
        List.count_cons, List.count_nil]
      omega

/-- Those who wait are exactly those who stay and have no answer yet. -/
theorem waiting_iff {h : List Mark} {s : Session} (hist : History connector index processId h s)
    (hfresh : (h.filterMap Mark.call?).Nodup) (c : Nat) :
    c ∈ s.arriving ++ s.gate.waiting ↔ Stays h c ∧ c ∉ s.results.map (·.1) := by
  induction hist with
  | new =>
    have hnever : ¬Stays [] c := fun ⟨before, after, hsplit, _⟩ => by simp at hsplit
    simp [new, Gate.new, hnever]
  | step hist hstep ih =>
    rename_i h s t m
    rw [List.filterMap_append, List.nodup_append] at hfresh
    obtain ⟨hnodup, hcame⟩ := nodup_present hist hfresh.1
    have hs := ih hfresh.1
    cases hstep with
    | event e =>
      cases e with
      | call call =>
        have hnew : call ∉ s.results.map (·.1) := fun hmem =>
          hfresh.2.2 call (hcame call (List.mem_append_right _ hmem)) call
            (List.mem_singleton_self call) rfl
        show c ∈ s.arriving ++ [call] ++ s.gate.waiting ↔ _ ∧ c ∉ s.results.map (·.1)
        by_cases hc : c = call
        · subst hc
          have hstays : Stays (h ++ [.event (.call c)]) c := stays_snoc.mpr (.inl rfl)
          simp only [List.mem_append, List.mem_singleton, or_true, true_or, hstays, hnew,
            not_false_eq_true, and_self]
        · have hmem : c ∈ s.arriving ++ [call] ++ s.gate.waiting ↔
              c ∈ s.arriving ++ s.gate.waiting := by simp [hc]
          rw [hmem, hs, stays_snoc_of_ne (by simpa using Ne.symm hc) (by simp)]
      | cancel call =>
        show c ∈ s.arriving.filter (· ≠ call) ++ s.gate.waiting.filter (· ≠ call) ↔
          _ ∧ c ∉ s.results.map (·.1)
        rw [← List.filter_append, List.mem_filter, hs, decide_eq_true_iff]
        by_cases hc : c = call
        · subst hc
          have hleft : ¬Stays (h ++ [.event (.cancel c)]) c := by simp [stays_snoc]
          simp [hleft]
        · rw [stays_snoc_of_ne (by simp) (by simpa using Ne.symm hc)]
          simp [hc]
      | release =>
        rw [stays_snoc_of_ne (by simp) (by simp)]
        exact hs
    | @enter call before after harriving =>
      have hmem : c ∈ before ++ after ++ (s.gate.waiting ++ [call]) ↔
          c ∈ s.arriving ++ s.gate.waiting := by
        rw [harriving]
        simp only [List.mem_append, List.mem_cons, List.not_mem_nil, or_false]
        grind only
      rw [stays_snoc_of_ne (by simp) (by simp), ← hs, ← hmem]
      rfl
    | connect =>
      rw [stays_snoc_of_ne (by simp) (by simp), ← hs, (resolve_frame _ _).2.2]
    | @pass r call before after houtcome hwaiting =>
      show c ∈ s.arriving ++ (before ++ after) ↔ _ ∧ c ∉ (s.results ++ [(call, s.told r)]).map (·.1)
      -- whoever is let through was in one place only
      have hmem : c ∈ s.arriving ++ (before ++ after) ↔
          c ∈ s.arriving ++ s.gate.waiting ∧ c ≠ call := by
        have hother : call ∉ s.arriving ++ (before ++ after) := by
          have hall : (s.arriving ++ s.gate.waiting).Nodup :=
            (List.sublist_append_left _ _).nodup hnodup
          rw [hwaiting, ← List.append_assoc, List.nodup_middle, List.nodup_cons] at hall
          rw [← List.append_assoc]
          exact hall.1
        rw [hwaiting]
        constructor
        · intro hc
          refine ⟨?_, fun heq => hother (heq ▸ hc)⟩
          simp only [List.mem_append, List.mem_cons] at hc ⊢
          exact hc.imp_right fun hc => hc.imp_right .inr
        · rintro ⟨hc, hne⟩
          simp only [List.mem_append, List.mem_cons, hne, false_or] at hc ⊢
          exact hc
      rw [stays_snoc_of_ne (by simp) (by simp), hmem, hs, List.map_append, List.mem_append, not_or]
      simp only [List.map_cons, List.map_nil, List.mem_singleton]
      exact and_assoc

/-! ## Sessions that are left alone -/

theorem foldl_enter (calls : List Nat) (g : Gate Nat) :
    (calls.foldl enter g).outcome = g.outcome ∧
      (calls.foldl enter g).started = (g.started || !calls.isEmpty) ∧
      (calls.foldl enter g).waiting = g.waiting ++ calls := by
  induction calls generalizing g with
  | nil => simp
  | cons call calls ih =>
    obtain ⟨houtcome, hstarted, hwaiting⟩ := ih (g.enter call)
    rw [List.foldl_cons]
    refine ⟨houtcome, ?_, ?_⟩
    · rw [hstarted]
      simp [enter]
    · rw [hwaiting]
      simp [enter]

theorem arrive_gate (s : Session) :
    s.arrive.gate.outcome = s.gate.outcome ∧
      s.arrive.gate.started = (s.gate.started || !s.arriving.isEmpty) ∧
      s.arrive.gate.waiting = s.gate.waiting ++ s.arriving :=
  foldl_enter s.arriving s.gate

/-- The connector sets the outcome and nothing else. -/
theorem connect_frame (s : Session) (version : String) (processId : Nat) :
    (s.connect version processId).gate.waiting = s.gate.waiting ∧
      (s.connect version processId).results = s.results ∧
      (s.connect version processId).index = s.index := by
  unfold Session.connect
  split
  · exact ⟨(resolve_frame _ _).2.2, rfl, rfl⟩
  · exact ⟨rfl, rfl, rfl⟩

/-- Answers are given after the outcome and leave it alone. -/
theorem answer_outcome (s : Session) : s.answer.gate.outcome = s.gate.outcome := by
  cases houtcome : s.gate.outcome with
  | none => rw [answer_of_none houtcome, houtcome]
  | some r =>
    rw [answer_eq houtcome]
    exact houtcome

theorem connect_outcome (s : Session) (processId : Nat) :
    (s.connect Handshake.version processId).gate.outcome =
      if s.gate.outcome = none ∧ s.gate.started = true ∧
          (s.connector.held = false ∨ s.released = true) then some (s.fate processId)
      else s.gate.outcome := by
  have hready : (s.gate.isConnecting && (!s.connector.held || s.released)) = true ↔
      s.gate.outcome = none ∧ s.gate.started = true ∧
        (s.connector.held = false ∨ s.released = true) := by
    simp only [isConnecting, Bool.and_eq_true, Bool.or_eq_true, Bool.not_eq_true',
      Option.isNone_iff_eq_none, and_assoc, and_left_comm]
  unfold Session.connect
  split
  · next hconnecting =>
    have hall := hready.mp hconnecting
    rw [if_pos hall]
    show (s.gate.resolve _).outcome = _
    rw [resolve_of_none hall.1]
    rfl
  · next hconnecting => rw [if_neg fun hall => hconnecting (hready.mpr hall)]

/-- There is no outcome as long as nobody has come, or the connector is held. -/
theorem outcome_settle (s : Session) (processId : Nat) :
    (s.settle processId).gate.outcome =
      if s.gate.outcome = none ∧ (s.gate.started = true ∨ s.arriving ≠ []) ∧
          (s.connector.held = false ∨ s.released = true) then some (s.fate processId)
      else s.gate.outcome := by
  obtain ⟨houtcome, hstarted, -⟩ := arrive_gate s
  have hcame : s.arrive.gate.started = true ↔ s.gate.started = true ∨ s.arriving ≠ [] := by
    rw [hstarted, Bool.or_eq_true, Bool.not_eq_true', List.isEmpty_eq_false_iff]
  rw [settle, answer_outcome, connect_outcome, houtcome]
  simp only [hcame]
  rfl

theorem outcome_settle_eq_none (s : Session) (processId : Nat) :
    (s.settle processId).gate.outcome = none ↔
      s.gate.outcome = none ∧ ((s.gate.started = false ∧ s.arriving = []) ∨
        (s.connector.held = true ∧ s.released = false)) := by
  rw [outcome_settle]
  -- without an outcome, nobody has come, or somebody waits for a connector that is held
  by_cases hcame : s.gate.started = true ∨ s.arriving ≠ []
  · have hsome : ¬(s.gate.started = false ∧ s.arriving = []) := by
      rintro ⟨hstarted, harriving⟩
      simp [hstarted, harriving] at hcame
    by_cases hfree : s.connector.held = false ∨ s.released = true
    · have hheld : ¬(s.connector.held = true ∧ s.released = false) := by
        rintro ⟨hheld, hreleased⟩
        simp [hheld, hreleased] at hfree
      simp only [hcame, hfree, hsome, hheld, or_self, and_false, iff_false, and_self, and_true]
      split
      · exact Option.some_ne_none _
      · next houtcome => exact houtcome
    · have hheld : s.connector.held = true ∧ s.released = false := by simpa using hfree
      rw [if_neg fun hall => hfree hall.2.2]
      exact ⟨fun houtcome => ⟨houtcome, .inr hheld⟩, And.left⟩
  · have hnobody : s.gate.started = false ∧ s.arriving = [] := by simpa using hcame
    rw [if_neg fun hall => hcame hall.2.1]
    exact ⟨fun houtcome => ⟨houtcome, .inl hnobody⟩, And.left⟩

/-- Whoever has reached the gate, or is on the way to it, is answered as soon as there is an outcome. -/
theorem results_settle {s : Session} {processId : Nat} {r : Except ChannelError Unit}
    (houtcome : (s.settle processId).gate.outcome = some r) :
    (s.settle processId).results =
      s.results ++ (s.gate.waiting ++ s.arriving).map fun c => (c, s.told r) := by
  unfold settle at houtcome ⊢
  obtain ⟨hwaiting, hresults, hindex⟩ := connect_frame s.arrive Handshake.version processId
  rw [answer_outcome] at houtcome
  rw [answer_eq houtcome, ← (arrive_gate s).2.2, ← hwaiting]
  have htold : (s.arrive.connect Handshake.version processId).told r = s.told r := by
    unfold told
    rw [hindex]
    rfl
  rw [htold]
  show (s.arrive.connect Handshake.version processId).results ++ _ = _
  rw [hresults]
  rfl

/-! ## What all callers have in common -/

/-- What is known of a session after a history. -/
structure OneOutcome (index : Index) (processId : Nat) (h : List Mark) (s : Session) : Prop where
  /-- The connector is called once at most. -/
  connects : s.gate.connects ≤ 1
  follows : ∀ m t, Step processId s m t → s.gate.state.Follows t.gate.state
  /-- An outcome is final. -/
  kept : ∀ m t r, Step processId s m t → s.gate.outcome = some r → t.gate.outcome = some r
  /-- All callers who were answered have got the channel, or all of them the same error. -/
  shared :
    (s.gate.outcome = none ∧ s.results = []) ∨
    (s.gate.outcome = some (.ok ()) ∧
      ∀ p ∈ s.results, p.2 = (index.ask question).mapError .transport) ∨
    ∃ e, s.gate.outcome = some (.error e) ∧
      ∀ p ∈ s.results, p.2 = .error (.connectionUnavailable e.message)
  /-- Nobody is answered twice. -/
  once : (s.results.map (·.1)).Nodup
  /-- Those who wait are exactly those who stay and have no answer yet. -/
  waiting : ∀ c, c ∈ s.arriving ++ s.gate.waiting ↔ Stays h c ∧ c ∉ s.results.map (·.1)
  /-- Left alone, a session has an outcome unless nobody has come or the connector is held. -/
  resolved : (s.settle processId).gate.outcome = none ↔
    s.gate.outcome = none ∧ ((s.gate.started = false ∧ s.arriving = []) ∨
      (s.connector.held = true ∧ s.released = false))
  /-- Left alone, a session with an outcome has answered everyone who stays. -/
  answered : ∀ r, (s.settle processId).gate.outcome = some r →
    ∀ c, Stays h c → (c, s.told r) ∈ (s.settle processId).results

theorem shared_of_coherent {s : Session} (hs : s.Coherent index) :
    (s.gate.outcome = none ∧ s.results = []) ∨
    (s.gate.outcome = some (.ok ()) ∧
      ∀ p ∈ s.results, p.2 = (index.ask question).mapError .transport) ∨
    ∃ e, s.gate.outcome = some (.error e) ∧
      ∀ p ∈ s.results, p.2 = .error (.connectionUnavailable e.message) := by
  -- whoever has a result was told the outcome
  have htold : ∀ r, s.gate.outcome = some r → ∀ p ∈ s.results, p.2 = s.told r := by
    intro r houtcome p hp
    obtain ⟨r', hr', hp⟩ := hs.results p hp
    rw [houtcome] at hr'
    cases hr'
    exact hp
  cases houtcome : s.gate.outcome with
  | none =>
    refine .inl ⟨rfl, List.eq_nil_iff_forall_not_mem.mpr fun p hp => ?_⟩
    obtain ⟨r, hr, -⟩ := hs.results p hp
    rw [houtcome] at hr
    cases hr
  | some r =>
    cases r with
    | ok _ =>
      refine .inr (.inl ⟨rfl, fun p hp => ?_⟩)
      rw [htold _ houtcome p hp, ← hs.index]
      rfl
    | error e => exact .inr (.inr ⟨e, rfl, htold _ houtcome⟩)

/-- Once there is an outcome, every call that stays has its answer. -/
theorem answered_settle {h : List Mark} {s : Session} (hist : History connector index processId h s)
    (hfresh : (h.filterMap Mark.call?).Nodup) {r : Except ChannelError Unit}
    (houtcome : (s.settle processId).gate.outcome = some r) {c : Nat} (hstays : Stays h c) :
    (c, s.told r) ∈ (s.settle processId).results := by
  rw [results_settle houtcome, List.mem_append]
  by_cases hanswered : c ∈ s.results.map (·.1)
  · -- who was answered before has got the same
    obtain ⟨⟨c', a⟩, hp, rfl⟩ := List.mem_map.mp hanswered
    obtain ⟨r', hr', ha⟩ := (coherent_history hist).results _ hp
    have hsame : r' = r := by
      rw [outcome_settle, if_neg fun hall => by simp [hall.1] at hr', hr'] at houtcome
      exact Option.some.inj houtcome
    rw [hsame] at ha
    exact .inl (ha ▸ hp)
  · refine .inr (List.mem_map.mpr ⟨c, ?_, rfl⟩)
    have hwaits := (waiting_iff hist hfresh c).mpr ⟨hstays, hanswered⟩
    exact List.mem_append.mpr (List.mem_append.mp hwaits).symm

/-- Whatever happens at a gate, in whatever order and as long as callers are told apart: the connector is
called once at most, its outcome is final, and all callers who are answered learn this outcome. Once there
is an outcome, nobody who stays goes without an answer. -/
theorem outcome_shared (connector : Connector) (index : Index) (processId : Nat) (turns : List Turn)
    (hcalls : ((turns.filterMap Turn.event?).filterMap Event.call?).Nodup) :
    (∃ h, h.filterMap Mark.event? = turns.filterMap Turn.event? ∧
        History connector index processId h (run connector index processId turns)) ∧
      ∀ h s, h.filterMap Mark.event? = turns.filterMap Turn.event? →
        History connector index processId h s → OneOutcome index processId h s := by
  refine ⟨history_turns turns, fun h s hevents hist => ?_⟩
  have hfresh : (h.filterMap Mark.call?).Nodup := by
    rw [← hevents, List.filterMap_filterMap] at hcalls
    exact hcalls
  -- what the history keeps is all that the parts need
  have hs := coherent_history hist
  exact {
    connects := by
      rw [hs.connects]
      split <;> omega
    follows := fun _ _ hstep => follows_step hstep
    kept := fun _ _ _ hstep houtcome => outcome_step hstep houtcome
    shared := shared_of_coherent hs
    once := (List.sublist_append_right _ _).nodup (nodup_present hist hfresh).1
    waiting := waiting_iff hist hfresh
    resolved := outcome_settle_eq_none s processId
    answered := fun _ houtcome _ hstays => answered_settle hist hfresh houtcome hstays }

/-- The caller who started the connector leaves, one waits, one comes late, and the connector fails. -/
theorem outcome_shared_after_cancel :
    let connector : Connector := ⟨true, .fails (.io "connection refused")⟩
    let turns : List Turn :=
      [.event (.call 0), .rest, .event (.cancel 0), .event (.call 1), .rest, .event .release, .rest,
        .event (.call 2), .rest]
    ((turns.filterMap Turn.event?).filterMap Event.call?).Nodup ∧
      (run connector (.constant .null) 0 turns).gate.connects ≤ 1 ∧
      (run connector (.constant .null) 0 turns).results.map (·.1) = [1, 2] := by
  intro connector turns
  have hcalls : ((turns.filterMap Turn.event?).filterMap Event.call?).Nodup := by
    show [0, 1, 2].Nodup
    decide
  obtain ⟨⟨h, hevents, hist⟩, hall⟩ := outcome_shared connector (.constant .null) 0 turns hcalls
  exact ⟨hcalls, (hall h _ hevents hist).connects, by decide⟩

end Session

end Gate

end IndexFs

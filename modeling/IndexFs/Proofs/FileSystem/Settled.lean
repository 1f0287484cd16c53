import IndexFs.Proofs.FileSystem.Calm
import IndexFs.Proofs.FileSystem.Session
import Mathlib.Data.List.Induction

/-!
# Sessions at rest

Whoever is owed a result on the link is expected to get one: the introduction while the session introduces
itself, its confirmation after that, and reads once the connection is made (`Coherent`). So a session that
has settled has nothing left to do, and settling it again changes nothing (`settle_of_settled`,
`settled_settle`).
-/

namespace IndexFs.FileSystem

/-- Whose result carries the handshake on. -/
def Stage.caller? : Stage → Option Caller
  | .introducing => some .introduction
  | .confirming => some .confirmation
  | _ => none

theorem Stage.handshake_of_caller {stage : Stage} {caller : Caller} (h : stage.caller? = some caller) :
    caller = .introduction ∨ caller = .confirmation := by
  cases stage with
  | introducing => exact .inl (Option.some.inj h).symm
  | confirming => exact .inr (Option.some.inj h).symm
  | _ => cases h

namespace Session

/-! ## Who is expected -/

/-- Whether a caller may get a result now. -/
def Expects (s : Session) : Caller → Prop
  | .introduction => s.stage = .introducing
  | .confirmation => s.stage = .confirming
  | .read _ => s.gate.outcome = some (.ok ())

/-- How many results a caller can still get, with the given ones that the session has not heard yet. -/
def due (s : Session) (rs : List (Caller × Channel.Result)) (caller : Caller) : Nat :=
  rs.countP (fun r => r.1 = caller) + s.link.owed caller

/-- A session that is about to hear the given results. -/
structure Coherent (s : Session) (rs : List (Caller × Channel.Result)) : Prop where
  sound : s.link.Sound
  expected : ∀ caller, 0 < s.due rs caller → s.Expects caller
  once : ∀ caller, caller = .introduction ∨ caller = .confirmation → s.due rs caller ≤ 1
  finished : s.gate.outcome.isSome = true ↔ s.stage = .finished

namespace Coherent

variable {s : Session} {rs : List (Caller × Channel.Result)}

theorem outcome_of_stage (h : s.Coherent rs) (hstage : s.stage ≠ .finished) : s.gate.outcome = none := by
  cases houtcome : s.gate.outcome with
  | none => rfl
  | some r => exact absurd (h.finished.mp (by rw [houtcome]; rfl)) hstage

/-- Who is not expected is owed nothing. -/
theorem due_eq_zero (h : s.Coherent rs) {caller : Caller} (hcaller : ¬s.Expects caller) :
    s.due rs caller = 0 := by
  by_contra hdue
  exact hcaller (h.expected caller (Nat.pos_of_ne_zero hdue))

/-- As long as the handshake goes on, nobody else is expected. -/
theorem caller_of_expects (h : s.Coherent rs) (hstage : s.stage ≠ .finished) {caller : Caller}
    (hexpects : s.Expects caller) : s.stage.caller? = some caller := by
  cases caller with
  | introduction =>
    rw [show s.stage = .introducing from hexpects]
    rfl
  | confirmation =>
    rw [show s.stage = .confirming from hexpects]
    rfl
  | read call =>
    rw [Expects, h.outcome_of_stage hstage] at hexpects
    cases hexpects

/-- The first of the results is for someone who is expected, and there is one less to come. -/
theorem head {caller : Caller} {reply : Channel.Result} (h : s.Coherent ((caller, reply) :: rs)) :
    s.Expects caller ∧ s.due ((caller, reply) :: rs) caller = s.due rs caller + 1 := by
  have hdue : s.due ((caller, reply) :: rs) caller = s.due rs caller + 1 := by
    unfold due
    rw [List.countP_cons_of_pos (by simp)]
    omega
  exact ⟨h.expected caller (by omega), hdue⟩

theorem due_tail (s : Session) (r : Caller × Channel.Result) (rs : List (Caller × Channel.Result))
    (caller : Caller) : s.due rs caller ≤ s.due (r :: rs) caller :=
  Nat.add_le_add_right (List.sublist_cons_self r rs).countP_le _

theorem tail {r : Caller × Channel.Result} (h : s.Coherent (r :: rs)) : s.Coherent rs where
  sound := h.sound
  expected caller hdue := h.expected caller (Nat.lt_of_lt_of_le hdue (due_tail s r rs caller))
  once caller hcaller := Nat.le_trans (due_tail s r rs caller) (h.once caller hcaller)
  finished := h.finished

/-- A result of the handshake is the only one that is due. -/
theorem nothing_due {caller : Caller} {reply : Channel.Result} (h : s.Coherent ((caller, reply) :: rs))
    (hstage : s.stage ≠ .finished) (c : Caller) : s.due rs c = 0 := by
  obtain ⟨hexpects, hdue⟩ := h.head
  have hcaller := h.caller_of_expects hstage hexpects
  by_cases hsame : c = caller
  · have honce := h.once caller (Stage.handshake_of_caller hcaller)
    rw [hsame]
    omega
  · refine h.tail.due_eq_zero fun hexpects' => hsame ?_
    exact Option.some.inj ((h.caller_of_expects hstage hexpects').symm.trans hcaller)

end Coherent

/-- Only the link, the stage and the outcome matter. -/
theorem coherent_congr {s t : Session} {rs : List (Caller × Channel.Result)} (h : s.Coherent rs)
    (hlink : t.link = s.link) (hstage : t.stage = s.stage) (houtcome : t.gate.outcome = s.gate.outcome) :
    t.Coherent rs := by
  have hdue : ∀ caller, t.due rs caller = s.due rs caller := by
    intro caller
    unfold due
    rw [hlink]
  refine ⟨hlink ▸ h.sound, fun caller hpos => ?_, fun caller hcaller => ?_, ?_⟩
  · rw [hdue] at hpos
    have hexpects := h.expected caller hpos
    cases caller with
    | introduction => exact hstage.trans hexpects
    | confirmation => exact hstage.trans hexpects
    | read call => exact houtcome.trans hexpects
  · rw [hdue]
    exact h.once caller hcaller
  · rw [houtcome, hstage]
    exact h.finished

theorem coherent_new {link : Link Caller} (hlink : link.Fresh) (connector : Connector) (flag : Bool)
    (processId : Nat) : (Session.new connector link flag processId).Coherent [] := by
  have howed : ∀ caller, link.owed caller = 0 := by
    intro caller
    cases hlink <;> rfl
  have hdue : ∀ caller, (Session.new connector link flag processId).due [] caller = 0 := by
    intro caller
    unfold due
    rw [List.countP_nil, Nat.zero_add]
    exact howed caller
  refine ⟨Link.sound_of_calm (Link.calm_of_fresh hlink), fun caller hpos => ?_, fun caller _ => ?_, ?_⟩
  · rw [hdue] at hpos
    cases hpos
  · rw [hdue]
    exact Nat.zero_le 1
  · constructor <;> intro h <;> cases h

theorem coherent_occur {s : Session} (h : s.Coherent []) (e : Event) : (s.occur e).Coherent [] := by
  cases e with
  | cancel call =>
    have hcancel : (s.withLink (s.link.cancel (.read call))).Coherent [] := by
      have hle : ∀ caller, (s.withLink (s.link.cancel (.read call))).due [] caller ≤ s.due [] caller :=
        fun caller => Nat.add_le_add_left (Link.owed_cancel _ _ caller) _
      exact {
        sound := Link.sound_cancel h.sound _
        expected := fun caller hpos => h.expected caller (Nat.lt_of_lt_of_le hpos (hle caller))
        once := fun caller hcaller => Nat.le_trans (hle caller) (h.once caller hcaller)
        finished := h.finished }
    exact coherent_congr hcancel rfl rfl rfl
  | _ => exact coherent_congr h rfl rfl rfl

/-- One who is expected makes a call on the link, and nobody else is owed more for it. -/
theorem coherent_call {s t : Session} {rs : List (Caller × Channel.Result)} (h : s.Coherent rs)
    (caller : Caller) (hsound : t.link.Sound)
    (howed : ∀ c, t.link.owed c ≤ s.link.owed c + if caller = c then 1 else 0)
    (hcaller : t.Expects caller)
    (hfirst : caller = .introduction ∨ caller = .confirmation → s.due rs caller = 0)
    (hothers : ∀ c, 0 < s.due rs c → t.Expects c)
    (hfinished : t.gate.outcome.isSome = true ↔ t.stage = .finished) : t.Coherent rs := by
  -- the new call is owed one result more than before, and no other call is owed more
  have hdue : ∀ c, t.due rs c ≤ s.due rs c + if caller = c then 1 else 0 := by
    intro c
    have := howed c
    unfold due
    omega
  refine ⟨hsound, fun c hpos => ?_, fun c hc => ?_, hfinished⟩
  · by_cases hsame : caller = c
    · exact hsame ▸ hcaller
    · have hle := hdue c
      rw [if_neg hsame] at hle
      exact hothers c (Nat.lt_of_lt_of_le hpos hle)
  · have hle := hdue c
    by_cases hsame : caller = c
    · subst hsame
      rw [if_pos rfl, hfirst hc] at hle
      exact hle
    · rw [if_neg hsame] at hle
      exact Nat.le_trans hle (h.once c hc)

/-! ## Making the connection -/

/-- The handshake goes on when nothing is due. -/
theorem coherent_greet {s t : Session} {rs : List (Caller × Channel.Result)} (h : s.Coherent rs)
    (hstage : s.stage ≠ .finished) (hdue : ∀ c, s.due rs c = 0) (caller : Caller)
    (hsound : t.link.Sound) (howed : ∀ c, t.link.owed c ≤ s.link.owed c + if caller = c then 1 else 0)
    (hcaller : t.Expects caller) (houtcome : t.gate.outcome = s.gate.outcome)
    (hunfinished : t.stage ≠ .finished) : t.Coherent rs := by
  refine coherent_call h caller hsound howed hcaller (fun _ => hdue caller) (fun c hpos => ?_) ?_
  · rw [hdue] at hpos
    cases hpos
  · rw [houtcome, h.outcome_of_stage hstage]
    exact ⟨nofun, fun hfinished => absurd hfinished hunfinished⟩

/-- The handshake ends when nothing is due. -/
theorem coherent_resolve {s : Session} {rs : List (Caller × Channel.Result)} (h : s.Coherent rs)
    (hstage : s.stage ≠ .finished) (hdue : ∀ c, s.due rs c = 0) (r : Except ChannelError Unit) :
    (s.resolve r).Coherent rs := by
  refine ⟨h.sound, fun caller hpos => ?_, h.once, ?_⟩
  · have hsame : (s.resolve r).due rs caller = s.due rs caller := rfl
    rw [hsame, hdue] at hpos
    cases hpos
  · simp only [resolve, Gate.resolve, h.outcome_of_stage hstage, Option.isSome_some]

/-- Whether the connector can run. -/
def canConnect (s : Session) : Bool :=
  s.stage = .unopened && s.gate.started && (!s.connector.held || s.released)

theorem connect_of_false {s : Session} (h : s.canConnect = false) : s.connect = s :=
  if_neg (Bool.eq_false_iff.mp h)

theorem connect_of_true {s : Session} (h : s.canConnect = true) : s.connect = s.openChannel :=
  if_pos h

theorem stage_of_canConnect {s : Session} (h : s.canConnect = true) : s.stage = .unopened := by
  unfold canConnect at h
  rw [Bool.and_eq_true, Bool.and_eq_true, decide_eq_true_eq] at h
  exact h.1.1

theorem coherent_openChannel {s : Session} (h : s.Coherent []) (hstage : s.stage = .unopened) :
    s.openChannel.Coherent [] ∧ s.openChannel.stage ≠ .unopened := by
  have hunfinished : s.stage ≠ .finished := by
    rw [hstage]
    decide
  -- nothing was asked yet, so that nobody is owed an answer
  have hdue : ∀ c, s.due [] c = 0 := by
    refine fun c => h.due_eq_zero fun hexpects => ?_
    have hcaller := h.caller_of_expects hunfinished hexpects
    rw [hstage] at hcaller
    cases hcaller
  -- either there is an outcome at once, or the introduction is sent
  rcases openChannel_cases s with ⟨metrics, r, hopen⟩ | ⟨name, hopen⟩
  · rw [hopen]
    have hcounted : { s with metrics := metrics }.Coherent [] := coherent_congr h rfl rfl rfl
    exact ⟨coherent_resolve hcounted hunfinished hdue r, show Stage.finished ≠ .unopened by decide⟩
  · rw [hopen]
    refine ⟨coherent_greet h hunfinished hdue .introduction ?_ ?_ rfl rfl ?_, ?_⟩
    · exact Link.sound_request h.sound _ _ _
    · exact Link.owed_request s.link _ _ _
    · show Stage.introducing ≠ .finished
      decide
    · show Stage.introducing ≠ .unopened
      decide

theorem coherent_connect {s : Session} (h : s.Coherent []) :
    s.connect.Coherent [] ∧ s.connect.canConnect = false := by
  cases hready : s.canConnect with
  | false =>
    rw [connect_of_false hready]
    exact ⟨h, hready⟩
  | true =>
    rw [connect_of_true hready]
    obtain ⟨hcoherent, hopened⟩ := coherent_openChannel h (stage_of_canConnect hready)
    refine ⟨hcoherent, ?_⟩
    unfold canConnect
    rw [decide_eq_false hopened]
    rfl

/-! ## Results -/

theorem resolve_gate (s : Session) (r : Except ChannelError Unit) :
    (s.resolve r).gate.started = s.gate.started ∧ (s.resolve r).gate.waiting = s.gate.waiting := by
  unfold resolve Gate.resolve
  split <;> exact ⟨rfl, rfl⟩

/-- What the connector looks at has not changed. -/
structure Stays (s t : Session) : Prop where
  connector : t.connector = s.connector
  released : t.released = s.released
  started : t.gate.started = s.gate.started
  opened : t.stage = .unopened → s.stage = .unopened

theorem Stays.refl (s : Session) : s.Stays s :=
  ⟨rfl, rfl, rfl, id⟩

theorem Stays.trans {s t u : Session} (h : s.Stays t) (h' : t.Stays u) : s.Stays u where
  connector := h'.connector.trans h.connector
  released := h'.released.trans h.released
  started := h'.started.trans h.started
  opened := h.opened ∘ h'.opened

theorem Stays.canConnect {s t : Session} (h : s.Stays t) (hready : s.canConnect = false) :
    t.canConnect = false := by
  rw [Bool.eq_false_iff] at hready ⊢
  intro ht
  apply hready
  unfold Session.canConnect at ht ⊢
  rw [h.connector, h.released, h.started, Bool.and_eq_true, Bool.and_eq_true, decide_eq_true_eq] at ht
  rw [Bool.and_eq_true, Bool.and_eq_true, decide_eq_true_eq]
  exact ⟨⟨h.opened ht.1.1, ht.1.2⟩, ht.2⟩

theorem coherent_hear {s : Session} {caller : Caller} {reply : Channel.Result}
    {rs : List (Caller × Channel.Result)} (h : s.Coherent ((caller, reply) :: rs)) :
    (s.hear caller reply).Coherent rs := by
  cases caller with
  | introduction =>
    -- the session is where the answer finds it, which is not at the end
    have hunfinished : s.stage ≠ .finished := by
      rw [show s.stage = .introducing from h.head.1]
      decide
    have hdue := h.nothing_due hunfinished
    unfold hear
    cases Handshake.accept reply with
    | error e =>
      have hcount : (s.count (·.countResult reply)).Coherent rs := coherent_congr h.tail rfl rfl rfl
      exact coherent_resolve hcount hunfinished hdue _
    | ok i =>
      refine coherent_greet h.tail hunfinished hdue .confirmation ?_ ?_ rfl rfl ?_
      · exact Link.sound_notify h.sound _ _ _
      · exact Link.owed_notify s.link _ _ _
      · show Stage.confirming ≠ .finished
        decide
  | confirmation =>
    have hunfinished : s.stage ≠ .finished := by
      rw [show s.stage = .confirming from h.head.1]
      decide
    exact coherent_resolve h.tail hunfinished (h.nothing_due hunfinished) _
  | read call =>
    -- what is heard of a read does not move the opening
    cases hlookup : s.reads.lookup call with
    | none =>
      rw [hear_read_of_none hlookup]
      exact h.tail
    | some r =>
      rw [hear_read_of_some hlookup]
      exact coherent_congr h.tail rfl rfl rfl

/-- Unless it introduces itself, a session asks for nothing when it hears a result. -/
theorem hear_link {s : Session} {caller : Caller} (hstage : s.stage ≠ .introducing)
    (hexpects : s.Expects caller) (reply : Channel.Result) :
    (s.hear caller reply).link = s.link ∧ (s.hear caller reply).stage ≠ .introducing := by
  cases caller with
  | introduction => exact absurd hexpects hstage
  | confirmation => exact ⟨rfl, nofun⟩
  | read call =>
    cases hlookup : s.reads.lookup call with
    | none =>
      rw [hear_read_of_none hlookup]
      exact ⟨rfl, hstage⟩
    | some r =>
      rw [hear_read_of_some hlookup]
      exact ⟨rfl, hstage⟩

theorem hear_stays {s : Session} {caller : Caller} (hexpects : s.Expects caller)
    (reply : Channel.Result) :
    s.Stays (s.hear caller reply) ∧ (s.hear caller reply).gate.waiting = s.gate.waiting := by
  cases caller with
  | introduction =>
    unfold hear
    cases Handshake.accept reply with
    | error e =>
      -- the outcome takes nobody off those that wait
      obtain ⟨hstarted, hwaiting⟩ := resolve_gate (s.count (·.countResult reply)) (.error e)
      exact ⟨⟨rfl, rfl, hstarted, nofun⟩, hwaiting⟩
    | ok i => exact ⟨⟨rfl, rfl, rfl, nofun⟩, rfl⟩
  | confirmation =>
    obtain ⟨hstarted, hwaiting⟩ := resolve_gate s (reply.map fun _ => ())
    exact ⟨⟨rfl, rfl, hstarted, nofun⟩, hwaiting⟩
  | read call =>
    cases hlookup : s.reads.lookup call with
    | none =>
      rw [hear_read_of_none hlookup]
      exact ⟨.refl s, rfl⟩
    | some r =>
      rw [hear_read_of_some hlookup]
      exact ⟨⟨rfl, rfl, rfl, id⟩, rfl⟩

/-- A session hears the results one after the other. -/
def hearAll (s : Session) (rs : List (Caller × Channel.Result)) : Session :=
  rs.foldl (fun s r => s.hear r.1 r.2) s

theorem coherent_hearAll {s : Session} {rs : List (Caller × Channel.Result)} (h : s.Coherent rs) :
    (s.hearAll rs).Coherent [] ∧ s.Stays (s.hearAll rs) ∧
      (s.hearAll rs).gate.waiting = s.gate.waiting := by
  induction rs generalizing s with
  | nil => exact ⟨h, .refl s, rfl⟩
  | cons r rs ih =>
    obtain ⟨hstays, hwaiting⟩ := hear_stays h.head.1 r.2
    obtain ⟨hcoherent, hstays', hwaiting'⟩ := ih (coherent_hear h)
    exact ⟨hcoherent, hstays.trans hstays', hwaiting'.trans hwaiting⟩

theorem hearAll_link {s : Session} {rs : List (Caller × Channel.Result)} (h : s.Coherent rs)
    (hstage : s.stage ≠ .introducing) :
    (s.hearAll rs).link = s.link ∧ (s.hearAll rs).stage ≠ .introducing := by
  induction rs generalizing s with
  | nil => exact ⟨rfl, hstage⟩
  | cons r rs ih =>
    obtain ⟨hlink, hstage'⟩ := hear_link hstage h.head.1 r.2
    obtain ⟨hlink', hstage''⟩ := ih (coherent_hear h) hstage'
    exact ⟨hlink'.trans hlink, hstage''⟩

/-- While a session introduces itself, nobody else is owed anything. -/
theorem Coherent.of_introducing {s : Session} {r : Caller × Channel.Result}
    {rs : List (Caller × Channel.Result)} (h : s.Coherent (r :: rs)) (hstage : s.stage = .introducing) :
    r.1 = .introduction ∧ rs = [] := by
  have hunfinished : s.stage ≠ .finished := by
    rw [hstage]
    decide
  have hcaller := h.caller_of_expects hunfinished h.head.1
  rw [hstage] at hcaller
  refine ⟨(Option.some.inj hcaller).symm, ?_⟩
  cases rs with
  | nil => rfl
  | cons r' rs =>
    -- a second result would be one too many for the handshake
    have hdue := h.nothing_due hunfinished r'.1
    rw [h.tail.head.2] at hdue
    cases hdue

theorem hearAll_calm {s : Session} {rs : List (Caller × Channel.Result)} (h : s.Coherent rs)
    (hcalm : s.link.Calm) : (s.hearAll rs).link.Calm ∨ (s.hearAll rs).stage = .confirming := by
  by_cases hstage : s.stage = .introducing
  · cases rs with
    | nil => exact .inl hcalm
    | cons r rs =>
      obtain ⟨caller, reply⟩ := r
      -- only the answer to the introduction makes a session say something more
      obtain ⟨hcaller, rfl⟩ := h.of_introducing hstage
      cases hcaller
      show (s.hear .introduction reply).link.Calm ∨ (s.hear .introduction reply).stage = .confirming
      unfold hear
      cases Handshake.accept reply with
      | error e => exact .inl hcalm
      | ok i => exact .inr rfl
  · rw [(hearAll_link h hstage).1]
    exact .inl hcalm

/-! ## Exchanges -/

theorem exchange_eq_hearAll (s : Session) :
    s.exchange = (s.withLink s.link.settle.collect.1).hearAll s.link.settle.collect.2 :=
  rfl

/-- What the link has settled is about to be heard. -/
theorem coherent_collected {s : Session} (h : s.Coherent []) :
    (s.withLink s.link.settle.collect.1).Coherent s.link.settle.collect.2 := by
  have hdue : ∀ caller,
      (s.withLink s.link.settle.collect.1).due s.link.settle.collect.2 caller ≤ s.due [] caller := by
    intro caller
    unfold due
    rw [List.countP_nil, Nat.zero_add]
    exact Link.owed_settle h.sound caller
  have hexpected : ∀ caller,
      0 < (s.withLink s.link.settle.collect.1).due s.link.settle.collect.2 caller →
        (s.withLink s.link.settle.collect.1).Expects caller := by
    intro caller hpos
    have hexpects := h.expected caller (Nat.lt_of_lt_of_le hpos (hdue caller))
    cases caller <;> exact hexpects
  exact {
    sound := Link.sound_of_calm (Link.calm_settle h.sound)
    expected := hexpected
    once := fun caller hcaller => Nat.le_trans (hdue caller) (h.once caller hcaller)
    finished := h.finished }

theorem coherent_exchange {s : Session} (h : s.Coherent []) :
    s.exchange.Coherent [] ∧ s.Stays s.exchange ∧ s.exchange.gate.waiting = s.gate.waiting := by
  have hcollected : s.Stays (s.withLink s.link.settle.collect.1) := ⟨rfl, rfl, rfl, id⟩
  obtain ⟨hcoherent, hstays, hwaiting⟩ := coherent_hearAll (coherent_collected h)
  rw [exchange_eq_hearAll]
  exact ⟨hcoherent, hcollected.trans hstays, hwaiting⟩

theorem exchange_of_calm {s : Session} (hcalm : s.link.Calm) : s.exchange = s := by
  rw [exchange_eq (Link.settle_of_calm hcalm)]
  rfl

/-- An exchange leaves nothing on its way, unless the session has just confirmed its introduction. -/
theorem exchange_calm {s : Session} (h : s.Coherent []) :
    s.exchange.link.Calm ∨ s.exchange.stage = .confirming := by
  rw [exchange_eq_hearAll]
  exact hearAll_calm (coherent_collected h) (Link.calm_settle h.sound)

theorem exchange_calm_of_introduced {s : Session} (h : s.Coherent []) (hstage : s.stage ≠ .introducing) :
    s.exchange.link.Calm := by
  rw [exchange_eq_hearAll, (hearAll_link (coherent_collected h) hstage).1]
  exact Link.calm_settle h.sound

/-- Two exchanges leave nothing on its way. -/
theorem exchange_exchange_calm {s : Session} (h : s.Coherent []) : s.exchange.exchange.link.Calm := by
  rcases exchange_calm h with hcalm | hstage
  · rw [exchange_of_calm hcalm]
    exact hcalm
  · refine exchange_calm_of_introduced (coherent_exchange h).1 ?_
    rw [hstage]
    decide

/-! ## Reads at the gate -/

/-- A session lets reads through one after the other. -/
def proceedAll (s : Session) (admitted : List (Nat × Except FsError Unit)) : Session :=
  admitted.foldl (fun s a => s.proceed a.1 a.2) s

theorem proceed_stays (s : Session) (call : Nat) (verdict : Except FsError Unit) :
    s.Stays (s.proceed call verdict) ∧ (s.proceed call verdict).gate = s.gate := by
  cases hlookup : s.reads.lookup call with
  | none =>
    rw [proceed_of_none hlookup]
    exact ⟨.refl s, rfl⟩
  | some r =>
    cases verdict with
    | ok _ =>
      rw [proceed_of_ok hlookup]
      exact ⟨⟨rfl, rfl, rfl, id⟩, rfl⟩
    | error e =>
      rw [proceed_of_error hlookup]
      exact ⟨⟨rfl, rfl, rfl, id⟩, rfl⟩

theorem coherent_proceed {s : Session} (h : s.Coherent []) {r : Except ChannelError Unit}
    (houtcome : s.gate.outcome = some r) (call : Nat) :
    (s.proceed call (Gate.verdict r)).Coherent [] := by
  cases hlookup : s.reads.lookup call with
  | none =>
    rw [proceed_of_none hlookup]
    exact h
  | some read =>
    cases r with
    | ok _ =>
      show (s.proceed call (.ok ())).Coherent []
      rw [proceed_of_ok hlookup]
      -- the gate is open, so that the question of a read is expected
      refine coherent_call h (.read call) ?_ ?_ houtcome (fun hc => by simp at hc) ?_ h.finished
      · exact Link.sound_request h.sound _ _ _
      · exact Link.owed_request s.link _ _ _
      · intro c hpos
        have hexpects := h.expected c hpos
        cases c <;> exact hexpects
    | error e =>
      show (s.proceed call (.error _)).Coherent []
      rw [proceed_of_error hlookup]
      exact coherent_congr h rfl rfl rfl

theorem coherent_proceedAll {s : Session} (h : s.Coherent []) {r : Except ChannelError Unit}
    (houtcome : s.gate.outcome = some r) (calls : List Nat) :
    let t := s.proceedAll (calls.map fun c => (c, Gate.verdict r))
    t.Coherent [] ∧ s.Stays t ∧ t.gate = s.gate := by
  induction calls generalizing s with
  | nil => exact ⟨h, .refl s, rfl⟩
  | cons call calls ih =>
    obtain ⟨hstays, hgate⟩ := proceed_stays s call (Gate.verdict r)
    obtain ⟨hcoherent, hstays', hgate'⟩ := ih (coherent_proceed h houtcome call) (by rw [hgate, houtcome])
    exact ⟨hcoherent, hstays.trans hstays', hgate'.trans hgate⟩

/-- Behind the gate nobody waits any more. -/
theorem coherent_letThrough {s : Session} (h : s.Coherent []) {r : Except ChannelError Unit}
    (houtcome : s.gate.outcome = some r) :
    s.letThrough.Coherent [] ∧ s.Stays s.letThrough ∧
      s.letThrough.gate.outcome = some r ∧ s.letThrough.gate.waiting = [] := by
  have hemptied : s.emptied.Coherent [] := coherent_congr h rfl rfl rfl
  have hsame : s.Stays s.emptied := ⟨rfl, rfl, rfl, id⟩
  obtain ⟨hcoherent, hstays, hgate⟩ := coherent_proceedAll hemptied houtcome s.gate.waiting
  rw [letThrough_of_some houtcome]
  refine ⟨hcoherent, hsame.trans hstays, ?_, ?_⟩
  · exact (congrArg Gate.outcome hgate).trans houtcome
  · exact congrArg Gate.waiting hgate

/-! ## Settling -/

/-- A session with nothing left to do. -/
structure Settled (s : Session) : Prop where
  calm : s.link.Calm
  connected : s.canConnect = false
  passed : s.gate.outcome = none ∨ s.gate.waiting = []

theorem letThrough_of_settled {s : Session} (h : s.Settled) : s.letThrough = s := by
  rcases h.passed with houtcome | hwaiting
  · exact letThrough_of_none houtcome
  · cases houtcome : s.gate.outcome with
    | none => exact letThrough_of_none houtcome
    | some r =>
      rw [letThrough_of_some houtcome, hwaiting]
      show { s with gate := { s.gate with waiting := [] } } = s
      rw [← hwaiting]

/-- A session with nothing left to do stays as it is. -/
theorem settle_of_settled {s : Session} (h : s.Settled) : s.settle = s := by
  unfold settle
  rw [connect_of_false h.connected, exchange_of_calm h.calm, exchange_of_calm h.calm,
    letThrough_of_settled h, exchange_of_calm h.calm]

/-- A session that is left alone comes to rest. -/
theorem settled_settle {s : Session} (h : s.Coherent []) : s.settle.Coherent [] ∧ s.settle.Settled := by
  obtain ⟨hconnect, hready⟩ := coherent_connect h
  obtain ⟨hfirst, hstays, -⟩ := coherent_exchange hconnect
  obtain ⟨hsecond, hstays', -⟩ := coherent_exchange hfirst
  have hcalm := exchange_exchange_calm hconnect
  have hready' := (hstays.trans hstays').canConnect hready
  unfold settle
  cases houtcome : s.connect.exchange.exchange.gate.outcome with
  | none =>
    -- the gate stays closed, and nothing more is asked
    rw [letThrough_of_none houtcome, exchange_of_calm hcalm]
    exact ⟨hsecond, hcalm, hready', .inl houtcome⟩
  | some r =>
    -- everyone goes through, and what they ask is answered by the last exchange
    obtain ⟨hpassed, hpassing, houtcome', hwaiting⟩ := coherent_letThrough hsecond houtcome
    have hfinished : s.connect.exchange.exchange.letThrough.stage = .finished :=
      hpassed.finished.mp (by rw [houtcome']; rfl)
    obtain ⟨hlast, hanswered, hwaiting'⟩ := coherent_exchange hpassed
    have hcalm' := exchange_calm_of_introduced hpassed (by rw [hfinished]; decide)
    refine ⟨hlast, hcalm', (hpassing.trans hanswered).canConnect hready', .inr ?_⟩
    exact hwaiting'.trans hwaiting

/-- A session that starts on a fresh link is at rest between two events. -/
theorem settled_run {link : Link Caller} (hlink : link.Fresh) (connector : Connector) (flag : Bool)
    (processId : Nat) (events : List Event) :
    let s := events.foldl apply (.new connector link flag processId)
    s.Coherent [] ∧ s.Settled := by
  induction events using List.reverseRecOn with
  | nil =>
    refine ⟨coherent_new hlink connector flag processId, Link.calm_of_fresh hlink, ?_, .inl rfl⟩
    exact Bool.and_eq_false_iff.mpr (.inl rfl)
  | append_singleton events e ih =>
    simp only [List.foldl_append, List.foldl_cons, List.foldl_nil]
    exact settled_settle (coherent_occur ih.1 e)

end Session

end IndexFs.FileSystem

import IndexFs.Proofs.Channel.Others
import IndexFs.Proofs.FileSystem.Link
import IndexFs.Proofs.FileSystem.Session

/-!
# Index at hand or behind a connection

A file system behaves the same whether its index is at hand or behind a connection: after every event the
same calls have ended with the same results, and the gate has the same state (`framed_eq_direct`). Between
two events nothing is under way, so both sessions agree in everything but the link itself (`Along`).
-/

namespace IndexFs.FileSystem.Session

open Link (Query Passable)

/-- The request of a read. -/
def question (call : Nat) (r : Read) : Query Caller :=
  ⟨.read call, r.method.name, r.params⟩

/-- The request with which a client introduces itself. -/
def introduction (name : String) (processId : Nat) : Query Caller :=
  ⟨.introduction, Handshake.requestMethod, Handshake.params ⟨name, Handshake.version, processId⟩⟩

/-- What makes a server answer each of its requests, with ids up to the given one: every reply is a value or
an error of the index, the introduction fits into a frame, and its confirmation is not refused. -/
structure Carries (index : Index) (connector : Connector) (processId most : Nat) : Prop where
  ids : (most : Int) ≤ Number.maxSigned
  replies : ∀ message, ∃ r, index message = .answer r ∧ Passable most r
  process : processId < UInt32.size
  introduction : ∀ name, connector.fate = .opens (some name) →
    ∀ id ≤ most, (Message.request id Handshake.requestMethod
      (Handshake.params ⟨name, Handshake.version, processId⟩)).bytes.length ≤ Frame.maxBody
  confirmation : ∀ name, connector.fate = .opens (some name) →
    ∃ v, index Handshake.notification = .answer (.ok v)

/-- A read whose request fits into a frame, so that a server can take it. -/
def Travels (most : Nat) (r : Read) : Prop :=
  ∀ id ≤ most, (Message.request id r.method.name r.params).bytes.length ≤ Frame.maxBody

theorem askable_question {most : Nat} {r : Read} (hr : Travels most r) (call : Nat) :
    (question call r).Askable most :=
  ⟨regular_params r.uri, depth_params r.uri, hr⟩

theorem askable_introduction {index : Index} {connector : Connector} {processId most : Nat}
    (hc : Carries index connector processId most) {name : String}
    (hname : connector.fate = .opens (some name)) : (introduction name processId).Askable most := by
  refine ⟨Handshake.regular_params ?_, Handshake.depth_params _, hc.introduction name hname⟩
  have hprocess := hc.process
  have hsize : UInt32.size ≤ 0xFFFFFFFFFFFFFFFF := by decide
  unfold Number.maxUnsigned
  show (processId : Int) ≤ _
  omega

theorem Carries.passable {index : Index} {connector : Connector} {processId most : Nat}
    (hc : Carries index connector processId most) (message : Outgoing) :
    Passable most (index.ask message) ∧ index message = .answer (index.ask message) := by
  obtain ⟨r, hr, hpass⟩ := hc.replies message
  have hask : index.ask message = r := by
    unfold Index.ask
    rw [hr]
  rw [hask]
  exact ⟨hpass, hr⟩

/-! ## Exchanges -/

/-- How many more requests there will be without further reads. -/
def reserve (s : Session) : Nat :=
  s.gate.waiting.length + if s.stage = .unopened then 1 else 0

theorem reserve_of_opened {s : Session} (h : s.stage ≠ .unopened) : s.reserve = s.gate.waiting.length := by
  rw [reserve, if_neg h]
  rfl

/-- Two sessions that agree in everything but the link, with nothing under way: the first has the index at
hand, and the second is connected to it and goes on with the id `n`. -/
structure Along (index : Index) (most room n : Nat) (d f : Session) : Prop where
  links : ∃ served received, d.link = .atHand index received [] ∧
    f = d.withLink (.behind index n served received [])
  carries : Carries index d.connector d.processId most
  reads : ∀ p ∈ d.reads, Travels most p.2
  room : n + d.reserve ≤ room

/-- Nothing is exchanged if nothing is under way. -/
theorem exchange_along {index : Index} {most room n : Nat} {d f : Session}
    (h : Along index most room n d f) (hroom : room ≤ most + 1) : d.exchange = d ∧ f.exchange = f := by
  obtain ⟨served, received, hd, rfl⟩ := h.links
  have hn := h.room
  constructor
  · have hlink : (Link.atHand index received ([] : List (Query Caller))).settle.collect = _ :=
      Link.settle_atHand index received []
    simp only [List.map_nil, List.append_nil] at hlink
    rw [← hd] at hlink
    exact exchange_eq hlink
  · have hlink : (Link.behind index n served received ([] : List (Query Caller))).settle.collect = _ :=
      Link.settle_behind h.carries.ids (fun q hq => absurd hq List.not_mem_nil)
        (fun q hq => absurd hq List.not_mem_nil) (by rw [List.length_nil]; omega) served received
    simp only [List.map_nil, List.append_nil, List.length_nil, Nat.add_zero] at hlink
    exact exchange_eq (s := d.withLink _) hlink

/-! ## Making the connection -/

theorem reserve_resolve (s : Session) (r : Except ChannelError Unit) :
    (s.resolve r).reserve = s.gate.waiting.length := by
  unfold reserve resolve Gate.resolve
  cases s.gate.outcome <;> rfl

theorem Along.resolve {index : Index} {most room n : Nat} {d f : Session}
    (h : Along index most room n d f) (r : Except ChannelError Unit) :
    Along index most room n (d.resolve r) (f.resolve r) := by
  obtain ⟨served, received, hd, rfl⟩ := h.links
  refine ⟨⟨served, received, hd, rfl⟩, h.carries, h.reads, ?_⟩
  have := h.room
  rw [reserve_resolve]
  unfold reserve at this
  omega

/-- Two sessions at the same point, with nothing under way. -/
theorem along_of_rest {index : Index} {most room n : Nat} {s : Session}
    (hc : Carries index s.connector s.processId most) (served : Nat) (received : List Outgoing)
    (hreads : ∀ p ∈ s.reads, Travels most p.2) (hroom : n + s.reserve ≤ room) :
    Along index most room n (s.withLink (.atHand index received []))
      (s.withLink (.behind index n served received [])) :=
  ⟨⟨served, received, rfl, rfl⟩, hc, hreads, hroom⟩

/-- A session that confirms the introduction. -/
theorem along_confirmed {index : Index} {most room n : Nat} {s : Session} {v : Json}
    (hc : Carries index s.connector s.processId most)
    (hindex : index Handshake.notification = .answer (.ok v)) (served : Nat) (received : List Outgoing)
    (hreads : ∀ p ∈ s.reads, Travels most p.2) (hroom : n + s.gate.waiting.length ≤ room)
    (hstage : s.stage ≠ .unopened) :
    Along index most room n
      ((s.withLink (.atHand index received [])).notify .confirmation Handshake.notificationMethod
        Handshake.notificationParams).exchange
      ((s.withLink (.behind index n served received [])).notify .confirmation
        Handshake.notificationMethod Handshake.notificationParams).exchange := by
  -- near and far, the notification arrives and is confirmed at once
  have hnear := Link.notify_atHand hindex received Caller.confirmation
  have hfar : ((Link.behind index n served received []).notify Caller.confirmation _ _).settle.collect = _ :=
    Link.notify_behind Handshake.fits_notification n served received Caller.confirmation
  -- the room for the reads was counted when they came
  have hrest : n + (s.count (·.countNotification)).reserve ≤ room := by
    rw [reserve_of_opened (s := s.count (·.countNotification)) hstage]
    exact hroom
  have hd := exchange_one (s := (s.withLink (.atHand index received [])).notify .confirmation
    Handshake.notificationMethod Handshake.notificationParams) hnear
  have hf := exchange_one (s := (s.withLink (.behind index n served received [])).notify .confirmation
    Handshake.notificationMethod Handshake.notificationParams) hfar
  have hrested : Along index most room n
      ((s.count (·.countNotification)).withLink (.atHand index (received ++ [Handshake.notification]) []))
      ((s.count (·.countNotification)).withLink
        (.behind index n served (received ++ [Handshake.notification]) [])) :=
    along_of_rest (s := s.count (·.countNotification)) hc served _ hreads hrest
  rw [hd, hf]
  exact hrested.resolve (.ok ())

/-- A session that has introduced itself: the answer decides whether it goes on. -/
theorem along_introduced {index : Index} {most room n : Nat} {s : Session}
    (hc : Carries index s.connector s.processId most) {name : String}
    (hname : s.connector.fate = .opens (some name)) (hmost : room ≤ most + 1)
    (served : Nat) (received : List Outgoing) (hstage : s.stage ≠ .unopened)
    (hreads : ∀ p ∈ s.reads, Travels most p.2) (hroom : n + 1 + s.gate.waiting.length ≤ room) :
    Along index most room (n + 1)
      (s.withLink (.atHand index received [introduction name s.processId])).exchange.exchange
      (s.withLink (.behind index n served received [introduction name s.processId])).exchange.exchange := by
  have hask : ∀ q ∈ [introduction name s.processId], q.Askable most := fun q hq => by
    rw [List.mem_singleton.mp hq]
    exact askable_introduction hc hname
  have hnear := Link.settle_atHand index received [introduction name s.processId]
  have hfar : (Link.behind index n served received [introduction name s.processId]).settle.collect = _ :=
    Link.settle_behind hc.ids hask (fun q _ => hc.passable q.message)
      (by rw [List.length_singleton]; omega) served received
  have hd := exchange_one (s := s.withLink (.atHand index received [introduction name s.processId])) hnear
  have hf := exchange_one
    (s := s.withLink (.behind index n served received [introduction name s.processId])) hfar
  rw [hd, hf]
  -- from here on both sessions have the same answer, whatever it is
  generalize index.ask (introduction name s.processId).message = r
  unfold hear
  cases haccept : Handshake.accept r with
  | error e =>
    have hrest : n + 1 + (s.count (·.countResult r)).reserve ≤ room := by
      rw [reserve_of_opened (s := s.count (·.countResult r)) hstage]
      exact hroom
    have hrested : Along index most room (n + 1)
        ((s.count (·.countResult r)).withLink
          (.atHand index (received ++ [(introduction name s.processId).message]) []))
        ((s.count (·.countResult r)).withLink (.behind index (n + 1) (served + 1)
          (received ++ [(introduction name s.processId).message]) [])) :=
      along_of_rest (s := s.count (·.countResult r)) hc (served + 1) _ hreads hrest
    have halong := hrested.resolve (.error e)
    obtain ⟨hd', hf'⟩ := exchange_along halong hmost
    rw [← hd', ← hf'] at halong
    exact halong
  | ok i =>
    obtain ⟨v, hv⟩ := hc.confirmation name hname
    exact along_confirmed (s := { s.count (·.countResult r) with stage := .confirming }) hc hv (served + 1) _
      hreads hroom (by intro h; cases h)

/-- A session whose connection was made, or failed, has nothing more to exchange. -/
theorem along_resolved {index : Index} {most room n : Nat} {d f : Session}
    (h : Along index most room n d f) (hroom : room ≤ most + 1) (r : Except ChannelError Unit) :
    ∃ n', Along index most room n' (d.resolve r).exchange.exchange (f.resolve r).exchange.exchange := by
  have hr := h.resolve r
  obtain ⟨hd, hf⟩ := exchange_along hr hroom
  refine ⟨n, ?_⟩
  rw [hd, hf, hd, hf]
  exact hr

theorem along_openChannel {index : Index} {most room n : Nat} {d f : Session}
    (h : Along index most room n d f) (hroom : room ≤ most + 1) (hstage : d.stage = .unopened) :
    ∃ n', Along index most room n' d.openChannel.exchange.exchange f.openChannel.exchange.exchange := by
  obtain ⟨served, received, hd, rfl⟩ := h.links
  -- what the connector does, it does near and far
  cases hfate : d.connector.fate with
  | breaksDown message =>
    rw [openChannel_of_breakdown hfate, openChannel_of_breakdown (by rw [connector_withLink, hfate])]
    exact along_resolved h hroom _
  | fails e =>
    rw [openChannel_of_failure hfate, openChannel_of_failure (by rw [connector_withLink, hfate])]
    exact along_resolved h hroom _
  | opens client =>
    cases client with
    | none =>
      rw [openChannel_of_anonymous hfate, openChannel_of_anonymous (by rw [connector_withLink, hfate])]
      refine along_resolved (n := n) ?_ hroom (.ok ())
      exact ⟨⟨served, received, hd, rfl⟩, h.carries, h.reads, h.room⟩
    | some name =>
      -- near and far, the introduction is sent as a request with the first id
      have hnear := Link.request_atHand received [] (h.carries.passable (introduction name d.processId).message).2
      have hfar := Link.request_behind index n served received [] (introduction name d.processId)
      rw [← hd] at hnear
      have hroom' := h.room
      rw [reserve, if_pos hstage] at hroom'
      let s : Session := { d with
        metrics := (some Metrics.zero).map (·.countRequest Handshake.requestMethod)
        stage := .introducing }
      have hresult := along_introduced (s := s) h.carries hfate hroom served received
        (by intro h; cases h) h.reads (by show n + 1 + d.gate.waiting.length ≤ room; omega)
      refine ⟨n + 1, ?_⟩
      rw [openChannel_of_name hfate, openChannel_of_name (by rw [connector_withLink, hfate])]
      have hd' : (s.withLink (d.link.request .introduction Handshake.requestMethod
          (introduction name d.processId).params)) = s.withLink (.atHand index received [_]) :=
        congrArg s.withLink hnear
      have hf' : (s.withLink ((Link.behind index n served received []).request .introduction
          Handshake.requestMethod (introduction name d.processId).params)) =
          s.withLink (.behind index n served received [_]) :=
        congrArg s.withLink hfar
      rw [← hd', ← hf'] at hresult
      exact hresult

/-- The connection is made, if it is time. -/
theorem along_connect {index : Index} {most room n : Nat} {d f : Session}
    (h : Along index most room n d f) (hroom : room ≤ most + 1) :
    ∃ n', Along index most room n' d.connect.exchange.exchange f.connect.exchange.exchange := by
  obtain ⟨served, received, hd, rfl⟩ := h.links
  unfold connect
  show ∃ n', Along index most room n' _
    (if d.stage = .unopened && d.gate.started && (!d.connector.held || d.released) then
      (d.withLink _).openChannel else d.withLink _).exchange.exchange
  split
  · next hopen =>
    rw [Bool.and_eq_true, Bool.and_eq_true] at hopen
    exact along_openChannel h hroom (of_decide_eq_true hopen.1.1)
  · obtain ⟨hd', hf'⟩ := exchange_along h hroom
    refine ⟨n, ?_⟩
    rw [hd', hd', hf', hf']
    exact h

/-! ## Reads -/

/-- Two sessions that agree in everything but the link, and have asked the same on behalf of reads. -/
structure Asked (index : Index) (most n : Nat) (qs : List (Query Caller)) (d f : Session) : Prop where
  links : ∃ served received, d.link = .atHand index received qs ∧
    f = d.withLink (.behind index n served received qs)
  carries : Carries index d.connector d.processId most
  reads : ∀ p ∈ d.reads, Travels most p.2
  asked : ∀ q ∈ qs, q.Askable most ∧ ∃ c, q.call = .read c

/-- A read that is let through asks, and one that is turned back has ended. -/
theorem asked_proceed {index : Index} {most n : Nat} {qs : List (Query Caller)} {d f : Session}
    (h : Asked index most n qs d f) (call : Nat) (verdict : Except FsError Unit) :
    ∃ qs', Asked index most n qs' (d.proceed call verdict) (f.proceed call verdict) ∧
      qs'.length ≤ qs.length + 1 ∧ (d.proceed call verdict).reserve = d.reserve := by
  obtain ⟨served, received, hd, rfl⟩ := h.links
  have hreads : ∀ l, (d.withLink l).reads = d.reads := fun _ => rfl
  cases hlookup : d.reads.lookup call with
  -- a read that is over asks nothing
  | none =>
    rw [proceed_of_none hlookup, proceed_of_none (by rw [hreads, hlookup])]
    exact ⟨qs, h, Nat.le_succ _, rfl⟩
  | some r =>
    cases verdict with
    | ok _ =>
      -- near and far, the question is asked behind those before it
      have hask := askable_question (h.reads _ (Channel.Session.mem_of_lookup hlookup)) call
      have hnear := Link.request_atHand received qs (h.carries.passable (question call r).message).2
      have hfar := Link.request_behind index n served received qs (question call r)
      rw [← hd] at hnear
      rw [proceed_of_ok hlookup, proceed_of_ok (by rw [hreads, hlookup])]
      refine ⟨qs ++ [question call r], ⟨⟨served, received, hnear, ?_⟩, h.carries, h.reads, ?_⟩, ?_, rfl⟩
      · exact congrArg (d.request (.read call) r.method.name r.params).withLink hfar
      · intro q hq
        rcases List.mem_append.mp hq with hq | hq
        · exact h.asked q hq
        · rw [List.mem_singleton.mp hq]
          exact ⟨hask, call, rfl⟩
      · exact Nat.le_of_eq List.length_append
    | error e =>
      rw [proceed_of_error hlookup, proceed_of_error (by rw [hreads, hlookup])]
      refine ⟨qs, ⟨⟨served, received, hd, rfl⟩, h.carries, ?_, h.asked⟩, Nat.le_succ _, rfl⟩
      exact fun p hp => h.reads p (List.mem_filter.mp hp).1

theorem asked_foldl {index : Index} {most n : Nat} {qs : List (Query Caller)} {d f : Session}
    (h : Asked index most n qs d f) (admitted : List (Nat × Except FsError Unit)) :
    ∃ qs', Asked index most n qs' (admitted.foldl (fun s a => s.proceed a.1 a.2) d)
        (admitted.foldl (fun s a => s.proceed a.1 a.2) f) ∧
      qs'.length ≤ qs.length + admitted.length ∧
      (admitted.foldl (fun s a => s.proceed a.1 a.2) d).reserve = d.reserve := by
  -- the requests that were made so far grow with each read that is let through
  induction admitted generalizing qs d f with
  | nil => exact ⟨qs, h, Nat.le_refl _, rfl⟩
  | cons a admitted ih =>
    obtain ⟨qs', h', hlength', hreserve'⟩ := asked_proceed h a.1 a.2
    obtain ⟨qs'', h'', hlength'', hreserve''⟩ := ih h'
    refine ⟨qs'', h'', ?_, hreserve''.trans hreserve'⟩
    rw [List.length_cons]
    omega

/-- Both sessions hear the same answer to a read. -/
theorem along_hear {index : Index} {most room n : Nat} {d f : Session}
    (h : Along index most room n d f) (call : Nat) (r : Channel.Result) :
    Along index most room n (d.hear (.read call) r) (f.hear (.read call) r) := by
  obtain ⟨served, received, hd, rfl⟩ := h.links
  have hreads : ∀ l, (d.withLink l).reads = d.reads := fun _ => rfl
  cases hlookup : d.reads.lookup call with
  | none =>
    rw [hear_read_of_none hlookup, hear_read_of_none (by rw [hreads, hlookup])]
    exact h
  | some read =>
    rw [hear_read_of_some hlookup, hear_read_of_some (by rw [hreads, hlookup])]
    refine ⟨⟨served, received, hd, rfl⟩, h.carries, ?_, h.room⟩
    exact fun p hp => h.reads p (List.mem_filter.mp hp).1

theorem along_foldl {index : Index} {most room n : Nat} {d f : Session}
    (h : Along index most room n d f) {results : List (Caller × Channel.Result)}
    (hresults : ∀ p ∈ results, ∃ c, p.1 = .read c) :
    Along index most room n (results.foldl (fun s r => s.hear r.1 r.2) d)
      (results.foldl (fun s r => s.hear r.1 r.2) f) := by
  induction results generalizing d f with
  | nil => exact h
  | cons p results ih =>
    obtain ⟨c, hc⟩ := hresults p List.mem_cons_self
    rw [List.foldl_cons, List.foldl_cons, hc]
    exact ih (along_hear h c p.2) fun p' hp' => hresults p' (List.mem_cons_of_mem p hp')

/-- All reads that were let through are answered. -/
theorem along_asked {index : Index} {most room n : Nat} {qs : List (Query Caller)} {d f : Session}
    (h : Asked index most n qs d f) (hroom : n + qs.length + d.reserve ≤ room) (hmost : room ≤ most + 1) :
    Along index most room (n + qs.length) d.exchange f.exchange := by
  obtain ⟨served, received, hd, rfl⟩ := h.links
  have hnear := Link.settle_atHand index received qs
  have hfar := Link.settle_behind (n := n) h.carries.ids (fun q hq => (h.asked q hq).1)
    (fun q _ => h.carries.passable q.message) (by omega) served received
  rw [← hd] at hnear
  have hd' := exchange_eq hnear
  have hf' := exchange_eq (s := d.withLink (.behind index n served received qs)) hfar
  rw [hd', hf']
  refine along_foldl ?_ ?_
  · exact ⟨⟨_, _, rfl, rfl⟩, h.carries, h.reads, hroom⟩
  · intro p hp
    obtain ⟨q, hq, rfl⟩ := List.mem_map.mp hp
    exact (h.asked q hq).2

/-- The reads that wait are let through once the connection is made. -/
theorem along_letThrough {index : Index} {most room n : Nat} {d f : Session}
    (h : Along index most room n d f) (hmost : room ≤ most + 1) :
    ∃ n', Along index most room n' d.letThrough.exchange f.letThrough.exchange := by
  cases houtcome : d.gate.outcome with
  | none =>
    have hf : f.gate.outcome = none := by
      obtain ⟨served, received, -, rfl⟩ := h.links
      exact houtcome
    obtain ⟨hd', hf'⟩ := exchange_along h hmost
    rw [letThrough_of_none houtcome, letThrough_of_none hf, hd', hf']
    exact ⟨n, h⟩
  | some r =>
    obtain ⟨served, received, hd, rfl⟩ := h.links
    have hasked : Asked index most n [] d.emptied
        (d.emptied.withLink (.behind index n served received [])) :=
      ⟨⟨served, received, hd, rfl⟩, h.carries, h.reads, fun q hq => absurd hq List.not_mem_nil⟩
    obtain ⟨qs, hasked, hlength, hreserve⟩ := asked_foldl hasked
      (d.gate.waiting.map fun c => (c, Gate.verdict r))
    refine ⟨n + qs.length, ?_⟩
    rw [letThrough_of_some houtcome,
      letThrough_of_some (s := d.withLink (.behind index n served received [])) houtcome]
    refine along_asked hasked ?_ hmost
    -- each of those who have waited asks at most once
    have hempty : d.emptied.reserve + d.gate.waiting.length = d.reserve := by
      unfold reserve emptied
      simp only [List.length_nil]
      omega
    have hroom := h.room
    rw [List.length_nil, List.length_map] at hlength
    rw [hreserve]
    omega

theorem along_settle {index : Index} {most room n : Nat} {d f : Session}
    (h : Along index most room n d f) (hmost : room ≤ most + 1) :
    ∃ n', Along index most room n' d.settle f.settle := by
  obtain ⟨n', h'⟩ := along_connect h hmost
  exact along_letThrough h' hmost

/-! ## Events -/

/-- What happens from outside does not touch the link. -/
theorem along_occur {index : Index} {most room n : Nat} {d f : Session}
    (h : Along index most room n d f) {e : Event} (he : ∀ call r, e = .read call r → Travels most r) :
    Along index most (room + 1) n (d.occur e) (f.occur e) := by
  obtain ⟨served, received, hd, rfl⟩ := h.links
  have hroom := h.room
  -- only a read takes room, since it may ask one question
  unfold reserve at hroom
  cases e with
  | read call r =>
    refine ⟨⟨served, received, hd, rfl⟩, h.carries, ?_, ?_⟩
    · intro p hp
      rcases List.mem_append.mp hp with hp | hp
      · exact h.reads p hp
      · rw [List.mem_singleton.mp hp]
        exact he call r rfl
    · show n + ((d.gate.waiting ++ [call]).length + if d.stage = .unopened then 1 else 0) ≤ room + 1
      rw [List.length_append, List.length_singleton]
      omega
  | change call c => exact ⟨⟨served, received, hd, rfl⟩, h.carries, h.reads, Nat.le_succ_of_le h.room⟩
  | watching w => exact ⟨⟨served, received, hd, rfl⟩, h.carries, h.reads, Nat.le_succ_of_le h.room⟩
  | cancel call =>
    refine ⟨⟨served, received, ?_, ?_⟩, h.carries, ?_, ?_⟩
    · show d.link.cancel (.read call) = _
      rw [hd]
      rfl
    · rfl
    · exact fun p hp => h.reads p (List.mem_filter.mp hp).1
    · show n + ((d.gate.waiting.filter (· ≠ call)).length + if d.stage = .unopened then 1 else 0) ≤ room + 1
      have := List.length_filter_le (fun c => decide (c ≠ call)) d.gate.waiting
      omega
  | release => exact ⟨⟨served, received, hd, rfl⟩, h.carries, h.reads, Nat.le_succ_of_le h.room⟩
  | resetMetrics => exact ⟨⟨served, received, hd, rfl⟩, h.carries, h.reads, Nat.le_succ_of_le h.room⟩

theorem along_apply {index : Index} {most room n : Nat} {d f : Session}
    (h : Along index most room n d f) {e : Event} (he : ∀ call r, e = .read call r → Travels most r)
    (hmost : room ≤ most) : ∃ n', Along index most (room + 1) n' (d.apply e) (f.apply e) :=
  along_settle (along_occur h he) (Nat.succ_le_succ hmost)

theorem along_foldl_apply {index : Index} {most room n : Nat} {d f : Session}
    (h : Along index most room n d f) {events : List Event}
    (he : ∀ call r, .read call r ∈ events → Travels most r) (hmost : room + events.length ≤ most + 1) :
    ∃ n', Along index most (room + events.length) n' (events.foldl apply d) (events.foldl apply f) := by
  induction events generalizing room n d f with
  | nil => exact ⟨n, h⟩
  | cons e events ih =>
    rw [List.length_cons] at hmost
    obtain ⟨n', h'⟩ := along_apply h (fun call r hr => he call r (hr ▸ List.mem_cons_self)) (by omega)
    obtain ⟨n'', h''⟩ := ih h' (fun call r hr => he call r (List.mem_cons_of_mem e hr)) (by omega)
    refine ⟨n'', ?_⟩
    rw [List.length_cons, Nat.add_comm events.length, ← Nat.add_assoc]
    exact h''

theorem along_new {index : Index} {connector : Connector} {processId most : Nat}
    (hc : Carries index connector processId most) (statErrorsAsNotFound : Bool) :
    Along index most 2 1 (new connector (.ofIndex index) statErrorsAsNotFound processId)
      (new connector (.ofServer index none) statErrorsAsNotFound processId) :=
  ⟨⟨0, [], rfl, rfl⟩, hc, fun _ hp => absurd hp List.not_mem_nil, Nat.le_refl 2⟩

/-- The connection changes nothing: after each event the same calls have ended with the same results, and
the gate has the same state. The ids stay below the number of events plus two, since each read asks once. -/
theorem framed_eq_direct {index : Index} {connector : Connector} {processId : Nat} {events : List Event}
    (hcarries : Carries index connector processId (events.length + 1))
    (hreads : ∀ call r, .read call r ∈ events → Travels (events.length + 1) r)
    (statErrorsAsNotFound : Bool) (k : Nat) :
    ((events.take k).foldl apply
        (new connector (.ofServer index none) statErrorsAsNotFound processId)).results =
      ((events.take k).foldl apply
        (new connector (.ofIndex index) statErrorsAsNotFound processId)).results ∧
    ((events.take k).foldl apply
        (new connector (.ofServer index none) statErrorsAsNotFound processId)).gate =
      ((events.take k).foldl apply
        (new connector (.ofIndex index) statErrorsAsNotFound processId)).gate := by
  have hlength := List.length_take_le' k events
  have hprefix : ∀ call r, .read call r ∈ events.take k → Travels (events.length + 1) r :=
    fun call r hr => hreads call r (List.mem_of_mem_take hr)
  obtain ⟨n, h⟩ := along_foldl_apply (along_new hcarries statErrorsAsNotFound) hprefix (by omega)
  obtain ⟨served, received, -, hf⟩ := h.links
  rw [hf]
  exact ⟨rfl, rfl⟩

/-- A connector that is held, a client that introduces itself, and a read that is cancelled while it waits. -/
theorem framed_eq_direct_after_cancel :
    let v := Json.object [("capabilities", .object [])]
    let connector : Connector := ⟨true, .opens (some "c")⟩
    let r : Read := ⟨.statFile, ⟨"lsif", none, false, .segments ["a"], none, none⟩⟩
    let events : List Event := [.read 0 r, .read 1 r, .cancel 0, .release]
    Carries (.constant v) connector 1 5 ∧ (∀ call r', .read call r' ∈ events → Travels 5 r') ∧
      (events.foldl apply (new connector (.ofServer (.constant v) none) false 1)).results =
        (events.foldl apply (new connector (.ofIndex (.constant v)) false 1)).results := by
  intro v connector r events
  -- the values and the URLs are small enough for every frame
  have hcarries : Carries (.constant v) connector 1 5 := by
    refine ⟨by decide, fun message => ⟨.ok v, rfl, ⟨?_, by decide⟩, by decide⟩, by decide, ?_, ?_⟩
    · simp [v, Json.Regular, Json.MembersRegular, Json.KeysAscend]
    · intro name hname
      cases hname
      decide +kernel
    · exact fun name hname => ⟨v, rfl⟩
  have hreads : ∀ call r', .read call r' ∈ events → Travels 5 r' := by
    intro call r' hr
    simp only [events, List.mem_cons, Event.read.injEq, List.not_mem_nil, reduceCtorEq, or_false] at hr
    have hr' : r' = r := hr.elim And.right And.right
    rw [hr']
    unfold Travels
    decide
  have hsame := framed_eq_direct hcarries hreads false 4
  exact ⟨hcarries, hreads, hsame.1⟩

end IndexFs.FileSystem.Session

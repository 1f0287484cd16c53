import IndexFs.Proofs.FileSystem.Calm

/-!
# What reaches the index

What is said on a link reaches the index in the same order, but maybe not all of it (`received_prefix`). An
index at hand receives just what was said. On its way to a server, a number may become another one, and a
server that has hung up or that waits for its index takes nothing more.
-/

namespace IndexFs

namespace Outgoing

/-- A message without its parameters. -/
def bare : Outgoing → Outgoing
  | .request method _ => .request method .null
  | .notification method _ => .notification method .null

/-- A message is written as this frame. -/
inductive FramedAs : Outgoing → List UInt8 → Prop where
  | request (id : Nat) (method : String) (params : Json) :
      FramedAs (.request method params) (Frame.bytes (Message.request id method params))
  | notification (method : String) (params : Json) :
      FramedAs (.notification method params) (Frame.bytes (Message.notification method params))

end Outgoing

namespace Message

theorem request_of_parse {id : Nat} {method : String} {params w : Json}
    (h : Json.parse (request id method params).bytes = .ok w) :
    ∃ id' version params', w = .object
      [("id", id'), ("jsonrpc", version), ("method", .string method), ("params", params')] := by
  rw [request_eq] at h
  obtain ⟨members, rfl, hread⟩ := Json.members_of_parse h
  obtain ⟨id', rest₁, rfl, -, hread₁⟩ := Json.exists_of_membersRead_cons hread
  obtain ⟨version, rest₂, rfl, -, hread₂⟩ := Json.exists_of_membersRead_cons hread₁
  obtain ⟨name, rest₃, rfl, hname, hread₃⟩ := Json.exists_of_membersRead_cons hread₂
  obtain ⟨params', rest₄, rfl, -, hread₄⟩ := Json.exists_of_membersRead_cons hread₃
  cases hread₄
  cases hname method rfl
  refine ⟨id', version, params', ?_⟩
  simp only [Json.ofMembers, Json.sortMembers, List.foldl_cons, List.foldl_nil, Json.insert,
    String.reduceLT, String.reduceEq, ↓reduceIte]

theorem notification_of_parse {method : String} {params w : Json}
    (h : Json.parse (notification method params).bytes = .ok w) :
    ∃ version params', w = .object
      [("jsonrpc", version), ("method", .string method), ("params", params')] := by
  rw [notification_eq] at h
  obtain ⟨members, rfl, hread⟩ := Json.members_of_parse h
  obtain ⟨version, rest₁, rfl, -, hread₁⟩ := Json.exists_of_membersRead_cons hread
  obtain ⟨name, rest₂, rfl, hname, hread₂⟩ := Json.exists_of_membersRead_cons hread₁
  obtain ⟨params', rest₃, rfl, -, hread₃⟩ := Json.exists_of_membersRead_cons hread₂
  cases hread₃
  cases hname method rfl
  refine ⟨version, params', ?_⟩
  simp only [Json.ofMembers, Json.sortMembers, List.foldl_cons, List.foldl_nil, Json.insert,
    String.reduceLT, String.reduceEq, ↓reduceIte]

end Message

namespace Server

/-! ## Servers -/

/-- What a server has received, without parameters. -/
def heard (s : Server) : List Outgoing :=
  s.received.map Outgoing.bare

/-- A server that takes nothing more. -/
def Done (s : Server) : Prop :=
  s.closed = true ∨ s.stuck = true

/-- One message more was received, or none because the server has hung up. -/
def Takes (s t : Server) (m : Outgoing) : Prop :=
  t.heard = s.heard ++ [m.bare] ∨ t.closed = true ∧ t.heard = s.heard

theorem takes_log (s : Server) (m : Outgoing) : s.Takes (s.log m) m :=
  .inl List.map_append

theorem takes_answer (s : Server) (id : Json) (m : Outgoing) : s.Takes (s.answer id m) m := by
  unfold answer
  split
  · exact .inr ⟨rfl, rfl⟩
  · -- a server that hangs up on the answer of its index has received the request
    dsimp only
    split <;> exact .inl List.map_append

/-- A frame is read and its message taken, or the server hangs up. -/
theorem read_of_framedAs {m : Outgoing} {frame : List UInt8} (h : m.FramedAs frame)
    (rest : List UInt8) :
    (∃ w, Frame.read .unknown (frame ++ rest) = .message w rest ∧
      ∀ s : Server, s.Takes (s.take w) m) ∨
      ∃ e left, Frame.read .unknown (frame ++ rest) = .fault e left := by
  cases h with
  -- what was said is read back as it was written, or the frame is too large to be read
  | request id method params =>
    rcases Frame.read_frame (Message.request id method params) .unknown rest with
      ⟨w, hparse, hread⟩ | hfault
    · obtain ⟨id', version, params', rfl⟩ := Message.request_of_parse hparse
      refine .inl ⟨_, hread, fun s => ?_⟩
      have htake : s.take (.object [("id", id'), ("jsonrpc", version), ("method", .string method),
          ("params", params')]) = s.answer id' (.request method params') := by
        simp [take, Json.get?, List.lookup_cons, Json.string?]
      rw [htake]
      exact takes_answer s id' (.request method params')
    · exact .inr hfault
  | notification method params =>
    rcases Frame.read_frame (Message.notification method params) .unknown rest with
      ⟨w, hparse, hread⟩ | hfault
    · obtain ⟨version, params', rfl⟩ := Message.notification_of_parse hparse
      refine .inl ⟨_, hread, fun s => ?_⟩
      -- the server tells it from a request, since it has no id
      have htake : s.take (.object [("jsonrpc", version), ("method", .string method),
          ("params", params')]) = s.log (.notification method params') := by
        simp [take, Json.get?, List.lookup_cons, Json.string?]
      rw [htake]
      exact takes_log s (.notification method params')
    · exact .inr hfault

theorem run_of_done {s : Server} (h : s.Done) (fuel : Nat) : s.run fuel = s :=
  run_of_atRest (h.imp_right .inl) fuel

/-- A server has received some messages more, all of them unless it is done. -/
def Hears (s t : Server) (ms : List Outgoing) : Prop :=
  t.Done ∧ t.heard <+: s.heard ++ ms.map Outgoing.bare ∨
    t.input = [] ∧ t.heard = s.heard ++ ms.map Outgoing.bare

theorem hears_of_done {s : Server} (h : s.Done) (ms : List Outgoing) : s.Hears s ms :=
  .inl ⟨h, List.prefix_append _ _⟩

/-- Messages whose frames have arrived are received in their order. -/
theorem hears_run {ms : List Outgoing} {frames : List (List UInt8)}
    (hframes : List.Forall₂ Outgoing.FramedAs ms frames) {s : Server} (hinput : s.input = frames.flatten)
    {fuel : Nat} (hfuel : s.input.length < fuel) : s.Hears (s.run fuel) ms := by
  induction hframes generalizing s fuel with
  | nil =>
    have hrest : s.AtRest := by
      refine .inr (.inr ?_)
      rw [hinput]
      rfl
    rw [run_of_atRest hrest]
    exact .inr ⟨hinput, (List.append_nil _).symm⟩
  | @cons m frame ms frames hm _ ih =>
    cases fuel with
    | zero => exact absurd hfuel (Nat.not_lt_zero _)
    | succ fuel =>
      rw [run]
      split_ifs with hdone
      · rw [Bool.or_eq_true] at hdone
        exact hears_of_done hdone _
      · rw [hinput, List.flatten_cons] at hfuel ⊢
        rcases read_of_framedAs hm frames.flatten with ⟨w, hread, htakes⟩ | ⟨e, left, hread⟩
        · rw [hread]
          have hshorter : frames.flatten.length < fuel := by
            have := Frame.length_lt_of_read hread
            omega
          show s.Hears (({ s with input := frames.flatten }.take w).run fuel) _
          have hleft : ({ s with input := frames.flatten }.take w).input = frames.flatten :=
            take_input _ w
          rcases htakes { s with input := frames.flatten } with hheard | ⟨hclosed, hheard⟩
          · have hrest := ih hleft (by rw [hleft]; exact hshorter)
            unfold Hears at hrest ⊢
            rw [hheard, List.append_assoc] at hrest
            exact hrest
          · rw [run_of_done (.inl hclosed)]
            refine .inl ⟨.inl hclosed, ?_⟩
            rw [hheard]
            exact List.prefix_append _ _
        · -- a message that can not be read, such as one that is too long
          rw [hread]
          exact .inl ⟨.inl rfl, List.prefix_append _ _⟩

theorem hears_receive {ms : List Outgoing} {frames : List (List UInt8)}
    (hframes : List.Forall₂ Outgoing.FramedAs ms frames) {s : Server} (hinput : s.input = []) :
    s.Hears (s.receive frames.flatten) ms := by
  have harrived : ({ s with input := s.input ++ frames.flatten } : Server).input = frames.flatten := by
    show s.input ++ frames.flatten = frames.flatten
    rw [hinput, List.nil_append]
  exact hears_run hframes harrived (Nat.lt_succ_self _)

theorem receive_of_done {s : Server} (h : s.Done) (bytes : List UInt8) :
    (s.receive bytes).Done ∧ (s.receive bytes).heard = s.heard := by
  have hsame : s.receive bytes = { s with input := s.input ++ bytes } :=
    run_of_done (s := { s with input := s.input ++ bytes }) h _
  rw [hsame]
  exact ⟨h, rfl⟩

end Server

namespace Channel.Session

variable {Call : Type} [DecidableEq Call]

/-- A session to which nothing more has arrived writes all its frames. -/
theorem output_calling {s : Session Call} (h : s.Calling) :
    s.settle.output = s.output ++ (s.queue.map Job.frame).flatten ∧ s.settle.closed = s.closed := by
  induction s using settle_induction with
  | hnone s hnone =>
    have hidle := idle_of_rest hnone
    rw [h.flowing.blocked] at hidle
    -- nothing blocks the writer, so that the queue is empty when the session rests
    have hqueue : s.queue = [] := hidle.resolve_left Bool.false_ne_true
    rw [settle_of_none hnone, hqueue]
    exact ⟨(List.append_nil _).symm, rfl⟩
  | hsome s t hadvance ih =>
    rw [settle_of_some hadvance]
    rcases advance?_eq_some hadvance with hwrite | ⟨-, hread⟩
    · obtain ⟨-, job, rest, hqueue, rfl⟩ := writeNext?_eq_some hwrite
      obtain ⟨hrest, houtput, -⟩ := wrote_wire s job rest
      obtain ⟨-, hclosed, -⟩ := written_frame (s.popped job rest) job.origin (s.writer.write job.frame).2.1
      obtain ⟨hsettled, hclosed'⟩ := ih (wrote_calling h job rest)
      -- the writer takes every frame as a whole
      have hframe : (s.writer.write job.frame).1 = job.frame := by
        rw [h.flowing.writer]
        rfl
      refine ⟨?_, hclosed'.trans hclosed⟩
      rw [hsettled, hrest, houtput, hframe, hqueue, List.map_cons, List.flatten_cons, List.append_assoc]
    · -- nothing has arrived that could be read
      rw [h.readNext?] at hread
      cases hread

end Channel.Session

namespace Link

variable {Call : Type}

/-! ## Links -/

/-- What was said on a link, and how far it has come: to the index at hand, or through the queue of the client
to a server, unless one of them is closed. -/
inductive Noted : Link Call → List Outgoing → Prop where
  | direct (index : Index) (said : List Outgoing) (results : List (Call × Channel.Result)) :
      Noted (.direct index said results) said
  | done {client : Channel.Session Call} {server : Server} {said : List Outgoing} (hdone : server.Done)
      (hheard : server.heard <+: said.map Outgoing.bare) : Noted (.framed client server) said
  | listening {client : Channel.Session Call} {server : Server} {said : List Outgoing}
      (waiting lost : List Outgoing)
      (hinput : server.input = [])
      (hqueue : List.Forall₂ Outgoing.FramedAs waiting (client.queue.map Channel.Job.frame))
      (hsaid : said.map Outgoing.bare = server.heard ++ waiting.map Outgoing.bare ++ lost)
      (hlost : client.closed = true ∨ lost = []) : Noted (.framed client server) said

theorem noted_of_fresh {l : Link Call} (h : l.Fresh) : l.Noted [] := by
  cases h with
  | direct index => exact .direct index [] []
  | framed index patience => exact .listening [] [] rfl .nil rfl (.inr rfl)

variable [DecidableEq Call]

omit [DecidableEq Call] in
theorem noted_askDirectly (index : Index) (said : List Outgoing)
    (results : List (Call × Channel.Result)) (call : Call) (message : Outgoing)
    (read : Channel.Result → Channel.Result) :
    (askDirectly index said results call message read).Noted (said ++ [message]) := by
  unfold askDirectly
  split <;> exact .direct _ _ _

omit [DecidableEq Call] in
/-- A message is lost on a client that is closed, and waits on one that is not. -/
theorem noted_concat {client client' : Channel.Session Call} {server : Server} {said : List Outgoing}
    (h : Noted (.framed client server) said) {m : Outgoing} {job : Channel.Job Call}
    (hm : m.FramedAs job.frame) (hclosed : client'.closed = client.closed)
    (hqueue : client'.queue = if client.closed then client.queue else client.queue ++ [job]) :
    Noted (.framed client' server) (said ++ [m]) := by
  cases h with
  | done hdone hheard =>
    refine .done hdone ?_
    rw [List.map_append]
    exact hheard.trans (List.prefix_append _ _)
  | listening waiting lost hinput hwaiting hsaid hlost =>
    cases hopen : client.closed with
    -- a closed client says nothing any more: what it was asked to say is lost
    | true =>
      rw [hopen, if_pos rfl] at hqueue
      refine .listening waiting (lost ++ [m.bare]) hinput ?_ ?_ (.inl ?_)
      · rw [hqueue]
        exact hwaiting
      · rw [List.map_append, hsaid, List.append_assoc]
        rfl
      · rw [hclosed, hopen]
    | false =>
      rw [hopen, if_neg Bool.false_ne_true] at hqueue
      -- as long as the client is open, nothing was lost
      have hnone : lost = [] := hlost.resolve_left (by rw [hopen]; exact Bool.false_ne_true)
      refine .listening (waiting ++ [m]) [] hinput ?_ ?_ (.inr rfl)
      · rw [hqueue, List.map_append]
        exact List.rel_append hwaiting (.cons hm .nil)
      · rw [List.map_append, hsaid, hnone, List.map_append, List.append_nil, List.append_nil,
          List.append_assoc]

theorem noted_request {l : Link Call} {said : List Outgoing} (h : l.Noted said) (call : Call)
    (method : String) (params : Json) :
    (l.request call method params).Noted (said ++ [.request method params]) := by
  cases l with
  | direct index received results =>
    cases h
    exact noted_askDirectly _ _ _ _ _ _
  | framed client server =>
    let job : Channel.Job Call :=
      ⟨.request client.nextId call, Frame.bytes (Message.request client.nextId method params)⟩
    have hjob : (Outgoing.request method params).FramedAs job.frame := .request client.nextId method params
    refine noted_concat h hjob (Channel.Session.occur_frame client (.request call method params)).2 ?_
    simp only [Channel.Session.request]
    split <;> rfl

theorem noted_notify {l : Link Call} {said : List Outgoing} (h : l.Noted said) (call : Call)
    (method : String) (params : Json) :
    (l.notify call method params).Noted (said ++ [.notification method params]) := by
  cases l with
  | direct index received results =>
    cases h
    exact noted_askDirectly _ _ _ _ _ _
  | framed client server =>
    let job : Channel.Job Call := ⟨.notification call, Frame.bytes (Message.notification method params)⟩
    have hjob : (Outgoing.notification method params).FramedAs job.frame := .notification method params
    refine noted_concat h hjob (Channel.Session.occur_frame client (.notify call method params)).2 ?_
    simp only [Channel.Session.notify]
    split <;> rfl

/-- When everything has been written, there is nothing that a call could take back. -/
theorem noted_cancel {l : Link Call} (hcalm : l.Calm) {said : List Outgoing} (h : l.Noted said)
    (call : Call) : (l.cancel call).Noted said := by
  cases hcalm with
  | direct index received =>
    cases h
    exact .direct _ _ _
  | @framed client server hquiet hresults hserver hsent hclosed =>
    cases h with
    | done hdone hheard => exact .done hdone hheard
    | listening waiting lost hinput hqueue hsaid hlost =>
      have hsame : (client.cancel call).queue = client.queue := by
        show client.queue.filter _ = client.queue
        rw [hquiet.queue, List.filter_nil]
      exact .listening waiting lost hinput (hsame.symm ▸ hqueue) hsaid hlost

omit [DecidableEq Call] in
theorem reached_closed (client : Channel.Session Call) (server : Server) :
    (reached client server).closed = client.closed := by
  unfold reached Channel.Session.endInput Channel.Session.receive
  split_ifs
  · split <;> split <;> rfl
  · split <;> rfl

/-- All that waits is written, and taken by the server unless that is done. -/
theorem noted_settle {l : Link Call} (hsound : l.Sound) {said : List Outgoing} (h : l.Noted said) :
    l.settle.collect.1.Noted said := by
  have hcalm := calm_settle hsound
  cases hsound with
  | direct index received results =>
    cases h
    exact .direct _ _ _
  | @framed client server hcalling hclient hserver =>
    obtain ⟨houtput, hclosed⟩ := Channel.Session.output_calling hcalling
    rw [hclient, List.nil_append] at houtput
    rw [settle_framed] at hcalm ⊢
    cases h with
    | done hdone hheard =>
      obtain ⟨hdone', hsame⟩ := Server.receive_of_done hdone client.settle.output
      exact .done hdone' (hsame.symm ▸ hheard)
    | listening waiting lost hinput hqueue hsaid hlost =>
      have hears := Server.hears_receive hqueue hinput
      rw [← houtput] at hears
      rcases hears with ⟨hdone, hheard⟩ | ⟨hread, hheard⟩
      · refine .done hdone (hheard.trans ?_)
        rw [hsaid]
        exact List.prefix_append _ _
      · -- the client has written everything, and responses make it write nothing more
        have hqueue' : (reached client.settle (server.receive client.settle.output)).settle.queue = [] := by
          cases hcalm with
          | framed hquiet _ _ _ _ => exact hquiet.queue
        refine .listening [] lost hread ?_ ?_ (hlost.imp_left fun hlate => ?_)
        · show List.Forall₂ _ [] (List.map _ (reached _ _).settle.queue)
          rw [hqueue']
          exact .nil
        · show said.map Outgoing.bare = (server.receive client.settle.output).heard ++ [] ++ lost
          rw [hheard, List.append_nil, hsaid]
        · refine Channel.Session.settle_closed ?_
          rw [reached_closed, hclosed, hlate]

end Link

end IndexFs

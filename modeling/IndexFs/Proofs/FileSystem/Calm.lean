import IndexFs.FileSystem.Link
import IndexFs.Proofs.Channel.Answered
import IndexFs.Proofs.Channel.Owed

/-!
# Links at rest

A link that has settled, and whose results were collected, is calm: it does nothing more until it is called
again (`settle_of_calm`, `calm_settle`). It gives no more results than it owes to those who have called
(`owed_settle`).
-/

namespace IndexFs.Link

open Channel (Session Event)

variable {Call : Type} [DecidableEq Call]

/-- The links that a session may start with. -/
inductive Fresh : Link Call → Prop where
  | direct (index : Index) : Fresh (.ofIndex index)
  | framed (index : Index) (patience : Option Nat) : Fresh (.ofServer index patience)

/-- A link of which nothing is on its way but calls. -/
inductive Sound : Link Call → Prop where
  | direct (index : Index) (received : List Outgoing) (results : List (Call × Channel.Result)) :
      Sound (.direct index received results)
  | framed {client : Session Call} {server : Server} (hcalling : client.Calling)
      (hclient : client.output = []) (hserver : server.output = []) : Sound (.framed client server)

/-- A link of which nothing at all is on its way. -/
inductive Calm : Link Call → Prop where
  | direct (index : Index) (received : List Outgoing) : Calm (.direct index received [])
  | framed {client : Session Call} {server : Server} (hquiet : client.Quiet)
      (hresults : client.results = []) (hserver : server.AtRest) (hsent : server.output = [])
      (hclosed : server.closed = true → client.ending ≠ .unknown) : Calm (.framed client server)

/-- How many results a call can still get. -/
def owed : Link Call → Call → Nat
  | .direct _ _ results, call => results.countP fun r => r.1 = call
  | .framed client _, call => client.owed call

omit [DecidableEq Call] in
/-- A new link is at rest. -/
theorem calm_of_fresh {l : Link Call} (h : l.Fresh) : l.Calm := by
  cases h with
  | direct index => exact .direct index []
  | framed index patience =>
    refine .framed ⟨Session.calling_new, rfl, rfl⟩ rfl (.inr (.inr rfl)) rfl fun hclosed => ?_
    cases hclosed

omit [DecidableEq Call] in
/-- A link at rest is sound. -/
theorem sound_of_calm {l : Link Call} (h : l.Calm) : l.Sound := by
  cases h with
  | direct index received => exact .direct index received []
  | framed hquiet _ _ hsent _ => exact .framed hquiet.calling hquiet.output hsent

/-! ## Calls -/

omit [DecidableEq Call] in
/-- A link that answers at once is always sound. -/
theorem sound_askDirectly (index : Index) (received : List Outgoing)
    (results : List (Call × Channel.Result)) (call : Call) (message : Outgoing)
    (read : Channel.Result → Channel.Result) :
    (askDirectly index received results call message read).Sound := by
  unfold askDirectly
  split <;> exact .direct _ _ _

/-- The index at hand answers once at most. -/
theorem owed_askDirectly (index : Index) (received : List Outgoing)
    (results : List (Call × Channel.Result)) (c : Call) (message : Outgoing)
    (read : Channel.Result → Channel.Result) (call : Call) :
    (askDirectly index received results c message read).owed call ≤
      results.countP (fun r => r.1 = call) + if c = call then 1 else 0 := by
  unfold askDirectly
  split
  · simp [owed, List.countP_append, List.countP_singleton]
  · exact Nat.le_add_right _ _

/-- A request keeps a link sound. -/
theorem sound_request {l : Link Call} (h : l.Sound) (call : Call) (method : String) (params : Json) :
    (l.request call method params).Sound := by
  cases h with
  | direct index received results => exact sound_askDirectly _ _ _ _ _ _
  | @framed client server hcalling hclient hserver =>
    refine .framed (Session.calling_occur hcalling (e := .request call method params) rfl rfl) ?_ hserver
    exact (Session.occur_writer client (e := .request call method params) rfl).1.trans hclient

/-- A notification keeps a link sound. -/
theorem sound_notify {l : Link Call} (h : l.Sound) (call : Call) (method : String) (params : Json) :
    (l.notify call method params).Sound := by
  cases h with
  | direct index received results => exact sound_askDirectly _ _ _ _ _ _
  | @framed client server hcalling hclient hserver =>
    refine .framed (Session.calling_occur hcalling (e := .notify call method params) rfl rfl) ?_ hserver
    exact (Session.occur_writer client (e := .notify call method params) rfl).1.trans hclient

/-- To cancel a call keeps a link sound. -/
theorem sound_cancel {l : Link Call} (h : l.Sound) (call : Call) : (l.cancel call).Sound := by
  cases h with
  | direct index received results => exact .direct _ _ _
  | framed hcalling hclient hserver =>
    exact .framed (Session.calling_occur hcalling (e := .cancel call) rfl rfl) hclient hserver

/-- A request owes its call at most one result. -/
theorem owed_request (l : Link Call) (c : Call) (method : String) (params : Json) (call : Call) :
    (l.request c method params).owed call ≤ l.owed call + if c = call then 1 else 0 := by
  cases l with
  | direct index received results => exact owed_askDirectly _ _ _ _ _ _ _
  | framed client server => exact Nat.le_of_eq (Session.owed_request client c method params call)

/-- A notification owes its call at most one result. -/
theorem owed_notify (l : Link Call) (c : Call) (method : String) (params : Json) (call : Call) :
    (l.notify c method params).owed call ≤ l.owed call + if c = call then 1 else 0 := by
  cases l with
  | direct index received results => exact owed_askDirectly _ _ _ _ _ _ _
  | framed client server => exact Nat.le_of_eq (Session.owed_notify client c method params call)

/-- To cancel a call owes nobody more than before. -/
theorem owed_cancel (l : Link Call) (c call : Call) : (l.cancel c).owed call ≤ l.owed call := by
  cases l with
  | direct index received results => exact List.filter_sublist.countP_le
  | framed client server => exact Session.owed_cancel client c call

/-! ## Settling -/

/-- The client when what the server has sent arrives at it. -/
def reached (client : Session Call) (server : Server) : Session Call :=
  if server.closed then ({ client with output := [] }.receive server.output).endInput .closed
  else { client with output := [] }.receive server.output

/-- A framed link comes to rest in two turns: what the client has to say, and what the server has said to
it. -/
theorem settle_framed (client : Session Call) (server : Server) :
    settle (.framed client server) =
      .framed (reached client.settle (server.receive client.settle.output)).settle
        { server.receive client.settle.output with output := [] } :=
  rfl

omit [DecidableEq Call] in
/-- A client that has said nothing hears nothing. -/
theorem reached_of_calm {client : Session Call} {server : Server} (hquiet : client.Quiet)
    (hsent : server.output = []) (hclosed : server.closed = true → client.ending ≠ .unknown) :
    reached client server = client := by
  have hclient : { client with output := [] } = client := by
    obtain ⟨-, -, houtput⟩ := hquiet
    rw [← houtput]
  have hreceive : client.receive [] = client := by
    unfold Session.receive
    rw [List.append_nil]
    split <;> rfl
  unfold reached
  rw [hclient, hsent, hreceive]
  split_ifs with h
  · have hending := hclosed h
    unfold Session.endInput
    split
    · next hunknown => exact absurd hunknown hending
    · rfl
  · rfl

/-- A calm link stays as it is. -/
theorem settle_of_calm {l : Link Call} (h : l.Calm) : l.settle.collect = (l, []) := by
  cases h with
  | direct index received => rfl
  | @framed client server hquiet hresults hserver hsent hclosed =>
    have hsettle : client.settle = client := Session.settle_of_none hquiet.rest
    have hserver' : { server with output := [] } = server := by rw [← hsent]
    rw [settle_framed, hsettle, hquiet.output, Server.receive_nil hserver,
      reached_of_calm hquiet hsent hclosed, hsettle, hserver']
    show (Link.framed { client with results := [] } server, client.results) = _
    rw [← hresults]

omit [DecidableEq Call] in
/-- A client hears that its server is gone. -/
theorem reached_ending {client : Session Call} {server : Server} (hclosed : server.closed = true) :
    (reached client server).ending ≠ .unknown := by
  unfold reached
  rw [if_pos hclosed]
  unfold Session.endInput
  split
  · exact fun h => nomatch h
  · next h => exact fun hunknown => h hunknown

omit [DecidableEq Call] in
/-- What a client hears leaves its writer as it is. -/
theorem reached_writer (client : Session Call) (server : Server) :
    (reached client server).writer = client.writer := by
  unfold reached Session.endInput Session.receive
  split_ifs
  · split <;> split <;> rfl
  · split <;> rfl

omit [DecidableEq Call] in
theorem reached_awaiting {client : Session Call} (hquiet : { client with output := [] }.Quiet)
    {server : Server} (hserver : Responses server.output) : (reached client server).Awaiting := by
  obtain ⟨hreceive, hend⟩ := Session.awaiting_receive hquiet hserver
  unfold reached
  split_ifs
  · exact hend .closed
  · exact hreceive

/-- What was asked is written and answered, and then the link is calm. -/
theorem calm_settle {l : Link Call} (h : l.Sound) : l.settle.collect.1.Calm := by
  cases h with
  | direct index received results => exact .direct index received
  | @framed client server hcalling hclient hserver =>
    obtain ⟨hcalling', hqueue⟩ := Session.calling_settle hcalling
    have hquiet := Session.quiet_of_calling hcalling' hqueue
    obtain ⟨sent, hsent, houtput⟩ := Server.output_receive server client.settle.output
    rw [hserver, List.nil_append] at houtput
    have hresponses : Responses (server.receive client.settle.output).output := houtput ▸ hsent
    have hawaiting := reached_awaiting hquiet hresponses
    have hrest := Session.quiet_settle hawaiting
    rw [settle_framed]
    refine .framed hrest.collected rfl
      (Server.atRest_receive server client.settle.output) rfl fun hclosed => ?_
    -- a server that has hung up has told so
    show (reached _ _).settle.ending ≠ .unknown
    rw [(Session.settle_outside _).1]
    exact reached_ending hclosed

/-! ## Results -/

/-- What is collected was owed before. -/
theorem owed_collect (l : Link Call) (call : Call) :
    l.collect.2.countP (fun r => r.1 = call) + l.collect.1.owed call = l.owed call := by
  cases l with
  | direct index received results => rfl
  | framed client server => simp [collect, owed, Session.owed]; omega

/-- What a client hears owes nobody anything before it is read. -/
theorem owed_reached (client : Session Call) (server : Server) (call : Call) :
    (reached client server).owed call = client.owed call := by
  obtain ⟨hreceive, -⟩ := Session.owed_inbound { client with output := [] } call
  unfold reached
  split_ifs
  · rw [(Session.owed_inbound _ call).2, hreceive]
    rfl
  · rw [hreceive]
    rfl

/-- On its way to rest, a link keeps what it owes and promises nothing new. -/
theorem owed_settle {l : Link Call} (h : l.Sound) (call : Call) :
    l.settle.collect.2.countP (fun r => r.1 = call) + l.settle.collect.1.owed call ≤ l.owed call := by
  rw [owed_collect]
  cases h with
  | direct index received results => exact Nat.le_refl _
  | @framed client server hcalling hclient hserver =>
    obtain ⟨hcalling', hqueue⟩ := Session.calling_settle hcalling
    have hwriter : (reached client.settle (server.receive client.settle.output)).writer = .unlimited := by
      rw [reached_writer]
      exact hcalling'.flowing.writer
    rw [settle_framed]
    calc (reached client.settle (server.receive client.settle.output)).settle.owed call
        ≤ (reached client.settle (server.receive client.settle.output)).owed call :=
          Session.owed_settle hwriter call
      _ = client.settle.owed call := owed_reached _ _ call
      _ ≤ client.owed call := Session.owed_settle hcalling.flowing.writer call

end IndexFs.Link

import IndexFs.FileSystem.Link
import IndexFs.Proofs.Channel.Message
import IndexFs.Proofs.Channel.Settle

/-!
# Links that answer alike

An index that is asked over a connection gives the same answers as the index itself, as long as the
messages fit into frames: when the link settles, all requests have travelled to the server and all answers
back, in the order of the requests (`settle_behind`).
-/

namespace IndexFs.Link

open Channel (Session)

/-- What a server answers under an id. It hangs up on an error that is not of the index. -/
def reply (id : Nat) : Channel.Result → Json
  | .ok v => Message.response (.ofNat id) (.ok v)
  | .error (.server code text) => Message.response (.ofNat id) (.error (code, text))
  | .error _ => .null

/-- A value or an error that fits into a response under each id up to the given one. -/
structure Passable (most : Nat) (r : Channel.Result) : Prop where
  form : match r with
    | .ok v => v.Regular ∧ v.depth ≤ 126
    | .error (.server code _) => Number.minSigned ≤ code ∧ code ≤ Number.maxSigned
    | .error _ => False
  size : ∀ id ≤ most, (reply id r).bytes.length ≤ Frame.maxBody

/-- A request that is made over a link. -/
structure Query (Call : Type) where
  call : Call
  method : String
  params : Json

namespace Query

variable {Call : Type}

def message (q : Query Call) : Outgoing :=
  .request q.method q.params

/-- The request as it travels. -/
def frame (q : Query Call) (id : Nat) : List UInt8 :=
  Frame.bytes (Message.request id q.method q.params)

/-- A request that fits into a frame under each id up to the given one. -/
structure Askable (most : Nat) (q : Query Call) : Prop where
  regular : q.params.Regular
  depth : q.params.depth < Json.maxDepth
  size : ∀ id ≤ most, (Message.request id q.method q.params).bytes.length ≤ Frame.maxBody

theorem Askable.fits {most id : Nat} {q : Query Call} (hq : q.Askable most) (hid : id ≤ most)
    (hmost : (most : Int) ≤ Number.maxSigned) :
    Frame.Fits (Message.request id q.method q.params) := by
  refine Message.fits_request ?_ hq.regular hq.depth (hq.size id hid)
  have : Number.maxSigned ≤ Number.maxUnsigned := by decide
  omega

end Query

theorem Passable.fits {most id : Nat} {r : Channel.Result} (hr : Passable most r) (hid : id ≤ most)
    (hmost : (most : Int) ≤ Number.maxSigned) : Frame.Fits (reply id r) := by
  have hsize := hr.size id hid
  have hform := hr.form
  have hid' : (id : Int) ≤ Number.maxUnsigned := by
    have : Number.maxSigned ≤ Number.maxUnsigned := by decide
    omega
  match r with
  | .ok v => exact Message.fits_response_ok hid' hform.1 (Nat.lt_succ_of_le hform.2) hsize
  | .error (.server code text) => exact Message.fits_response_error hid' hform.1 hform.2 hsize
  | .error (.io m) => exact hform.elim
  | .error .closed => exact hform.elim
  | .error (.protocol m) => exact hform.elim

theorem Passable.incoming {most id : Nat} {r : Channel.Result} (hr : Passable most r) (hid : id ≤ most)
    (hmost : (most : Int) ≤ Number.maxSigned) : Incoming.of (reply id r) = .response id r := by
  have hform := hr.form
  have hid' : (id : Int) ≤ Number.maxSigned := by omega
  match r with
  | .ok v => exact Message.incoming_response_ok hid' v
  | .error (.server code text) => exact Message.incoming_response_error hid' hform.1 hform.2 text
  | .error (.io m) => exact hform.elim
  | .error .closed => exact hform.elim
  | .error (.protocol m) => exact hform.elim

theorem Passable.answer {most : Nat} {r : Channel.Result} (hr : Passable most r) (id : Nat) (s : Server)
    (message : Outgoing) (hpatience : s.patience = none) (hindex : s.index message = .answer r) :
    s.answer (.ofNat id) message =
      (({ s with served := s.served + 1 }.log message).send (reply id r)) := by
  have hform := hr.form
  unfold Server.answer
  rw [hpatience, if_neg (by simp)]
  simp only [Server.log, hindex]
  match r with
  | .ok v => rfl
  | .error (.server code text) => rfl
  | .error (.io m) => exact hform.elim
  | .error .closed => exact hform.elim
  | .error (.protocol m) => exact hform.elim

/-! ## The client -/

variable {Call : Type}

/-- A client that waits for nothing: its next id, and the results that were not collected yet. -/
def resting (n : Nat) (results : List (Call × Channel.Result)) : Session Call :=
  { Session.new with nextId := n, results := results }

/-- The requests that wait, the first of which has this id. -/
def entries (n : Nat) (qs : List (Query Call)) : List (Nat × Call) :=
  (qs.zipIdx n).map fun q => (q.2, q.1.call)

/-- A client that has made requests, none of which is on its way yet. -/
def asking (n : Nat) (qs : List (Query Call)) : Session Call :=
  { Session.new with
    nextId := n + qs.length
    pending := entries n qs
    queue := (qs.zipIdx n).map fun q => ⟨.request q.2 q.1.call, q.1.frame q.2⟩ }

/-- The frames of requests, the first of which has this id. -/
def frames (n : Nat) (qs : List (Query Call)) : List UInt8 :=
  (qs.zipIdx n).flatMap fun q => q.1.frame q.2

/-- The answers to requests, the first of which has this id. -/
def replies (index : Index) (n : Nat) (qs : List (Query Call)) : List UInt8 :=
  (qs.zipIdx n).flatMap fun q => Frame.bytes (reply q.2 (index.ask q.1.message))

/-- A client that waits for the responses to requests, all of which have arrived. -/
def hearing (index : Index) (n k : Nat) (qs : List (Query Call))
    (results : List (Call × Channel.Result)) : Session Call :=
  { Session.new with
    nextId := k
    pending := entries n qs
    input := replies index n qs
    results := results }

def answers (index : Index) (qs : List (Query Call)) : List (Call × Channel.Result) :=
  qs.map fun q => (q.call, index.ask q.message)

theorem frames_cons (n : Nat) (q : Query Call) (qs : List (Query Call)) :
    frames n (q :: qs) = q.frame n ++ frames (n + 1) qs := by
  unfold frames
  rw [List.zipIdx_cons, List.flatMap_cons]

theorem replies_cons (index : Index) (n : Nat) (q : Query Call) (qs : List (Query Call)) :
    replies index n (q :: qs) =
      Frame.bytes (reply n (index.ask q.message)) ++ replies index (n + 1) qs := by
  unfold replies
  rw [List.zipIdx_cons, List.flatMap_cons]

/-- Each request is at least one byte. -/
theorem length_le_frames (n : Nat) (qs : List (Query Call)) : qs.length ≤ (frames n qs).length := by
  induction qs generalizing n with
  | nil => exact Nat.zero_le _
  | cons q qs ih =>
    have hframe : 0 < (q.frame n).length := List.length_pos_iff.mpr (Frame.bytes_ne_nil _)
    have := ih (n + 1)
    rw [frames_cons, List.length_append, List.length_cons]
    omega

variable [DecidableEq Call]

omit [DecidableEq Call] in
theorem request_asking (n : Nat) (qs : List (Query Call)) (q : Query Call) :
    (asking n qs).request q.call q.method q.params = asking n (qs ++ [q]) := by
  simp [Session.request, asking, entries, Session.new, List.zipIdx_append, Query.frame, Nat.add_assoc]

/-- All requests are written. -/
theorem settle_queue {s : Session Call} (hblocked : s.blocked = false) (hwriter : s.writer = .unlimited)
    (hanswered : s.answered = []) {jobs : List (Channel.Job Call)} (hqueue : s.queue = jobs)
    (hjobs : ∀ job ∈ jobs, ∃ id call, job.origin = .request id call) :
    s.settle =
      { s with queue := [], output := s.output ++ jobs.flatMap Channel.Job.frame }.settle := by
  induction jobs generalizing s with
  | nil => rw [List.flatMap_nil, List.append_nil, ← hqueue]
  | cons job jobs ih =>
    obtain ⟨id, call, horigin⟩ := hjobs job List.mem_cons_self
    have hwrote : s.wrote job jobs = { s with queue := jobs, output := s.output ++ job.frame } := by
      unfold Session.wrote Session.popped
      rw [horigin, hwriter]
      simp [Frame.Writer.write, Frame.Writer.unlimited, Session.written, Session.requestWritten, hanswered]
    rw [Session.settle_of_some (Session.advance?_of_queue hblocked hqueue), hwrote]
    refine Eq.trans (ih ?_ ?_ ?_ rfl ?_) ?_
    · exact hblocked
    · exact hwriter
    · exact hanswered
    · exact fun j hj => hjobs j (List.mem_cons_of_mem job hj)
    · simp [List.append_assoc]

theorem settle_asking_client (n : Nat) (qs : List (Query Call)) :
    (asking n qs).settle = { asking n qs with queue := [], output := frames n qs } := by
  have hjobs : ∀ job ∈ (asking n qs).queue, ∃ id call, job.origin = .request id call := by
    intro job hjob
    obtain ⟨q, -, rfl⟩ := List.mem_map.mp hjob
    exact ⟨_, _, rfl⟩
  rw [settle_queue rfl rfl rfl rfl hjobs, Session.settle_of_none]
  · simp [asking, frames, Session.new, List.flatMap_map]
  · rfl

/-- The response to the request that has waited longest. -/
theorem dispatch_first {s : Session Call} {n : Nat} {call : Call} {rest : List (Nat × Call)} {m : Json}
    {r : Channel.Result} (hqueue : s.queue = []) (hpending : s.pending = (n, call) :: rest)
    (hrest : ∀ p ∈ rest, p.1 ≠ n) (hm : Incoming.of m = .response n r) :
    s.dispatch m = { s with pending := rest, results := s.results ++ [(call, r)] } := by
  have hcall : s.pendingCall? n = some call := by
    unfold Session.pendingCall?
    rw [hpending, List.find?_cons_of_pos (by simp)]
    rfl
  have hfilter : s.pending.filter (fun p => (p.1 : Int) ≠ n) = rest := by
    rw [hpending, List.filter_cons_of_neg (by simp), List.filter_eq_self]
    intro p hp
    exact decide_eq_true fun heq => hrest p hp (Int.ofNat.inj heq)
  simp only [Session.dispatch, hm, hcall, hfilter]
  unfold Session.deliver Session.isQueued
  rw [if_neg (by simp [hqueue])]
  rfl

omit [DecidableEq Call] in
theorem lt_of_mem_entries {n : Nat} {qs : List (Query Call)} {p : Nat × Call} (hp : p ∈ entries n qs) :
    n ≤ p.1 := by
  obtain ⟨q, hq, rfl⟩ := List.mem_map.mp hp
  exact List.le_snd_of_mem_zipIdx hq

/-- One response is read. -/
theorem advance?_hearing {index : Index} {most n k : Nat} (hmost : (most : Int) ≤ Number.maxSigned)
    {q : Query Call} {qs : List (Query Call)} (hq : Passable most (index.ask q.message)) (hn : n ≤ most)
    (results : List (Call × Channel.Result)) :
    (hearing index n k (q :: qs) results).advance? =
      some (hearing index (n + 1) k qs (results ++ [(q.call, index.ask q.message)])) := by
  have hread : Frame.read .unknown (replies index n (q :: qs)) =
      .message (reply n (index.ask q.message)) (replies index (n + 1) qs) := by
    have hfits := hq.fits hn hmost
    rw [replies_cons]
    exact Frame.read_bytes hfits.regular hfits.depth hfits.size .unknown _
  rw [Session.advance?_of_idle (.inr rfl), Session.readNext?_eq]
  show Session.after _ (Frame.read .unknown (replies index n (q :: qs))) = _
  rw [hread]
  refine congrArg some (dispatch_first rfl rfl ?_ (hq.incoming hn hmost))
  -- the ids of the other requests are greater
  intro p hp
  have := lt_of_mem_entries hp
  omega

/-- All responses are read. -/
theorem settle_hearing {index : Index} {most n k : Nat} (hmost : (most : Int) ≤ Number.maxSigned)
    {qs : List (Query Call)} (hpass : ∀ q ∈ qs, Passable most (index.ask q.message))
    (hn : n + qs.length ≤ most + 1) (results : List (Call × Channel.Result)) :
    (hearing index n k qs results).settle = resting k (results ++ answers index qs) := by
  induction qs generalizing n results with
  | nil =>
    rw [Session.settle_of_none rfl]
    simp [hearing, entries, answers, replies, resting, Session.new]
  | cons q qs ih =>
    rw [List.length_cons] at hn
    rw [Session.settle_of_some (advance?_hearing hmost (hpass q List.mem_cons_self) (by omega) results),
      ih (fun q' hq' => hpass q' (List.mem_cons_of_mem q hq')) (by omega)]
    simp [answers]

/-! ## The server -/

/-- A server that waits for the next message: what it has sent is still on its way. -/
def idle (index : Index) (served : Nat) (received : List Outgoing) (output : List UInt8) : Server :=
  { Server.new index none with served := served, received := received, output := output }

/-- A server to which requests have arrived. -/
def serving (index : Index) (n served : Nat) (received : List Outgoing) (qs : List (Query Call))
    (output : List UInt8) : Server :=
  { Server.new index none with
    served := served
    received := received
    input := frames n qs
    output := output }

theorem run_of_message {s : Server} (hclosed : s.closed = false) (hstuck : s.stuck = false) {m : Json}
    {rest : List UInt8} (hread : Frame.read .unknown s.input = .message m rest) (fuel : Nat) :
    s.run (fuel + 1) = ({ s with input := rest }.take m).run fuel := by
  rw [Server.run, if_neg (by simp [hclosed, hstuck]), hread]

omit [DecidableEq Call] in
/-- One request is answered. -/
theorem take_serving {index : Index} {most n : Nat} {q : Query Call} {qs : List (Query Call)}
    (hq : Passable most (index.ask q.message)) (hindex : index q.message = .answer (index.ask q.message))
    (served : Nat) (received : List Outgoing) (output : List UInt8) :
    { serving index n served received (q :: qs) output with input := frames (n + 1) qs }.take
        (Message.request n q.method q.params) =
      serving index (n + 1) (served + 1) (received ++ [q.message]) qs
        (output ++ Frame.bytes (reply n (index.ask q.message))) := by
  rw [Server.take_request, hq.answer n _ (.request q.method q.params) rfl hindex]
  rfl

omit [DecidableEq Call] in
/-- All requests are answered. -/
theorem run_serving {index : Index} {most n : Nat} (hmost : (most : Int) ≤ Number.maxSigned)
    {qs : List (Query Call)} (hask : ∀ q ∈ qs, q.Askable most)
    (hpass : ∀ q ∈ qs, Passable most (index.ask q.message) ∧
      index q.message = .answer (index.ask q.message))
    (hn : n + qs.length ≤ most + 1) (served : Nat) (received : List Outgoing) (output : List UInt8)
    {fuel : Nat} (hfuel : qs.length ≤ fuel) :
    (serving index n served received qs output).run fuel =
      idle index (served + qs.length) (received ++ qs.map Query.message)
        (output ++ replies index n qs) := by
  induction qs generalizing n served received output fuel with
  | nil =>
    have hempty : serving index n served received ([] : List (Query Call)) output =
        idle index served received output := rfl
    have hreplies : replies index n ([] : List (Query Call)) = [] := rfl
    rw [hempty, hreplies, List.map_nil, List.append_nil, List.append_nil]
    cases fuel <;> rfl
  | cons q qs ih =>
    rw [List.length_cons] at hn hfuel
    obtain ⟨fuel, rfl⟩ : ∃ k, fuel = k + 1 := ⟨fuel - 1, by omega⟩
    obtain ⟨hq, hindex⟩ := hpass q List.mem_cons_self
    have hread : Frame.read .unknown (frames n (q :: qs)) =
        .message (Message.request n q.method q.params) (frames (n + 1) qs) := by
      have hfits : Frame.Fits (Message.request n q.method q.params) :=
        (hask q List.mem_cons_self).fits (by omega) hmost
      rw [frames_cons]
      exact Frame.read_bytes hfits.regular hfits.depth hfits.size .unknown _
    -- the first request is answered, and the others by induction
    rw [run_of_message rfl rfl hread, take_serving hq hindex,
      ih (fun q' hq' => hask q' (List.mem_cons_of_mem q hq'))
        (fun q' hq' => hpass q' (List.mem_cons_of_mem q hq')) (by omega) _ _ _ (by omega)]
    simp [replies_cons, Nat.add_assoc, Nat.add_comm 1]

/-! ## The link -/

/-- A connection over which requests have been made, none of which is on its way yet. -/
def behind (index : Index) (n served : Nat) (received : List Outgoing) (qs : List (Query Call)) :
    Link Call :=
  .framed (asking n qs) (idle index served received [])

/-- The index at hand, after it has answered requests. -/
def atHand (index : Index) (received : List Outgoing) (qs : List (Query Call)) : Link Call :=
  .direct index (received ++ qs.map Query.message) (answers index qs)

/-- The requests travel to the server, and the answers back. -/
theorem settle_behind {index : Index} {most n : Nat} (hmost : (most : Int) ≤ Number.maxSigned)
    {qs : List (Query Call)} (hask : ∀ q ∈ qs, q.Askable most)
    (hpass : ∀ q ∈ qs, Passable most (index.ask q.message) ∧
      index q.message = .answer (index.ask q.message))
    (hn : n + qs.length ≤ most + 1) (served : Nat) (received : List Outgoing) :
    (behind index n served received qs).settle.collect =
      (behind index (n + qs.length) (served + qs.length) (received ++ qs.map Query.message) [],
        answers index qs) := by
  have hserver : (idle index served received []).receive (frames n qs) =
      idle index (served + qs.length) (received ++ qs.map Query.message) (replies index n qs) := by
    -- the fuel is the number of bytes, and there are at least as many as requests
    have hlength := length_le_frames n qs
    exact run_serving hmost hask hpass hn served received [] (Nat.le_succ_of_le hlength)
  have hclient := settle_hearing (k := n + qs.length) hmost (fun q hq => (hpass q hq).1) hn []
  unfold behind settle
  simp only [settle_asking_client, hserver]
  show collect (.framed (hearing index n (n + qs.length) qs []).settle _) = _
  rw [hclient]
  rfl

theorem settle_atHand (index : Index) (received : List Outgoing) (qs : List (Query Call)) :
    (atHand index received qs).settle.collect =
      (atHand index (received ++ qs.map Query.message) [], answers index qs) := by
  simp [atHand, settle, collect, answers]

/-! ## Requests -/

omit [DecidableEq Call] in
theorem request_behind (index : Index) (n served : Nat) (received : List Outgoing)
    (qs : List (Query Call)) (q : Query Call) :
    (behind index n served received qs).request q.call q.method q.params =
      behind index n served received (qs ++ [q]) := by
  show Link.framed ((asking n qs).request q.call q.method q.params) _ = _
  rw [request_asking]
  rfl

omit [DecidableEq Call] in
theorem request_atHand {index : Index} (received : List Outgoing) (qs : List (Query Call)) {q : Query Call}
    (hindex : index q.message = .answer (index.ask q.message)) :
    (atHand index received qs).request q.call q.method q.params =
      atHand index received (qs ++ [q]) := by
  show askDirectly index _ _ q.call q.message id = _
  unfold askDirectly atHand
  rw [hindex]
  simp [answers]

/-! ## Notifications -/

theorem notify_behind {index : Index} {method : String} {params : Json}
    (hfits : Frame.Fits (Message.notification method params)) (n served : Nat)
    (received : List Outgoing) (call : Call) :
    ((behind index n served received []).notify call method params).settle.collect =
      (behind index n served (received ++ [.notification method params]) [], [(call, .ok .null)]) := by
  -- the client writes the notification at once, and waits for nothing
  have hclient : ((asking n []).notify call method params).settle =
      { (asking n [] : Session Call) with
        output := Frame.bytes (Message.notification method params)
        results := [(call, .ok .null)] } := by
    have hadvance : ((asking n []).notify call method params).advance? =
        some (((asking n []).notify call method params).wrote
          ⟨.notification call, Frame.bytes (Message.notification method params)⟩ []) :=
      Session.advance?_of_queue rfl rfl
    rw [Session.settle_of_some hadvance]
    exact Session.settle_of_none rfl
  have hread := Frame.read_bytes hfits.regular hfits.depth hfits.size .unknown []
  rw [List.append_nil] at hread
  -- the server reads it as it was written, and says nothing
  have hserver : (idle index served received []).receive (Frame.bytes (Message.notification method params)) =
      idle index served (received ++ [.notification method params]) [] := by
    unfold Server.receive
    rw [run_of_message rfl rfl hread, Server.take_notification]
    cases hlength : (Frame.bytes (Message.notification method params)).length with
    | zero => rfl
    | succ n => rfl
  show (settle (.framed ((asking n []).notify call method params) (idle index served received []))).collect = _
  unfold settle
  simp only [hclient, hserver]
  rfl

theorem notify_atHand {index : Index} {method : String} {params : Json} {v : Json}
    (hindex : index (.notification method params) = .answer (.ok v)) (received : List Outgoing)
    (call : Call) :
    ((atHand index received []).notify call method params).settle.collect =
      (atHand index (received ++ [.notification method params]) [], [(call, .ok .null)]) := by
  simp [atHand, notify, askDirectly, hindex, settle, collect, answers, Except.map]

end IndexFs.Link

import IndexFs.Proofs.Channel.Queue

/-!
# Bytes in pieces

A session does not see in which pieces its input arrives. Whatever it does by itself after one piece it
would have done as well with the next piece already behind it (`advance?_more`), since what was read off
the bytes so far stays what it is. So it makes no difference whether a session comes to rest between two
pieces, and a piece may end anywhere: in a header line, in a character or in a body.
-/

namespace IndexFs.Channel

variable {Call : Type}

/-- An event with its bytes one by one. -/
def Event.bytewise : Event Call → List (Event Call)
  | .receive bytes => bytes.map fun b => .receive [b]
  | e => [e]

/-- The same happens, and the same bytes arrive in between, but perhaps in other pieces. -/
def SameArrivals (events events' : List (Event Call)) : Prop :=
  events.flatMap Event.bytewise = events'.flatMap Event.bytewise

namespace Session

variable [DecidableEq Call]

/-! ## Other streams

What a session does depends neither on the bytes that it has not read yet, nor on those that it has written
before.
-/

/-- The session with other bytes to read, and with other bytes written. -/
def withStreams (s : Session Call) (input output : List UInt8) : Session Call :=
  { s with input := input, output := output }

/-- Who is told of a write does not depend on the streams. -/
theorem written_withStreams (s : Session Call) (input output : List UInt8) (origin : Origin Call)
    (r : Except ChannelError Unit) :
    (s.withStreams input output).written origin r = (s.written origin r).withStreams input output := by
  cases origin with
  | request id call =>
    cases r with
    | ok _ =>
      simp only [written, requestWritten, withStreams]
      split <;> rfl
    | error e => rfl
  | notification call => rfl
  | rejection => rfl

theorem wrote_withStreams (s : Session Call) (input output : List UInt8) (job : Job Call)
    (rest : List (Job Call)) :
    (s.withStreams input output).wrote job rest =
      (s.wrote job rest).withStreams input (output ++ (s.writer.write job.frame).1) :=
  written_withStreams (s.popped job rest) input (output ++ (s.writer.write job.frame).1) job.origin _

theorem deliver_withStreams (s : Session Call) (input output : List UInt8) (call : Call) (r : Result) :
    (s.withStreams input output).deliver call r = (s.deliver call r).withStreams input output := by
  have hqueued : (s.withStreams input output).isQueued call = s.isQueued call := rfl
  unfold deliver
  rw [hqueued]
  split <;> rfl

/-- A message is acted upon without a look at the streams. -/
theorem dispatch_withStreams (s : Session Call) (input output : List UInt8) (m : Json) :
    (s.withStreams input output).dispatch m = (s.dispatch m).withStreams input output := by
  cases hm : Incoming.of m with
  | response n r =>
    have hcall : (s.withStreams input output).pendingCall? n = s.pendingCall? n := rfl
    simp only [dispatch, hm, hcall]
    cases s.pendingCall? n with
    | none => rfl
    | some call => exact deliver_withStreams { s with pending := _ } input output call r
  | request id method => simp only [dispatch, hm, withStreams]
  | other => simp only [dispatch, hm]

theorem close_withStreams (s : Session Call) (input output : List UInt8) :
    (s.withStreams input output).close = s.close.withStreams input output := by
  rw [close_eq, close_eq]
  rfl

/-! ## More bytes -/

/-- The session after more bytes have arrived. -/
def more (s : Session Call) (bytes : List UInt8) : Session Call :=
  s.withStreams (s.input ++ bytes) s.output

/-- While the reader waits for more, bytes that come later may as well have come before. -/
theorem after_more (s : Session Call) (bytes : List UInt8) {o : Frame.Outcome} (hopen : o.isOpen = true) :
    (s.more bytes).after (o.append bytes) = (s.after o).map (more · bytes) := by
  cases o with
  | message m rest =>
    have hinput : ({ s with input := rest }.dispatch m).input = rest := (dispatch_frame _ _).2.2
    have houtput : ({ s with input := rest }.dispatch m).output = s.output := dispatch_output _ _
    simp only [Frame.Outcome.append, after, Option.map_some, more, hinput, houtput]
    exact congrArg some (dispatch_withStreams { s with input := rest } (rest ++ bytes) s.output m)
  | fault e rest =>
    have hclose : ({ s with input := rest }.close).input = rest ∧
        ({ s with input := rest }.close).output = s.output := by
      rw [close_eq]
      exact ⟨rfl, rfl⟩
    simp only [Frame.Outcome.append, after, Option.map_some, more, hclose]
    exact congrArg some (close_withStreams { s with input := rest } (rest ++ bytes) s.output)
  | finished => cases hopen
  | failed m => cases hopen
  | pending => rfl

/-- What the reader does while its input may go on, it does with any bytes behind that input. -/
theorem readNext?_more {s t : Session Call} (hending : s.ending = .unknown) (h : s.readNext? = some t)
    (bytes : List UInt8) : (s.more bytes).readNext? = some (t.more bytes) := by
  obtain ⟨hclosed, hrejecting, -⟩ := readNext?_eq_some h
  have hafter : s.after (Frame.read .unknown s.input) = some t := by
    rwa [readNext?_eq, hclosed, hrejecting, hending] at h
  have hread : Frame.read .unknown s.input ≠ .pending := by
    intro hpending
    rw [hpending] at hafter
    cases hafter
  have hreading : ((s.more bytes).closed || (s.more bytes).rejecting) = false := by
    show (s.closed || s.rejecting) = false
    rw [hclosed, hrejecting]
    rfl
  -- what was read stays what it is when more bytes arrive
  have hsame : Frame.read (s.more bytes).ending (s.more bytes).input =
      (Frame.read .unknown s.input).append bytes := Frame.read_append hread s.ending bytes
  rw [readNext?_eq, hreading, if_neg Bool.false_ne_true, hsame, after_more s bytes (Frame.read_isOpen _),
    hafter, Option.map_some]

/-- What a session does by itself while its input may go on, it does with any bytes behind that input. -/
theorem advance?_more {s t : Session Call} (hending : s.ending = .unknown) (h : s.advance? = some t)
    (bytes : List UInt8) : (s.more bytes).advance? = some (t.more bytes) := by
  have hread : s.blocked = true ∨ s.queue = [] → (s.more bytes).advance? = some (t.more bytes) := by
    intro hidle
    have hidle' : (s.more bytes).blocked = true ∨ (s.more bytes).queue = [] := hidle
    rw [advance?_of_idle hidle] at h
    rw [advance?_of_idle hidle']
    exact readNext?_more hending h bytes
  -- what arrives does not change whether the session can write, and reading has seen enough for its step
  cases hblocked : s.blocked with
  | true => exact hread (.inl hblocked)
  | false =>
    cases hqueue : s.queue with
    | nil => exact hread (.inr hqueue)
    | cons job rest =>
      rw [advance?_of_queue hblocked hqueue] at h
      obtain rfl := Option.some.inj h
      have hinput : (s.wrote job rest).input = s.input := (written_frame _ _ _).2.2.2
      have houtput : (s.wrote job rest).output = s.output ++ (s.writer.write job.frame).1 :=
        (wrote_wire s job rest).2.1
      have hstep : (s.more bytes).advance? = some ((s.more bytes).wrote job rest) :=
        advance?_of_queue hblocked hqueue
      rw [hstep, more, wrote_withStreams, more, hinput, houtput]

/-! ## Coming to rest in between -/

theorem written_outside (s : Session Call) (origin : Origin Call) (r : Except ChannelError Unit) :
    (s.written origin r).ending = s.ending ∧ (s.written origin r).blocked = s.blocked := by
  cases origin with
  | request id call =>
    cases r with
    | ok _ =>
      simp only [written, requestWritten]
      split <;> exact ⟨rfl, rfl⟩
    | error e => exact ⟨rfl, rfl⟩
  | notification call => exact ⟨rfl, rfl⟩
  | rejection => exact ⟨rfl, rfl⟩

theorem dispatch_outside (s : Session Call) (m : Json) :
    (s.dispatch m).ending = s.ending ∧ (s.dispatch m).blocked = s.blocked := by
  by_cases hm : Rejected m
  · obtain ⟨id, method, hincoming⟩ := hm
    rw [dispatch_of_request hincoming]
    exact ⟨rfl, rfl⟩
  · obtain ⟨hshared, -⟩ := dispatch_of_not_rejected hm s
    obtain ⟨-, -, -, -, hending, hblocked⟩ := shared_eq_iff.mp hshared
    exact ⟨hending, hblocked⟩

/-- A session does nothing by itself to what it depends on from outside. -/
theorem advance?_outside {s t : Session Call} (h : s.advance? = some t) :
    t.ending = s.ending ∧ t.blocked = s.blocked := by
  obtain ⟨m, hevent, hstep⟩ := step_of_advance? h
  cases hstep with
  | event e => cases hevent
  | @write job rest hblocked hqueue => exact written_outside (s.popped job rest) _ _
  | @message m rest hclosed hrejecting hread => exact dispatch_outside { s with input := rest } m
  | ended =>
    rw [close_eq]
    exact ⟨rfl, rfl⟩

/-- A session that comes to rest before more bytes arrive ends in the same state. -/
theorem settle_more {s : Session Call} (hending : s.ending = .unknown) (bytes : List UInt8) :
    (s.settle.more bytes).settle = (s.more bytes).settle := by
  induction s using settle_induction with
  | hnone s h => rw [settle_of_none h]
  | hsome s t h ih =>
    -- a step that needs no more bytes is also the first one when they are there
    have hmore : (s.more bytes).settle = (t.more bytes).settle :=
      settle_of_some (advance?_more hending h bytes)
    rw [settle_of_some h, hmore]
    exact ih ((advance?_outside h).1.trans hending)

/-- Settling leaves alone what was heard of the end of the stream and whether it is blocked. -/
theorem settle_outside (s : Session Call) :
    s.settle.ending = s.ending ∧ s.settle.blocked = s.blocked := by
  induction s using settle_induction with
  | hnone s h =>
    rw [settle_of_none h]
    exact ⟨rfl, rfl⟩
  | hsome s t h ih =>
    obtain ⟨hending, hblocked⟩ := advance?_outside h
    rw [settle_of_some h]
    exact ⟨ih.1.trans hending, ih.2.trans hblocked⟩

theorem receive_of_unknown {s : Session Call} (h : s.ending = .unknown) (bytes : List UInt8) :
    s.occur (.receive bytes) = s.more bytes := by
  simp only [occur, receive]
  split
  · rfl
  · next hended => exact absurd h hended

theorem receive_of_ended {s : Session Call} (h : s.ending ≠ .unknown) (bytes : List UInt8) :
    s.occur (.receive bytes) = s := by
  simp only [occur, receive]

/-- A settled session has nothing left to do. -/
theorem settle_settle (s : Session Call) : s.settle.settle = s.settle :=
  settle_of_none (advance?_settle s)

/-- Two pieces are as good as one. -/
theorem apply_receive_append (s : Session Call) (bytes bytes' : List UInt8) :
    (s.apply (.receive bytes)).apply (.receive bytes') = s.apply (.receive (bytes ++ bytes')) := by
  by_cases hending : s.ending = .unknown
  · have hmore : (s.more bytes).ending = .unknown := hending
    have hsettled : (s.more bytes).settle.ending = .unknown := (settle_outside _).1.trans hmore
    have happend : (s.more bytes).more bytes' = s.more (bytes ++ bytes') := by
      simp only [more, withStreams, List.append_assoc]
    unfold apply
    rw [receive_of_unknown hending, receive_of_unknown hsettled, receive_of_unknown hending,
      settle_more hmore, happend]
  · -- after the end of the input, nothing that arrives is seen
    have hsettled : s.settle.ending ≠ .unknown := by rwa [(settle_outside s).1]
    unfold apply
    rw [receive_of_ended hending, receive_of_ended hsettled, receive_of_ended hending, settle_settle]

/-- Any number of pieces, the first of which brings the session to rest. -/
theorem foldl_receive (s : Session Call) (bytes : List UInt8) (pieces : List (List UInt8)) :
    (pieces.map Event.receive).foldl apply (s.apply (.receive bytes)) =
      s.apply (.receive (bytes ++ pieces.flatten)) := by
  induction pieces generalizing bytes with
  | nil => rw [List.flatten_nil, List.append_nil, List.map_nil, List.foldl_nil]
  | cons piece pieces ih =>
    rw [List.map_cons, List.foldl_cons, apply_receive_append, ih, List.flatten_cons, List.append_assoc]

theorem receive_nil (s : Session Call) : s.occur (.receive []) = s := by
  simp only [occur, receive, List.append_nil]
  split <;> rfl

/-- Bytes that arrive one piece after the other, with nothing else in between, leave a session in the state
in which it would be had they arrived at once, whatever they are, wherever the pieces end and whatever the
session was waiting for: with the same results, the same bytes written, the same ids, and so with the same
future. -/
theorem segmentation_invisible (before : List (Event Call)) (pieces : List (List UInt8))
    (later : List (Event Call)) :
    (before ++ pieces.map Event.receive ++ later).foldl apply .new =
      (before ++ .receive pieces.flatten :: later).foldl apply .new := by
  rw [List.foldl_append, List.foldl_append, List.foldl_append, List.foldl_cons]
  congr 1
  cases pieces with
  | nil =>
    -- no piece at all is as good as an empty one, since the session is at rest
    rw [List.map_nil, List.foldl_nil, List.flatten_nil, apply, receive_nil, settle_foldl]
  | cons piece pieces => rw [List.map_cons, List.foldl_cons, foldl_receive, List.flatten_cons]

/-! ## Cutting sessions anew -/

/-- Bytes that come one at a time leave the session as they do in one piece. -/
theorem foldl_bytewise {s : Session Call} (hs : s.settle = s) (e : Event Call) :
    e.bytewise.foldl apply s = s.apply e := by
  cases e with
  | receive bytes =>
    cases bytes with
    | nil =>
      rw [apply, receive_nil, hs]
      rfl
    | cons b bytes =>
      have hpieces : (.receive (b :: bytes) : Event Call).bytewise =
          .receive [b] :: (bytes.map ([·])).map Event.receive := by
        simp only [Event.bytewise, List.map_cons, List.map_map, Function.comp_def]
      have hflat : (bytes.map ([·])).flatten = bytes := by
        rw [← List.flatMap_def]
        exact List.flatMap_pure_eq_map id bytes |>.trans (List.map_id bytes)
      rw [hpieces, List.foldl_cons, foldl_receive, hflat, List.singleton_append]
  | _ => rfl

theorem foldl_flatMap_bytewise (events : List (Event Call)) :
    (events.flatMap Event.bytewise).foldl apply .new = events.foldl apply (.new : Session Call) := by
  induction events using List.reverseRecOn with
  | nil => rfl
  | append_singleton events e ih =>
    rw [List.flatMap_append, List.flatMap_singleton, List.foldl_append, List.foldl_append, ih,
      foldl_bytewise (settle_foldl events)]
    rfl

/-- Only the bytes count, and not the pieces in which they came. -/
theorem foldl_of_sameArrivals {events events' : List (Event Call)} (h : SameArrivals events events') :
    events.foldl apply .new = events'.foldl apply (.new : Session Call) := by
  rw [← foldl_flatMap_bytewise events, h, foldl_flatMap_bytewise]

end Session

end IndexFs.Channel

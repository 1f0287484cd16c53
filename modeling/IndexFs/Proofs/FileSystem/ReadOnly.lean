import IndexFs.Proofs.FileSystem.Settled

/-!
# Changes leave no trace

A session never looks at the calls that have ended (`Appends`), and a session at rest stays as it is. So a
change is refused in its own step and does nothing else, and what every other step shows is the same whether
or not there were changes and watchers before it (`changes_inert`).
-/

namespace IndexFs.FileSystem

/-- Whether an event is a change, or belongs to someone who watches. -/
def Event.isInert : Event → Bool
  | .change .. => true
  | .watching _ => true
  | _ => false

/-- What can be seen of a step: the calls that it has ended, how often the connector was called, the state of
the connection, the messages that the index has received, and what has gone over the channel. -/
structure Glimpse where
  finished : List (Nat × Except FsError Value)
  connects : Nat
  state : GateState
  received : List Outgoing
  metrics : Option Metrics

namespace Session

/-- The session with other results. -/
def withResults (s : Session) (results : List (Nat × Except FsError Value)) : Session :=
  { s with results := results }

def glimpse (s t : Session) : Glimpse where
  finished := t.results.drop s.results.length
  connects := t.gate.connects
  state := t.gate.state
  received := t.link.received
  metrics := t.metrics

/-- What the steps of a session show, one after the other. -/
def transcript (s : Session) : List Event → List (Event × Glimpse)
  | [] => []
  | e :: events => (e, s.glimpse (s.apply e)) :: (s.apply e).transcript events

/-! ## Results are only added -/

/-- An operation adds some results, and takes no notice of those that are there. -/
def Appends (f : Session → Session) : Prop :=
  ∀ s, ∃ added, ∀ results, f (s.withResults results) = (f s).withResults (results ++ added)

theorem appends_of_commutes {f : Session → Session}
    (h : ∀ s results, f (s.withResults results) = (f s).withResults results) : Appends f := by
  intro s
  refine ⟨[], fun results => ?_⟩
  rw [h, List.append_nil]

theorem Appends.comp {f g : Session → Session} (hf : Appends f) (hg : Appends g) :
    Appends fun s => g (f s) := by
  intro s
  obtain ⟨added, hadded⟩ := hf s
  obtain ⟨added', hadded'⟩ := hg (f s)
  refine ⟨added ++ added', fun results => ?_⟩
  show g (f (s.withResults results)) = (g (f s)).withResults (results ++ (added ++ added'))
  rw [hadded, hadded', List.append_assoc]

theorem appends_foldl {α : Type} {f : Session → α → Session} (h : ∀ a, Appends fun s => f s a)
    (as : List α) : Appends fun s => as.foldl f s := by
  induction as with
  | nil => exact appends_of_commutes fun s results => rfl
  | cons a as ih => exact (h a).comp ih

theorem appends_finish (call : Nat) (r : Except FsError Value) : Appends fun s => s.finish call r := by
  intro s
  refine ⟨[(call, r)], fun results => ?_⟩
  rfl

theorem appends_occur (e : Event) : Appends fun s => s.occur e := by
  cases e with
  | change call c => exact appends_finish call (.error c.refusal)
  | _ => exact appends_of_commutes fun s results => rfl

theorem appends_connect : Appends connect := by
  refine appends_of_commutes fun s results => ?_
  have hopen : (s.withResults results).openChannel = s.openChannel.withResults results := by
    unfold openChannel
    simp only [withResults]
    split <;> rfl
  cases hready : s.canConnect with
  | false => rw [connect_of_false hready, connect_of_false (s := s.withResults results) hready]
  | true => rw [connect_of_true hready, connect_of_true (s := s.withResults results) hready, hopen]

theorem appends_hear (caller : Caller) (reply : Channel.Result) :
    Appends fun s => s.hear caller reply := by
  cases caller with
  | introduction =>
    -- the opening looks at no results
    refine appends_of_commutes fun s results => ?_
    unfold hear
    cases Handshake.accept reply <;> rfl
  | confirmation => exact appends_of_commutes fun s results => rfl
  | read call =>
    intro s
    show ∃ added, ∀ results, (s.withResults results).hear (.read call) reply =
      (s.hear (.read call) reply).withResults (results ++ added)
    -- the answer to a read that is over changes nothing; any other one adds a result
    cases hlookup : s.reads.lookup call with
    | none =>
      refine ⟨[], fun results => ?_⟩
      rw [hear_read_of_none hlookup, hear_read_of_none (s := s.withResults results) hlookup,
        List.append_nil]
    | some r =>
      refine ⟨[(call, if s.statErrorsAsNotFound then r.folded (r.result reply) else r.result reply)],
        fun results => ?_⟩
      rw [hear_read_of_some hlookup, hear_read_of_some (s := s.withResults results) hlookup]
      rfl

theorem appends_exchange : Appends exchange := by
  intro s
  have hhear := appends_foldl (fun r : Caller × Channel.Result => appends_hear r.1 r.2)
    s.link.settle.collect.2
  exact hhear (s.withLink s.link.settle.collect.1)

theorem appends_proceed (call : Nat) (verdict : Except FsError Unit) :
    Appends fun s => s.proceed call verdict := by
  intro s
  show ∃ added, ∀ results, (s.withResults results).proceed call verdict =
    (s.proceed call verdict).withResults (results ++ added)
  cases hlookup : s.reads.lookup call with
  | none =>
    refine ⟨[], fun results => ?_⟩
    rw [proceed_of_none hlookup, proceed_of_none (s := s.withResults results) hlookup, List.append_nil]
  | some r =>
    cases verdict with
    | ok _ =>
      refine ⟨[], fun results => ?_⟩
      rw [proceed_of_ok hlookup, proceed_of_ok (s := s.withResults results) hlookup, List.append_nil]
      rfl
    | error e =>
      refine ⟨[(call, .error e)], fun results => ?_⟩
      rw [proceed_of_error hlookup, proceed_of_error (s := s.withResults results) hlookup]
      rfl

theorem appends_letThrough : Appends letThrough := by
  intro s
  cases houtcome : s.gate.outcome with
  | none =>
    refine ⟨[], fun results => ?_⟩
    rw [letThrough_of_none houtcome, letThrough_of_none (s := s.withResults results) houtcome,
      List.append_nil]
  | some r =>
    have hproceed := appends_foldl
      (fun a : Nat × Except FsError Unit => appends_proceed a.1 a.2)
      (s.gate.waiting.map fun c => (c, Gate.verdict r))
    obtain ⟨added, hadded⟩ := hproceed s.emptied
    refine ⟨added, fun results => ?_⟩
    rw [letThrough_of_some houtcome, letThrough_of_some (s := s.withResults results) houtcome]
    exact hadded results

/-- A step adds the results of the calls that it ends to those of before. -/
theorem appends_apply (e : Event) : Appends fun s => s.apply e :=
  (appends_occur e).comp
    (appends_connect.comp (appends_exchange.comp (appends_exchange.comp
      (appends_letThrough.comp appends_exchange))))

/-! ## Changes -/

/-- A session at rest refuses a change and does nothing else. -/
theorem apply_change {s : Session} (h : s.Settled) (call : Nat) (c : Change) :
    s.apply (.change call c) = s.finish call (.error c.refusal) := by
  have hfinished : (s.finish call (.error c.refusal)).Settled := ⟨h.calm, h.connected, h.passed⟩
  exact settle_of_settled hfinished

theorem apply_watching {s : Session} (h : s.Settled) (w : Watching) : s.apply (.watching w) = s :=
  settle_of_settled h

/-- Whatever a session has finished, an inert event changes nothing but that. -/
theorem apply_inert {s : Session} (h : s.Settled) {e : Event} (he : e.isInert = true) :
    ∃ results, s.apply e = s.withResults results := by
  cases e with
  | change call c => exact ⟨_, apply_change h call c⟩
  | watching w => exact ⟨s.results, apply_watching h w⟩
  | _ => cases he

/-- A step shows the same whatever was finished before. -/
theorem glimpse_withResults (s : Session) (e : Event) (results : List (Nat × Except FsError Value)) :
    ∃ results', (s.withResults results).apply e = (s.apply e).withResults results' ∧
      (s.withResults results).glimpse ((s.withResults results).apply e) = s.glimpse (s.apply e) := by
  obtain ⟨added, hadded⟩ := appends_apply e s
  have happly : s.apply e = (s.apply e).withResults (s.results ++ added) := hadded s.results
  have hresults : (s.apply e).results = s.results ++ added := congrArg Session.results happly
  refine ⟨results ++ added, hadded results, ?_⟩
  have hother : (s.withResults results).apply e = (s.apply e).withResults (results ++ added) :=
    hadded results
  rw [hother]
  simp only [glimpse, withResults, hresults, List.drop_left]

/-- Without its inert events, a session shows the same in all others. -/
theorem transcript_erase {s : Session} (hs : s.Coherent [] ∧ s.Settled) (events : List Event)
    (results : List (Nat × Except FsError Value)) :
    (s.transcript events).filter (fun p => !p.1.isInert) =
      (s.withResults results).transcript (events.filter fun e => !e.isInert) := by
  induction events generalizing s results with
  | nil => rfl
  | cons e events ih =>
    have hnext : (s.apply e).Coherent [] ∧ (s.apply e).Settled := settled_settle (coherent_occur hs.1 e)
    rw [transcript]
    -- the results drift apart with each change, which is why they are arbitrary in the induction
    cases he : e.isInert with
    | true =>
      obtain ⟨results', happly⟩ := apply_inert hs.2 he
      rw [List.filter_cons_of_neg (by simp [he]), List.filter_cons_of_neg (by simp [he]), ih hnext results,
        happly]
      rfl
    | false =>
      obtain ⟨results', happly, hglimpse⟩ := glimpse_withResults s e results
      rw [List.filter_cons_of_pos (by simp [he]), List.filter_cons_of_pos (by simp [he]), transcript,
        hglimpse, happly, ih hnext results']

theorem foldl_erase {s : Session} (hs : s.Coherent [] ∧ s.Settled) (events : List Event)
    (results : List (Nat × Except FsError Value)) :
    ∃ results', (events.filter fun e => !e.isInert).foldl apply (s.withResults results) =
      (events.foldl apply s).withResults results' := by
  induction events generalizing s results with
  | nil => exact ⟨results, rfl⟩
  | cons e events ih =>
    have hnext : (s.apply e).Coherent [] ∧ (s.apply e).Settled := settled_settle (coherent_occur hs.1 e)
    rw [List.foldl_cons]
    cases he : e.isInert with
    | true =>
      obtain ⟨results', happly⟩ := apply_inert hs.2 he
      obtain ⟨results'', hrest⟩ := ih hnext results
      refine ⟨results'', ?_⟩
      rw [List.filter_cons_of_neg (by simp [he]), ← hrest, happly]
      rfl
    | false =>
      obtain ⟨results', happly, -⟩ := glimpse_withResults s e results
      obtain ⟨results'', hrest⟩ := ih hnext results'
      refine ⟨results'', ?_⟩
      rw [List.filter_cons_of_pos (by simp [he]), List.foldl_cons, happly, hrest]

/-! ## The session as a whole -/

/-- Changes are refused at once, each with its operation and with what it would have changed, and they leave
no trace: neither do those who watch. -/
structure Unchangeable (start : Session) (events : List Event) : Prop where
  createDirectory : ∀ call url,
    (events.foldl apply start).apply (.change call (.createDirectory url)) =
      (events.foldl apply start).finish call (.error (.readOnly "create directory" url.toRemote))
  writeFile : ∀ call url content create overwrite,
    (events.foldl apply start).apply (.change call (.writeFile url content create overwrite)) =
      (events.foldl apply start).finish call (.error (.readOnly "write" url.toRemote))
  delete : ∀ call url recursive,
    (events.foldl apply start).apply (.change call (.delete url recursive)) =
      (events.foldl apply start).finish call (.error (.readOnly "delete" url.toRemote))
  rename : ∀ call source target overwrite,
    (events.foldl apply start).apply (.change call (.rename source target overwrite)) =
      (events.foldl apply start).finish call (.error (.readOnly "rename" source.toRemote))
  /-- Every other step shows the same without them. -/
  unseen : (start.transcript events).filter (fun p => !p.1.isInert) =
    start.transcript (events.filter fun e => !e.isInert)
  /-- The session is the same without them in all but its results. -/
  untouched : (events.foldl apply start).withResults [] =
    ((events.filter fun e => !e.isInert).foldl apply start).withResults []

/-- No session can be changed, or watched, whatever its connector and whoever answers it: changes and those
who watch do nothing but fail, even while others wait or have left. -/
theorem changes_inert {link : Link Caller} (hlink : link.Fresh) (connector : Connector)
    (statErrorsAsNotFound : Bool) (processId : Nat) (events : List Event) :
    Unchangeable (new connector link statErrorsAsNotFound processId) events := by
  have hstart := settled_run hlink connector statErrorsAsNotFound processId []
  have hs := settled_run hlink connector statErrorsAsNotFound processId events
  exact {
    createDirectory := fun call url => apply_change hs.2 call (.createDirectory url)
    writeFile := fun call url content create overwrite =>
      apply_change hs.2 call (.writeFile url content create overwrite)
    delete := fun call url recursive => apply_change hs.2 call (.delete url recursive)
    rename := fun call source target overwrite =>
      apply_change hs.2 call (.rename source target overwrite)
    unseen := transcript_erase hstart events []
    untouched := by
      obtain ⟨results, hsame⟩ := foldl_erase hstart events []
      exact (congrArg (fun s => s.withResults []) hsame).symm }

/-- A connector that is held, a read that waits for it, and a directory that is not moved. -/
theorem changes_inert_held :
    let link : Link Caller := .ofServer (.constant .null) none
    let u : Url := ⟨"lsif", none, false, .segments ["a"], none, none⟩
    let v : Url := ⟨"lsif", none, false, .segments ["b"], none, none⟩
    let start := new ⟨true, .opens (some "c")⟩ link false 1
    link.Fresh ∧
      (([.read 0 ⟨.statFile, u⟩].foldl apply start).apply (.change 1 (.rename u v true))).results =
        [(1, .error (.readOnly "rename" "lsif:/a"))] := by
  intro link u v start
  have hfresh : link.Fresh := .framed (.constant .null) none
  have hrename := (changes_inert hfresh ⟨true, .opens (some "c")⟩ false 1
    [.read 0 ⟨.statFile, u⟩]).rename 1 u v true
  refine ⟨hfresh, ?_⟩
  rw [hrename]
  rfl

end Session

end IndexFs.FileSystem

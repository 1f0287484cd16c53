import IndexFs.Proofs.Channel.Ids

/-!
# Other calls

What happens to one call leaves what a session holds of every other call (`SameFor`): the entry under its
id, the answer that waits for its frame, and its result.
-/

namespace IndexFs.Channel.Session

variable {Call : Type}

section

variable [DecidableEq Call]

/-- Two sessions hold the same of a call, apart from its frame. -/
structure SameFor (call : Call) (s t : Session Call) : Prop where
  pending : (t.pending.filter fun e => e.2 = call) = s.pending.filter fun e => e.2 = call
  answered : (t.answered.filter fun e => e.1 = call) = s.answered.filter fun e => e.1 = call
  results : (t.results.filter fun e => e.1 = call) = s.results.filter fun e => e.1 = call

/-- A session holds the same of a call as itself. -/
theorem SameFor.refl (call : Call) (s : Session Call) : SameFor call s s :=
  ⟨rfl, rfl, rfl⟩

/-- What is the same over two steps is the same over both. -/
theorem SameFor.trans {call : Call} {s t u : Session Call} (hst : SameFor call s t)
    (htu : SameFor call t u) : SameFor call s u :=
  ⟨htu.pending.trans hst.pending, htu.answered.trans hst.answered, htu.results.trans hst.results⟩

/-- It does not matter which of the two sessions comes first. -/
theorem SameFor.symm {call : Call} {s t : Session Call} (h : SameFor call s t) : SameFor call t s :=
  ⟨h.pending.symm, h.answered.symm, h.results.symm⟩

end

/-! ## Parts of lists -/

/-- What passes a filter is in a list if and only if it is in the part of the list that passes. -/
theorem mem_iff_mem_filter {α : Type} {p : α → Bool} {a : α} (ha : p a = true) (l : List α) :
    a ∈ l ↔ a ∈ l.filter p := by
  rw [List.mem_filter]
  exact (and_iff_left ha).symm

/-- Two lists with the same part keep it when the same things are appended to both. -/
theorem filter_append_congr {α : Type} {p : α → Bool} {l l' : List α} (h : l'.filter p = l.filter p)
    (k : List α) : (l' ++ k).filter p = (l ++ k).filter p := by
  rw [List.filter_append, List.filter_append, h]

/-- Two lists with the same part keep it when the same things are taken out of both. -/
theorem filter_filter_congr {α : Type} {p : α → Bool} {l l' : List α} (h : l'.filter p = l.filter p)
    (q : α → Bool) : (l'.filter q).filter p = (l.filter q).filter p := by
  rw [List.filter_comm, h, List.filter_comm]

/-- A filter that lets a part of a list pass takes nothing out of that part. -/
theorem filter_filter_of_imp {α : Type} {p q : α → Bool} {l : List α}
    (h : ∀ a ∈ l, q a = true → p a = true) : (l.filter p).filter q = l.filter q := by
  rw [List.filter_filter]
  refine List.filter_congr fun a ha => ?_
  cases hq : q a with
  | true => rw [h a ha hq, Bool.and_self]
  | false => rw [Bool.false_and]

/-- What is found under a key is in the list, with the key. -/
theorem mem_of_lookup {α β : Type} [DecidableEq α] {l : List (α × β)} {a : α} {b : β}
    (h : l.lookup a = some b) : (a, b) ∈ l := by
  obtain ⟨first, later, rfl, -⟩ := List.lookup_eq_some_iff.mp h
  exact List.mem_append_right _ List.mem_cons_self

/-! ## The call that has an id -/

/-- What makes a value a response. -/
theorem of_eq_response {m : Json} {n : Int} {r : Result} (h : Incoming.of m = .response n r) :
    (m.get? "id").bind Json.signed? = some n ∧ (m.get? "method").bind Json.string? = none ∧
      r = Message.outcome m := by
  unfold Incoming.of at h
  split at h
  · cases h
  · next v hmethod hv =>
    split at h
    · next k hk =>
      cases h
      rw [hv]
      exact ⟨hk, hmethod, rfl⟩
    · cases h
  · cases h

/-- The call that has an id is pending under it. -/
theorem mem_of_pendingCall? {s : Session Call} {n : Int} {call : Call}
    (h : s.pendingCall? n = some call) : ∃ id : Nat, (id : Int) = n ∧ (id, call) ∈ s.pending := by
  obtain ⟨p, hp, rfl⟩ := Option.map_eq_some_iff.mp h
  exact ⟨p.1, by simpa using List.find?_some hp, List.mem_of_find?_eq_some hp⟩

/-- A pending call is found under its id, since no other call has the same one. -/
theorem pendingCall?_eq_some {s : Session Call} (hnum : s.Numbered) {id : Nat} {call : Call}
    (h : (id, call) ∈ s.pending) : s.pendingCall? id = some call := by
  cases hcall : s.pendingCall? id with
  | none =>
    have := List.find?_eq_none.mp (Option.map_eq_none_iff.mp hcall) _ h
    simp at this
  | some c =>
    obtain ⟨n, hn, hmem⟩ := mem_of_pendingCall? hcall
    cases Int.ofNat.inj hn
    rw [hnum.eq_of_mem hmem h]

/-! ## Changes to other calls -/

variable [DecidableEq Call]

/-- The first answer of a call is the first one among the answers of the call. -/
theorem lookup_eq (call : Call) (l : List (Call × Result)) :
    l.lookup call = ((l.filter fun e => e.1 = call).head?).map (·.2) := by
  induction l with
  | nil => rfl
  | cons e l ih =>
    obtain ⟨c, r⟩ := e
    by_cases hcall : call = c
    · simp [hcall]
    · have hother : c ≠ call := fun h => hcall h.symm
      have hne : (call == c) = false := beq_eq_false_iff_ne.mpr hcall
      rw [List.filter_cons_of_neg (by simpa using hother), ← ih, List.lookup_cons, hne]

/-- A result that both sessions add does not tell them apart. -/
theorem SameFor.finish {call : Call} {s t : Session Call} (h : SameFor call s t) (c : Call) (r : Result) :
    SameFor call (s.finish c r) (t.finish c r) :=
  ⟨h.pending, h.answered, filter_append_congr h.results _⟩

/-- A result of one call leaves every other call as it is. -/
theorem finish_other {call c : Call} (hc : c ≠ call) (s : Session Call) (r : Result) :
    SameFor call s (s.finish c r) := by
  refine ⟨rfl, rfl, ?_⟩
  show (s.results ++ [(c, r)]).filter _ = _
  rw [List.filter_append]
  simp [hc]

/-- An answer to one call leaves every other call as it is, also where it waits for the frame. -/
theorem deliver_other {call c : Call} (hc : c ≠ call) (s : Session Call) (r : Result) :
    SameFor call s (s.deliver c r) := by
  unfold deliver
  split
  · refine ⟨rfl, ?_, rfl⟩
    rw [List.filter_append]
    simp [hc]
  · exact finish_other hc s r

/-- To drop the answers of one call leaves those of every other call in the list. -/
theorem dropAnswer_other {call c : Call} (hc : c ≠ call) (l : List (Call × Result)) :
    ((l.filter fun a => a.1 ≠ c).filter fun e => e.1 = call) = l.filter fun e => e.1 = call := by
  refine filter_filter_of_imp fun a _ ha => ?_
  rw [of_decide_eq_true ha]
  exact decide_eq_true (Ne.symm hc)

/-- A call that starts leaves every other call as it is. -/
theorem request_other {call c : Call} (hc : c ≠ call) (s : Session Call) (method : String)
    (params : Json) : SameFor call s (s.request c method params) := by
  simp only [request]
  split
  · refine SameFor.trans ?_ (finish_other hc _ _)
    exact ⟨rfl, rfl, rfl⟩
  · refine ⟨?_, rfl, rfl⟩
    rw [List.filter_append]
    simp [hc]

/-- A notification that starts leaves every other call as it is. -/
theorem notify_other {call c : Call} (hc : c ≠ call) (s : Session Call) (method : String)
    (params : Json) : SameFor call s (s.notify c method params) := by
  unfold notify
  split
  · exact finish_other hc s _
  · exact ⟨rfl, rfl, rfl⟩

/-- To cancel a call takes its own frames out of the queue, and none that comes from elsewhere. -/
theorem map_cancel_queue (s : Session Call) (c : Call) :
    (s.cancel c).queue.map (·.origin) =
      (s.queue.map (·.origin)).filter fun o => !Origin.belongsTo c o := by
  rw [List.filter_map]
  rfl

/-- To cancel one call leaves every other call as it is. -/
theorem cancel_other {call c : Call} (hc : c ≠ call) (s : Session Call) :
    SameFor call s (s.cancel c) := by
  refine ⟨?_, dropAnswer_other hc s.answered, rfl⟩
  refine filter_filter_of_imp fun a _ ha => ?_
  rw [of_decide_eq_true ha]
  exact decide_eq_true (Ne.symm hc)

/-- The end of a write leaves every call as it is that neither owns the frame nor is pending under its id.
-/
theorem written_other {call : Call} {s : Session Call} {origin : Origin Call}
    (horigin : Origin.belongsTo call origin = false)
    (howner : ∀ id c, origin = .request id c → (id, call) ∉ s.pending)
    (r : Except ChannelError Unit) : SameFor call s (s.written origin r) := by
  cases origin with
  | request id c =>
    have hc : c ≠ call := of_decide_eq_false horigin
    have hanswered := dropAnswer_other hc s.answered
    cases r with
    | ok _ =>
      simp only [written, requestWritten]
      split
      · refine SameFor.trans ?_ (finish_other hc _ _)
        exact ⟨rfl, hanswered, rfl⟩
      · exact SameFor.refl call s
    | error e =>
      refine SameFor.trans ?_ (finish_other hc _ _)
      -- a failed write takes its entry out again, which is under an id that the call does not have
      refine ⟨?_, hanswered, rfl⟩
      refine filter_filter_of_imp fun a ha hcall => ?_
      have hmem : (a.1, call) ∈ s.pending := by
        rw [← of_decide_eq_true hcall]
        exact ha
      have : a.1 ≠ id := fun hid => howner id c rfl (hid ▸ hmem)
      simpa using this
  | notification c => exact finish_other (of_decide_eq_false horigin) s _
  | rejection => exact ⟨rfl, rfl, rfl⟩

/-- A message that is no response to a call leaves it as it is. -/
theorem dispatch_other {call : Call} {s : Session Call} (hnum : s.Numbered) {m : Json}
    (hm : ∀ id r, (id, call) ∈ s.pending → Incoming.of m ≠ .response id r) :
    SameFor call s (s.dispatch m) := by
  unfold dispatch
  split
  · next n r hincoming =>
    cases hcall : s.pendingCall? n with
    | none => exact SameFor.refl call s
    | some c =>
      obtain ⟨id, rfl, hmem⟩ := mem_of_pendingCall? hcall
      have hc : c ≠ call := by
        rintro rfl
        exact hm id r hmem hincoming
      -- the entry that is taken out is the one under the id, and ids are not shared
      refine SameFor.trans ?_ (deliver_other hc _ r)
      refine ⟨?_, rfl, rfl⟩
      refine filter_filter_of_imp fun a ha hcall' => ?_
      have hmem' : (a.1, call) ∈ s.pending := by
        rw [← of_decide_eq_true hcall']
        exact ha
      have : a.1 ≠ id := fun hid => hc (hnum.eq_of_mem hmem (hid ▸ hmem'))
      exact decide_eq_true fun heq => this (Int.ofNat.inj heq)
  · exact ⟨rfl, rfl, rfl⟩
  · exact SameFor.refl call s

/-- Of what closing gives out, a call gets what it is owed: as many results as entries, or none. -/
theorem filter_closed (ps : List (Nat × Call)) (call : Call) (f : Call → Bool) (r : Result) :
    ((ps.filter fun p => f p.2).map fun p => (p.2, r)).filter (fun e => e.1 = call) =
      if f call then (ps.filter fun p => p.2 = call).map fun p => (p.2, r) else [] := by
  rw [List.filter_map, List.filter_filter]
  cases hf : f call with
  | true =>
    rw [if_pos rfl]
    congr 1
    refine List.filter_congr fun p _ => ?_
    by_cases hp : p.2 = call
    · simp [hp, hf]
    · simp [hp]
  | false =>
    rw [if_neg Bool.false_ne_true, List.map_eq_nil_iff, List.filter_eq_nil_iff]
    intro p _ hp
    rw [Bool.and_eq_true] at hp
    have hcall : p.2 = call := of_decide_eq_true hp.1
    rw [hcall, hf] at hp
    exact Bool.false_ne_true hp.2

end IndexFs.Channel.Session

import IndexFs.Frame.Sink
import IndexFs.Proofs.Frame.Stream

/-!
# Streams that break while they are written to

A stream takes a number of bytes, in pieces of any size, and fails from then on. What is written to it is then cut
off behind that number (`Cut`): a write that follows another one goes on where it stopped, so that a frame is cut as
a whole, header and body. Of several messages, exactly those are reported as written whose frames were taken as a
whole, and each other one with what the stream said to the call in which it failed (`Sink.writeMessages_cut`).
-/

namespace IndexFs.Frame

variable {State : Type}

namespace Sink

/-! ## The stream -/

/-- The stream fails a call and says so, or it takes nothing. -/
inductive Refuses (w : Sink State) (s : State) (bs : List UInt8) : String → State → Prop where
  | error {message : String} {t : State} (h : w.write s bs = (.error message, t)) : Refuses w s bs message t
  | zero {t : State} (h : w.write s bs = (.ok 0, t)) : Refuses w s bs "write zero" t

/-- By calls that succeed the stream gets from one state to another, and takes the bytes. -/
inductive Takes (w : Sink State) : State → List UInt8 → State → Prop where
  | nil (s : State) : Takes w s [] s
  | write {s t u : State} {bs taken : List UInt8} {n : Nat} (h : w.write s bs = (.ok n, t)) (hn : 0 < n)
      (hmore : Takes w t taken u) : Takes w s (bs.take n ++ taken) u
  | flush {s t u : State} {taken : List UInt8} (h : w.flush s = (.ok (), t)) (hmore : Takes w t taken u) :
      Takes w s taken u

/-- A write fails in one of its calls: the stream has taken the first of the bytes, and of those behind them it is
given some and refuses them, with the message. This call leaves it in the last state. -/
inductive Fails (w : Sink State) (s : State) (bs taken : List UInt8) (message : String) (u : State) : Prop where
  | call {t : State} {more : List UInt8} (htakes : w.Takes s taken t) (hmore : more ≠ [])
      (hnext : taken ++ more <+: bs) (hrefuses : w.Refuses t more message u)

/-- The stream takes a number of bytes, at least one in each call, and fails every call after these. -/
structure Breaks (w : Sink State) (left : State → Nat) : Prop where
  takes : ∀ s bs, bs ≠ [] → 0 < left s →
    ∃ n t, w.write s bs = (.ok n, t) ∧ 0 < n ∧ n ≤ bs.length ∧ left s = n + left t
  fails : ∀ s bs, bs ≠ [] → left s = 0 → ∃ message t, w.Refuses s bs message t ∧ left t = 0
  flushes : ∀ s, ∃ t, w.flush s = (.ok (), t) ∧ left t = left s

theorem Takes.trans {w : Sink State} {s t u : State} {bs bs' : List UInt8} (h : w.Takes s bs t)
    (h' : w.Takes t bs' u) : w.Takes s (bs ++ bs') u := by
  induction h with
  | nil => exact h'
  | write hwrite hn _ ih =>
    rw [List.append_assoc]
    exact .write hwrite hn (ih h')
  | flush hflush _ ih => exact .flush hflush (ih h')

/-- Bytes that were taken before a write that fails are taken before the call in which it fails. -/
theorem Fails.after {w : Sink State} {s t u : State} {bs bs' taken : List UInt8} {message : String}
    (htakes : w.Takes s bs t) (h : w.Fails t bs' taken message u) : w.Fails s (bs ++ bs') (bs ++ taken) message u := by
  obtain ⟨htakes', hmore, hnext, hrefuses⟩ := h
  refine .call (htakes.trans htakes') hmore ?_ hrefuses
  rw [List.append_assoc]
  exact (List.prefix_append_right_inj bs).mpr hnext

theorem Fails.mono {w : Sink State} {s u : State} {bs taken : List UInt8} {message : String}
    (h : w.Fails s bs taken message u) (bs' : List UInt8) : w.Fails s (bs ++ bs') taken message u := by
  obtain ⟨htakes, hmore, hnext, hrefuses⟩ := h
  exact .call htakes hmore (hnext.trans (List.prefix_append bs bs')) hrefuses

theorem Breaks.left_eq_zero {w : Sink State} {left : State → Nat} (h : w.Breaks left) {s t : State}
    {bs : List UInt8} {message : String} (hbs : bs ≠ []) (hrefuses : w.Refuses s bs message t) : left s = 0 := by
  by_contra hne
  obtain ⟨n, u, htakes, hn, -⟩ := h.takes s bs hbs (Nat.pos_of_ne_zero hne)
  cases hrefuses with
  | error hwrite =>
    rw [htakes] at hwrite
    cases hwrite
  | zero hwrite =>
    rw [htakes] at hwrite
    cases hwrite
    exact Nat.lt_irrefl 0 hn

/-! ## One write -/

/-- What becomes of bytes that are written: all of them are taken, or, if they are too many, those that the stream
still takes. -/
inductive Cut (w : Sink State) (left : State → Nat) (s : State) (bs : List UInt8) : Written State → Prop where
  | whole {t : State} (htakes : w.Takes s bs t) (hleft : left s = bs.length + left t) : Cut w left s bs ⟨bs, .ok (), t⟩
  | torn {message : String} {t : State} (hmore : left s < bs.length)
      (hfails : w.Fails s bs (bs.take (left s)) message t) (hleft : left t = 0) :
      Cut w left s bs ⟨bs.take (left s), .error (.io message), t⟩

variable {w : Sink State} {left : State → Nat} {s : State} {bs : List UInt8} {r : Written State}

/-- Bytes that are written one after the other are cut like all of them at once. -/
theorem Cut.andThen {bs' : List UInt8} {next : State → Written State} (h : Cut w left s bs r)
    (hnext : ∀ t, Cut w left t bs' (next t)) : Cut w left s (bs ++ bs') (r.andThen next) := by
  cases h with
  | @whole t htakes hleft =>
    have hthen : Written.andThen ⟨bs, .ok (), t⟩ next = { next t with taken := bs ++ (next t).taken } := rfl
    rw [hthen]
    have hmore := hnext t
    generalize next t = r at hmore ⊢
    cases hmore with
    | @whole u htakes' hleft' =>
      have hboth : left s = (bs ++ bs').length + left u := by
        rw [List.length_append, hleft, hleft', Nat.add_assoc]
      exact .whole (htakes.trans htakes') hboth
    | torn hmore hfails hleft' =>
      -- what the stream still takes is behind the bytes before
      have htaken : bs ++ bs'.take (left t) = (bs ++ bs').take (left s) := by
        rw [hleft, List.take_length_add_append]
      have hboth := hfails.after htakes
      rw [htaken] at hboth
      simp only [htaken]
      refine .torn ?_ hboth hleft'
      rw [List.length_append]
      omega
  | @torn message t hmore hfails hleft =>
    have htaken : bs.take (left s) = (bs ++ bs').take (left s) :=
      (List.take_append_of_le_length (Nat.le_of_lt hmore)).symm
    have hthen : Written.andThen ⟨bs.take (left s), .error (.io message), t⟩ next =
        ⟨(bs ++ bs').take (left s), .error (.io message), t⟩ := by
      rw [← htaken]
      rfl
    rw [hthen]
    refine .torn ?_ (htaken ▸ hfails.mono bs') hleft
    rw [List.length_append]
    omega

theorem Cut.taken (h : Cut w left s bs r) : r.taken = bs.take (left s) := by
  cases h with
  | whole _ hleft =>
    rw [List.take_of_length_le]
    omega
  | torn => rfl

theorem Cut.left_state (h : Cut w left s bs r) : left r.state = left s - bs.length := by
  cases h with
  | @whole t _ hleft =>
    show left t = left s - bs.length
    omega
  | @torn message t hmore _ hleft =>
    show left t = left s - bs.length
    omega

theorem Cut.result_ok_iff (h : Cut w left s bs r) : r.result = .ok () ↔ bs.length ≤ left s := by
  cases h with
  | whole _ hleft =>
    constructor
    · intro
      omega
    · intro
      rfl
  | torn hmore =>
    constructor
    · intro hok
      cases hok
    · intro hfits
      exact absurd hfits (Nat.not_le.mpr hmore)

/-- A write that fails is reported with what the stream said to the call in which it failed. -/
theorem Cut.exists_error (h : Cut w left s bs r) (hfailed : r.result ≠ .ok ()) :
    ∃ message, w.Fails s bs r.taken message r.state ∧ r.result = .error (.io message) := by
  cases h with
  | whole => exact absurd rfl hfailed
  | torn _ hfails => exact ⟨_, hfails, rfl⟩

/-- A write is reported as a success exactly if all its bytes were taken. -/
theorem Cut.result_ok_iff_taken (h : Cut w left s bs r) : r.result = .ok () ↔ r.taken = bs := by
  rw [h.result_ok_iff, h.taken]
  constructor
  · exact List.take_of_length_le
  · intro htaken
    have hlength := congrArg List.length htaken
    rw [List.length_take] at hlength
    omega

theorem Breaks.writeAll (h : w.Breaks left) (s : State) (bs : List UInt8) : Cut w left s bs (w.writeAll s bs) := by
  -- each call leaves fewer bytes, wherever it stops
  induction hn : bs.length using Nat.strong_induction_on generalizing s bs with
  | _ n ih =>
    cases bs with
    | nil =>
      rw [Sink.writeAll]
      exact .whole (.nil s) (Nat.zero_add _).symm
    | cons b bs =>
      have hne : b :: bs ≠ [] := List.cons_ne_nil b bs
      rcases Nat.eq_zero_or_pos (left s) with hzero | hpos
      · -- the stream has failed before, or fails now
        obtain ⟨message, t, hrefuses, hleft⟩ := h.fails s (b :: bs) hne hzero
        have hfails : w.Fails s (b :: bs) ((b :: bs).take (left s)) message t := by
          rw [hzero]
          exact .call (.nil s) hne (List.prefix_refl _) hrefuses
        have hmore : left s < (b :: bs).length := by
          rw [hzero]
          exact Nat.zero_lt_succ _
        have hall : w.writeAll s (b :: bs) = ⟨(b :: bs).take (left s), .error (.io message), t⟩ := by
          rw [Sink.writeAll, hzero, List.take_zero]
          cases hrefuses with
          | error hwrite => rw [hwrite]
          | zero hwrite => rw [hwrite]
        rw [hall]
        exact .torn hmore hfails hleft
      · -- some of the bytes are taken, and the rest goes on from there
        obtain ⟨k, t, hwrite, hk, hle, hleft⟩ := h.takes s (b :: bs) hne hpos
        obtain ⟨k, rfl⟩ := Nat.exists_eq_succ_of_ne_zero (Nat.ne_of_gt hk)
        have htakes : w.Takes s ((b :: bs).take (k + 1)) t := by
          rw [← List.append_nil ((b :: bs).take (k + 1))]
          exact .write hwrite hk (.nil t)
        have hfirst : Cut w left s ((b :: bs).take (k + 1)) ⟨(b :: bs).take (k + 1), .ok (), t⟩ := by
          refine .whole htakes ?_
          rw [List.length_take, Nat.min_eq_left hle]
          exact hleft
        have hrest : ∀ t, Cut w left t (bs.drop k) (w.writeAll t (bs.drop k)) := by
          intro t
          refine ih _ ?_ t (bs.drop k) rfl
          rw [← hn, List.length_drop, List.length_cons]
          omega
        have hparts : (b :: bs).take (k + 1) ++ bs.drop k = b :: bs := List.take_append_drop (k + 1) (b :: bs)
        have hall := hfirst.andThen hrest
        rw [hparts] at hall
        rw [Sink.writeAll, hwrite]
        exact hall

theorem Breaks.finish (h : w.Breaks left) (s : State) : Cut w left s [] (w.finish s) := by
  obtain ⟨t, hflush, hleft⟩ := h.flushes s
  rw [Sink.finish, hflush]
  refine .whole (.flush hflush (.nil t)) ?_
  rw [hleft]
  exact (Nat.zero_add _).symm

/-- The frame of a message is cut as a whole, although its header and its body are written one after the other. -/
theorem Breaks.writeMessage (h : w.Breaks left) (s : State) (v : Json) :
    Cut w left s (bytes v) (w.writeMessage s v) := by
  have hheader := h.writeAll s (Utf8.encode (header v.bytes.length))
  have hframe := (hheader.andThen fun t => h.writeAll t v.bytes).andThen h.finish
  rw [List.append_nil] at hframe
  exact hframe

/-! ## Several messages -/

theorem length_writeMessages (w : Sink State) (s : State) (vs : List Json) :
    (w.writeMessages s vs).length = vs.length := by
  induction vs generalizing s with
  | nil => rfl
  | cons v vs ih => rw [writeMessages, List.length_cons, List.length_cons, ih]

theorem Breaks.flatMap_writeMessages (h : w.Breaks left) (s : State) (vs : List Json) :
    (w.writeMessages s vs).flatMap (·.1) = (frames vs).take (left s) := by
  induction vs generalizing s with
  | nil => rw [writeMessages, List.flatMap_nil, frames_nil, List.take_nil]
  | cons v vs ih =>
    have hv := h.writeMessage s v
    rw [writeMessages, List.flatMap_cons, ih, hv.taken, hv.left_state, frames_cons, List.take_append]

/-- The state in which messages leave the stream. -/
def after (w : Sink State) (s : State) (vs : List Json) : State :=
  vs.foldl (fun s v => (w.writeMessage s v).state) s

theorem after_take_succ (w : Sink State) (s : State) (vs : List Json) {i : Nat} (hi : i < vs.length) :
    w.after s (vs.take (i + 1)) = (w.writeMessage (w.after s (vs.take i)) vs[i]).state := by
  unfold after
  rw [List.take_succ_eq_append_getElem hi, List.foldl_append]
  rfl

/-- Each message is written from the state in which those before it leave the stream. -/
theorem getElem?_writeMessages (w : Sink State) (s : State) (vs : List Json) {i : Nat} (hi : i < vs.length) :
    (w.writeMessages s vs)[i]? =
      some ((w.writeMessage (w.after s (vs.take i)) vs[i]).taken,
        (w.writeMessage (w.after s (vs.take i)) vs[i]).result) := by
  induction vs generalizing s i with
  | nil => exact absurd hi (Nat.not_lt_zero i)
  | cons v vs ih =>
    cases i with
    | zero => rfl
    | succ i => exact ih (w.writeMessage s v).state (Nat.lt_of_succ_lt_succ hi)

theorem Breaks.left_after (h : w.Breaks left) (s : State) (vs : List Json) :
    left (w.after s vs) = left s - (frames vs).length := by
  induction vs generalizing s with
  | nil => rfl
  | cons v vs ih =>
    have hv := h.writeMessage s v
    show left (w.after (w.writeMessage s v).state vs) = _
    rw [ih, hv.left_state, frames_cons, List.length_append, Nat.sub_sub]

/-- If the same is reported of every message that is not written, only the number of bytes counts that the stream
takes. -/
theorem Breaks.writeMessages_eq (h : w.Breaks left) {message : String} (s : State) (vs : List Json)
    (hgiven : ∀ call ∈ w.writeMessages s vs, ∀ m, call.2 = .error (.io m) → m = message) :
    w.writeMessages s vs = writeFrames ⟨some (left s, message)⟩ vs := by
  -- both sides go on with what the stream still takes
  induction vs generalizing s with
  | nil => rfl
  | cons v vs ih =>
    have hv := h.writeMessage s v
    rw [writeMessages] at hgiven
    obtain ⟨hfirst, hlater⟩ := List.forall_mem_cons.mp hgiven
    rw [writeMessages, writeFrames, ih _ hlater]
    generalize w.writeMessage s v = r at hv hfirst
    cases hv with
    | @whole t _ hleft =>
      have hwrite : Writer.write ⟨some (left s, message)⟩ (bytes v) =
          (bytes v, .ok (), ⟨some (left t, message)⟩) := by
        simp only [Writer.write]
        rw [if_pos (by omega), hleft, Nat.add_sub_cancel_left]
      rw [hwrite]
    | @torn m t hmore _ hleft =>
      obtain rfl := hfirst m rfl
      have hwrite : Writer.write ⟨some (left s, m)⟩ (bytes v) =
          ((bytes v).take (left s), .error (.io m), ⟨some (0, m)⟩) := by
        simp only [Writer.write]
        rw [if_neg (Nat.not_le.mpr hmore)]
      rw [hwrite, hleft]

theorem Breaks.result_ok_iff_of_getElem? (h : w.Breaks left) (s : State) (vs : List Json) {i : Nat}
    (hi : i < vs.length) {call : List UInt8 × Except ChannelError Unit}
    (hcall : (w.writeMessages s vs)[i]? = some call) :
    call.2 = .ok () ↔ (frames (vs.take (i + 1))).length ≤ left s := by
  have hcut := h.writeMessage (w.after s (vs.take i)) vs[i]
  obtain rfl := Option.some.inj ((getElem?_writeMessages w s vs hi).symm.trans hcall)
  have hpos := List.length_pos_iff.mpr (bytes_ne_nil vs[i])
  rw [hcut.result_ok_iff, h.left_after, frames_take_succ vs hi, List.length_append]
  omega

/-- A stream that takes at most `size` bytes in one call, and altogether as many as its state says. -/
def dripping (size : Nat) (message : String) : Sink Nat where
  write left bs :=
    if left = 0 then (.error message, 0)
    else
      let n := min size (min left bs.length)
      (.ok n, left - n)
  flush left := (.ok (), left)

theorem breaks_dripping {size : Nat} (hsize : 0 < size) (message : String) :
    (dripping size message).Breaks fun left => left where
  takes left bs hbs hpos := by
    have hlength := List.length_pos_iff.mpr hbs
    refine ⟨min size (min left bs.length), left - min size (min left bs.length), ?_, by omega, by omega, by omega⟩
    simp only [dripping]
    rw [if_neg (Nat.ne_of_gt hpos)]
  fails left bs _ hzero := ⟨message, 0, .error (if_pos hzero), rfl⟩
  flushes left := ⟨left, rfl, rfl⟩

theorem fails_dripping {size : Nat} (hsize : 0 < size) {message m : String} {left u : Nat} {bs taken : List UInt8}
    (h : (dripping size message).Fails left bs taken m u) : m = message := by
  obtain @⟨t, more, -, hmore, -, hrefuses⟩ := h
  obtain rfl : t = 0 := (breaks_dripping hsize message).left_eq_zero hmore hrefuses
  have hzero : (dripping size message).write 0 more = (.error message, 0) := rfl
  cases hrefuses with
  | error hwrite =>
    rw [hzero] at hwrite
    cases hwrite
    rfl
  | zero hwrite =>
    rw [hzero] at hwrite
    cases hwrite

/-- What is written of several messages is their frames, up to the number of bytes that the stream takes. A message
is reported as written exactly if its frame was taken as a whole, and with those before it fits into that number.
Otherwise the error is the one that the stream has given to the call in which the write of this message failed, and
nothing is taken of the messages after it. If all these errors are the same, the stream is the writer that gives it
after so many bytes. -/
theorem writeMessages_cut (h : w.Breaks left) (s : State) (vs : List Json) :
    (w.writeMessages s vs).flatMap (·.1) = (frames vs).take (min (left s) (frames vs).length) ∧
      (w.writeMessages s vs).length = vs.length ∧
      (∀ i (hi : i < vs.length), ∃ taken result, (w.writeMessages s vs)[i]? = some (taken, result) ∧
        taken = (bytes vs[i]).take (left s - (frames (vs.take i)).length) ∧
        (result = .ok () ↔ taken = bytes vs[i]) ∧
        (result = .ok () ↔ (frames (vs.take (i + 1))).length ≤ left s) ∧
        (result ≠ .ok () → ∃ message, result = .error (.io message) ∧
          w.Fails (w.after s (vs.take i)) (bytes vs[i]) taken message (w.after s (vs.take (i + 1)))) ∧
        ((∃ j < i, ∃ call ∈ (w.writeMessages s vs)[j]?, call.2 ≠ .ok ()) → taken = [] ∧ result ≠ .ok ())) ∧
      ∀ message, (∀ call ∈ w.writeMessages s vs, ∀ m, call.2 = .error (.io m) → m = message) →
        w.writeMessages s vs = writeFrames ⟨some (left s, message)⟩ vs := by
  refine ⟨?_, length_writeMessages w s vs, ?_, fun message hgiven => h.writeMessages_eq s vs hgiven⟩
  · rw [h.flatMap_writeMessages, List.take_eq_take_iff]
    omega
  intro i hi
  have hcut := h.writeMessage (w.after s (vs.take i)) vs[i]
  have hcall := getElem?_writeMessages w s vs hi
  have hleft := h.left_after s (vs.take i)
  have hok := h.result_ok_iff_of_getElem? s vs hi hcall
  refine ⟨_, _, hcall, hleft ▸ hcut.taken, hcut.result_ok_iff_taken, hok, fun hfailed => ?_, ?_⟩
  · obtain ⟨message, hfails, hresult⟩ := hcut.exists_error hfailed
    rw [after_take_succ w s vs hi]
    exact ⟨message, hresult, hfails⟩
  rintro ⟨j, hj, earlier, hearlier, hfailed⟩
  -- the frames up to the failed one are too many bytes, and so the stream takes no more
  have hmany : left s < (frames (vs.take (j + 1))).length := by
    by_contra hfits
    exact hfailed ((h.result_ok_iff_of_getElem? s vs (Nat.lt_trans hj hi) hearlier).mpr (Nat.not_lt.mp hfits))
  have hnext : (frames (vs.take (j + 1))).length ≤ (frames (vs.take i)).length := length_frames_take_mono vs hj
  have hlater : (frames (vs.take i)).length ≤ (frames (vs.take (i + 1))).length :=
    length_frames_take_mono vs (Nat.le_succ i)
  constructor
  · rw [hcut.taken, hleft, Nat.sub_eq_zero_of_le (by omega), List.take_zero]
  · rw [ne_eq, hok]
    omega

/-- Three bytes are taken in one call and thirty altogether: the first frame, and five bytes of the second one. -/
theorem writeMessages_cut_dripping :
    ((dripping 3 "broken pipe").Breaks fun left => left) ∧
      ((dripping 3 "broken pipe").writeMessages 30 [.null, .string "ab", .null]).flatMap (·.1) =
        bytes .null ++ (bytes (.string "ab")).take 5 ∧
      ∃ taken, ((dripping 3 "broken pipe").writeMessages 30 [.null, .string "ab", .null])[1]? =
        some (taken, .error (.io "broken pipe")) := by
  have hsize : 0 < 3 := by decide
  have hbreaks := breaks_dripping hsize "broken pipe"
  obtain ⟨hall, -, hcalls, -⟩ := writeMessages_cut hbreaks 30 [.null, .string "ab", .null]
  obtain ⟨taken, result, hcall, -, -, hok, herror, -⟩ := hcalls 1 (by decide)
  have hfailed : result ≠ .ok () := fun h => absurd (hok.mp h) (by decide)
  obtain ⟨message, rfl, hfails⟩ := herror hfailed
  obtain rfl := fails_dripping hsize hfails
  exact ⟨hbreaks, hall.trans (by decide), taken, hcall⟩

end Sink

end IndexFs.Frame

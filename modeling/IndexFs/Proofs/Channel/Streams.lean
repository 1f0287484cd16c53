import IndexFs.Proofs.Channel.Pieces

/-!
# Sessions with other streams

Two sessions that differ only in the bytes that they have not read and in those that they have written do
the same as long as they find the same in front of them (`settle_withStreams`).
-/

namespace IndexFs

/-! ## Bytes that read alike -/

/-- Bytes that read alike, whatever comes behind them. -/
def Frame.ReadAlike (bs bs' : List UInt8) : Prop :=
  ∀ ending more, read ending (bs ++ more) = read ending (bs' ++ more)

/-- Bytes that the reader passes over on its way to a frame, such as blank lines. -/
def Frame.PassedOver (bs : List UInt8) : Prop :=
  ReadAlike bs []

namespace Frame.ReadAlike

theorem refl (bs : List UInt8) : ReadAlike bs bs := fun _ _ => rfl

theorem trans {bs bs' bs'' : List UInt8} (h : ReadAlike bs bs') (h' : ReadAlike bs' bs'') :
    ReadAlike bs bs'' :=
  fun ending more => (h ending more).trans (h' ending more)

theorem symm {bs bs' : List UInt8} (h : ReadAlike bs bs') : ReadAlike bs' bs :=
  fun ending more => (h ending more).symm

/-- Bytes that are read alike are read alike with the same bytes behind them. -/
theorem append {bs bs' : List UInt8} (h : ReadAlike bs bs') (behind : List UInt8) :
    ReadAlike (bs ++ behind) (bs' ++ behind) := by
  intro ending more
  rw [List.append_assoc, List.append_assoc]
  exact h ending (behind ++ more)

/-- Bytes that are read alike give the same outcome. -/
theorem read {bs bs' : List UInt8} (h : ReadAlike bs bs') (ending : Ending) :
    Frame.read ending bs = Frame.read ending bs' := by
  have hnothing := h ending []
  rwa [List.append_nil, List.append_nil] at hnothing

end Frame.ReadAlike

/-- Nothing is passed over. -/
theorem Frame.passedOver_nil : PassedOver [] := ReadAlike.refl []

namespace Channel

variable {Call : Type}

/-! ## Sessions with other bytes to read -/

/-- The bytes that an event adds to an input that may go on, or that may not. -/
def Event.arriving (ending : Ending) : Event Call → List UInt8
  | .receive bytes =>
    match ending with
    | .unknown => bytes
    | _ => []
  | _ => []

/-- Whether an event belongs to a call. -/
def Event.isCall : Event Call → Bool
  | .request .. => true
  | .notify .. => true
  | .cancel _ => true
  | _ => false

namespace Session

variable [DecidableEq Call]

/-- What an event adds to read is what it brings. -/
theorem occur_input (s : Session Call) (e : Event Call) :
    (s.occur e).input = s.input ++ e.arriving s.ending := by
  cases e with
  | request call method params =>
    simp only [occur, request]
    split <;> exact (List.append_nil s.input).symm
  | notify call method params =>
    simp only [occur, notify]
    split <;> exact (List.append_nil s.input).symm
  | receive bytes =>
    cases hending : s.ending with
    | unknown => simp only [occur, receive, Event.arriving, hending]
    | _ => simp only [occur, receive, Event.arriving, hending, List.append_nil]
  | endInput ending =>
    simp only [occur, endInput]
    split <;> exact (List.append_nil s.input).symm
  | _ => exact (List.append_nil s.input).symm

/-- An event does the same with other streams. -/
theorem occur_withStreams (s : Session Call) (input output : List UInt8) (e : Event Call) :
    (s.withStreams input output).occur e =
      (s.occur e).withStreams (input ++ e.arriving s.ending) output := by
  cases e with
  | request call method params =>
    cases hclosed : s.closed <;>
      simp [occur, request, finish, Event.arriving, withStreams, hclosed]
  | notify call method params =>
    cases hclosed : s.closed <;>
      simp [occur, notify, finish, Event.arriving, withStreams, hclosed]
  | receive bytes =>
    cases hending : s.ending <;> simp [occur, receive, Event.arriving, withStreams, hending]
  | endInput ending =>
    cases hending : s.ending <;> simp [occur, endInput, Event.arriving, withStreams, hending]
  | _ => simp only [occur, cancel, Event.arriving, List.append_nil, withStreams]

/-- What a caller does brings nothing to read, and does not end the stream. -/
theorem occur_ending {e : Event Call} (he : e.isCall = true) (s : Session Call) :
    (s.occur e).ending = s.ending ∧ e.arriving s.ending = [] := by
  cases e with
  | request call method params =>
    simp only [occur, request]
    split <;> exact ⟨rfl, rfl⟩
  | notify call method params =>
    simp only [occur, notify]
    split <;> exact ⟨rfl, rfl⟩
  | cancel call => exact ⟨rfl, rfl⟩
  | _ => cases he

/-- A session that has the same to read does the same next, and writes the same bytes. It leaves its input
as it is, or has the same bytes left. -/
theorem after_withStreams (s : Session Call) (input output : List UInt8) (o : Frame.Outcome) :
    (s.withStreams input output).after o = none ∧ s.after o = none ∨
      ∃ t input', s.after o = some t ∧ t.output = s.output ∧
        (s.withStreams input output).after o = some (t.withStreams input' output) ∧
        (t.input = s.input ∧ input' = input ∨ input' = t.input) := by
  -- reading ends with the input as it was, and nothing is said
  have hclose : ∀ rest, ({ s with input := rest }.close).input = rest ∧
      ({ s with input := rest }.close).output = s.output := by
    intro rest
    rw [close_eq]
    exact ⟨rfl, rfl⟩
  cases o with
  | pending => exact .inl ⟨rfl, rfl⟩
  | message m rest =>
    have hrest : ({ s with input := rest }.dispatch m).input = rest := (dispatch_frame _ _).2.2
    refine .inr ⟨_, rest, rfl, dispatch_output _ _, ?_, .inr hrest.symm⟩
    exact congrArg some (dispatch_withStreams { s with input := rest } rest output m)
  | fault e rest =>
    refine .inr ⟨_, rest, rfl, (hclose rest).2, ?_, .inr (hclose rest).1.symm⟩
    exact congrArg some (close_withStreams { s with input := rest } rest output)
  | finished =>
    refine .inr ⟨_, [], rfl, (hclose []).2, ?_, .inr (hclose []).1.symm⟩
    exact congrArg some (close_withStreams { s with input := [] } [] output)
  | failed m =>
    refine .inr ⟨_, input, rfl, (hclose s.input).2, ?_, .inl ⟨(hclose s.input).1, rfl⟩⟩
    exact congrArg some (close_withStreams s input output)

/-- Both sessions find the same in front of them, or neither reads. -/
def ReadsSame (s : Session Call) (input : List UInt8) : Prop :=
  s.closed = true ∨ Frame.read s.ending input = Frame.read s.ending s.input

/-- A session makes the same step with another input that is read alike, and says the same. -/
theorem advance?_withStreams {s : Session Call} {input : List UInt8} (h : s.ReadsSame input)
    (output : List UInt8) :
    (s.withStreams input output).advance? = none ∧ s.advance? = none ∨
      ∃ t input' out, s.advance? = some t ∧ t.output = s.output ++ out ∧
        (s.withStreams input output).advance? = some (t.withStreams input' (output ++ out)) ∧
        (t.input = s.input ∧ input' = input ∨ input' = t.input) := by
  -- only a session with nothing to write looks at its input
  have hreading : s.blocked = true ∨ s.queue = [] → (s.withStreams input output).advance? = none ∧
      s.advance? = none ∨ ∃ t input' out, s.advance? = some t ∧ t.output = s.output ++ out ∧
        (s.withStreams input output).advance? = some (t.withStreams input' (output ++ out)) ∧
        (t.input = s.input ∧ input' = input ∨ input' = t.input) := by
    intro hidle
    have hidle' : (s.withStreams input output).blocked = true ∨
        (s.withStreams input output).queue = [] := hidle
    rw [advance?_of_idle hidle, advance?_of_idle hidle', readNext?_eq, readNext?_eq]
    show (if (s.closed || s.rejecting) = true then none else
        (s.withStreams input output).after (Frame.read s.ending input)) = none ∧ _ ∨ ∃ t input' out, _ ∧ _ ∧
      (if (s.closed || s.rejecting) = true then none else
        (s.withStreams input output).after (Frame.read s.ending input)) = _ ∧ _
    split
    · exact .inl ⟨rfl, rfl⟩
    · next hopen =>
      rw [Bool.or_eq_true, not_or] at hopen
      rw [h.resolve_left hopen.1]
      rcases after_withStreams s input output (Frame.read s.ending s.input) with hnone | hsome
      · exact .inl hnone
      · obtain ⟨t, input', ht, houtput, hstep, hinput⟩ := hsome
        exact .inr ⟨t, input', [], ht, by rw [houtput, List.append_nil],
          by rw [hstep, List.append_nil], hinput⟩
  cases hblocked : s.blocked with
  | true => exact hreading (.inl hblocked)
  | false =>
    cases hqueue : s.queue with
    | nil => exact hreading (.inr hqueue)
    | cons job rest =>
      have hinput : (s.wrote job rest).input = s.input := (written_frame _ _ _).2.2.2
      have hstep : (s.withStreams input output).advance? =
          some ((s.withStreams input output).wrote job rest) := advance?_of_queue hblocked hqueue
      rw [wrote_withStreams] at hstep
      exact .inr ⟨s.wrote job rest, input, _, advance?_of_queue hblocked hqueue,
        (wrote_wire s job rest).2.1, hstep, .inl ⟨hinput, rfl⟩⟩

/-- A closed session stays so. -/
theorem closed_advance? {s t : Session Call} (h : s.advance? = some t) (hclosed : s.closed = true) :
    t.closed = true := by
  obtain ⟨m, -, hstep⟩ := step_of_advance? h
  exact (closed_step hstep).mpr (.inl hclosed)

/-- A session that is closed stays so on its way to rest. -/
theorem settle_closed {s : Session Call} (hclosed : s.closed = true) : s.settle.closed = true := by
  induction s using settle_induction with
  | hnone s hnone => rwa [settle_of_none hnone]
  | hsome s t hadvance ih =>
    rw [settle_of_some hadvance]
    exact ih (closed_advance? hadvance hclosed)

/-- A session comes to rest with another input that is read alike, and says the same. -/
theorem settle_withStreams (s : Session Call) {input : List UInt8} (h : s.ReadsSame input)
    (output : List UInt8) :
    ∃ input' out, s.settle.output = s.output ++ out ∧
      (s.withStreams input output).settle = s.settle.withStreams input' (output ++ out) ∧
      (s.settle.input = s.input ∧ input' = input ∨ input' = s.settle.input) := by
  -- what is written first stands before what is written later, so the output varies
  induction s using settle_induction generalizing input output with
  | hnone s hnone =>
    have hnone' : (s.withStreams input output).advance? = none := by
      rcases advance?_withStreams h output with ⟨hnone', -⟩ | ⟨t, -, -, hsome, -⟩
      · exact hnone'
      · rw [hnone] at hsome
        cases hsome
    rw [settle_of_none hnone, settle_of_none hnone']
    exact ⟨input, [], (List.append_nil _).symm, by rw [List.append_nil], .inl ⟨rfl, rfl⟩⟩
  | hsome s t hadvance ih =>
    rcases advance?_withStreams h output with ⟨-, hnone⟩ | ⟨u, input', out, hsome, houtput, hstep, hinput⟩
    · rw [hadvance] at hnone
      cases hnone
    · rw [hadvance] at hsome
      obtain rfl := Option.some.inj hsome
      -- what is left to read is the same, or still what it was
      have hsame : t.ReadsSame input' := by
        rcases hinput with ⟨hkept, rfl⟩ | rfl
        · rcases h with hclosed | hread
          · exact .inl (closed_advance? hadvance hclosed)
          · rw [ReadsSame, (advance?_outside hadvance).1, hkept]
            exact .inr hread
        · exact .inr rfl
      obtain ⟨input'', out', houtput', hsettle, hinput'⟩ := ih hsame (output ++ out)
      rw [settle_of_some hadvance, settle_of_some hstep]
      refine ⟨input'', out ++ out', ?_, ?_, ?_⟩
      · rw [houtput', houtput, List.append_assoc]
      · rw [hsettle, List.append_assoc]
      · rcases hinput' with ⟨hkept', rfl⟩ | heq
        · rcases hinput with ⟨hkept, rfl⟩ | rfl
          · exact .inl ⟨hkept'.trans hkept, rfl⟩
          · exact .inr hkept'.symm
        · exact .inr heq

/-- As long as its frame is not complete, a session takes nothing off its input. -/
theorem input_settle {s : Session Call} (hread : Frame.read s.ending s.input = .pending) :
    s.settle.input = s.input := by
  induction s using settle_induction with
  | hnone s hnone => rw [settle_of_none hnone]
  | hsome s t hadvance ih =>
    have hinput : t.input = s.input := by
      rcases advance?_eq_some hadvance with hwrite | ⟨-, hnext⟩
      · obtain ⟨-, job, rest, -, rfl⟩ := writeNext?_eq_some hwrite
        exact (written_frame _ _ _).2.2.2
      · obtain ⟨hclosed, hrejecting, -⟩ := readNext?_eq_some hnext
        rw [readNext?_eq, hclosed, hrejecting, hread] at hnext
        cases hnext
    rw [settle_of_some hadvance, ih (by rwa [(advance?_outside hadvance).1, hinput]), hinput]

end Session

end Channel

end IndexFs

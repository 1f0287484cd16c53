import IndexFs.Frame

/-!
# Writing piece by piece

A stream need not take all bytes that it is given: one call may take the first few of them. `Sink.writeAll` calls
until everything is taken or a call fails, and `Sink.writeMessage` writes the header of a frame, then its body, and
goes no further than the first failure. `Frame.Writer` is what is left of such a stream when only the bytes count
that it takes altogether.
-/

namespace IndexFs.Frame

/-- A stream that is written to call by call. -/
structure Sink (State : Type) where
  /-- One call: how many of the bytes were taken, the first ones, or what went wrong. -/
  write : State → List UInt8 → Except String Nat × State
  flush : State → Except String Unit × State

/-- What became of a write: the bytes that were taken, the result, and the state of the stream afterwards. -/
structure Written (State : Type) where
  taken : List UInt8
  result : Except ChannelError Unit
  state : State

variable {State : Type}

/-- Goes on unless something has failed. -/
def Written.andThen (first : Written State) (next : State → Written State) : Written State :=
  match first.result with
  | .error _ => first
  | .ok () => { next first.state with taken := first.taken ++ (next first.state).taken }

namespace Sink

/-- Writes bytes in as many calls as it takes. A call that takes none of them has failed as well. -/
def writeAll (w : Sink State) (s : State) (bs : List UInt8) : Written State :=
  match bs with
  | [] => ⟨[], .ok (), s⟩
  | b :: bs =>
    match w.write s (b :: bs) with
    | (.error message, t) => ⟨[], .error (.io message), t⟩
    | (.ok 0, t) => ⟨[], .error (.io "write zero"), t⟩
    | (.ok (n + 1), t) =>
      Written.andThen ⟨(b :: bs).take (n + 1), .ok (), t⟩ fun t => w.writeAll t (bs.drop n)
termination_by bs.length
decreasing_by
  simp only [List.length_drop, List.length_cons]
  omega

/-- Has the stream pass on what it keeps back. -/
def finish (w : Sink State) (s : State) : Written State :=
  match w.flush s with
  | (.error message, t) => ⟨[], .error (.io message), t⟩
  | (.ok (), t) => ⟨[], .ok (), t⟩

/-- Writes the frame of a message. -/
def writeMessage (w : Sink State) (s : State) (message : Json) : Written State :=
  let body := message.bytes
  ((w.writeAll s (Utf8.encode (header body.length))).andThen fun s => w.writeAll s body).andThen w.finish

/-- Writes one message after the other, whatever became of those before: of each of them the bytes that were taken,
and the result. -/
def writeMessages (w : Sink State) (s : State) : List Json → List (List UInt8 × Except ChannelError Unit)
  | [] => []
  | v :: vs =>
    let r := w.writeMessage s v
    (r.taken, r.result) :: w.writeMessages r.state vs

end Sink

end IndexFs.Frame

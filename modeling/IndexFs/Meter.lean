import IndexFs.Meter.Session

/-!
# Metered channels

An index behind a meter, which answers each call as soon as it is reached, or never. Callers wait for their answer, or
for as long as they have patience.
-/

namespace IndexFs

/-- How a call through a meter ends. -/
inductive MeteredResult where
  | answered (r : Except ChannelError Json)
  /-- Its caller gave up. -/
  | abandoned
  /-- It waits for ever. -/
  | stuck

/-- How a call ends that got this, or else as given. -/
def MeteredResult.ofResult (otherwise : MeteredResult) : Option (Except ChannelError Json) → MeteredResult
  | some r => .answered r
  | none => otherwise

/-- What a caller of the index gets for a message, if it is answered. A notification has no value. -/
def Index.result? (index : Index) (message : Outgoing) : Option (Except ChannelError Json) :=
  match message, index message with
  | _, .silence => none
  | .request _ _, .answer r => some r
  | .notification _ _, .answer r => some (r.map fun _ => .null)

/-- An index behind a meter. -/
structure Meter where
  index : Index
  session : Meter.Session

namespace Meter

def new (index : Index) (delay : Nat) : Meter :=
  ⟨index, .new delay⟩

def delay (m : Meter) : Nat :=
  m.session.delay

def metrics (m : Meter) : Metrics :=
  m.session.metrics

/-- What happens when a call has reached the index. -/
def reply (index : Index) (call : Nat) (message : Outgoing) : List Event :=
  match index.result? message with
  | some r => [.answer call r]
  | none => []

/-- What happens in a request, and how long its caller waits. -/
def requestEvents (m : Meter) (patience : Option Nat) (message : Outgoing) : List Event × Nat :=
  let call := m.session.next
  let reached := [.call message, .elapse m.delay]
  match patience, m.index.result? message with
  | none, _ => (reached ++ reply m.index call message, m.delay)
  | some limit, answer =>
    if limit < m.delay then ([.call message, .elapse limit, .drop call], limit)
    else
      match answer with
      | some r => (reached ++ [.answer call r], m.delay)
      | none => (reached ++ [.elapse (limit - m.delay), .drop call], limit)

/-- A request: how it ends, and how long its caller waited. -/
def request (m : Meter) (patience : Option Nat) (method : String) (params : Json) :
    Meter × MeteredResult × Nat :=
  let (events, time) := m.requestEvents patience (.request method params)
  let s := m.session.run events
  let otherwise := if patience.isSome then MeteredResult.abandoned else .stuck
  ({ m with session := s }, .ofResult otherwise (s.result? m.session.next), time)

/-- What happens in a notification. Notifications are not delayed. -/
def notifyEvents (m : Meter) (message : Outgoing) : List Event :=
  .call message :: reply m.index m.session.next message

def notify (m : Meter) (method : String) (params : Json) : Meter × MeteredResult × Nat :=
  let s := m.session.run (m.notifyEvents (.notification method params))
  ({ m with session := s }, .ofResult .stuck (s.result? m.session.next), 0)

/-- Requests that are made at the same time, with their numbers. -/
def batch (m : Meter) (methods : List String) : List (Outgoing × Nat) :=
  (methods.map fun method => Outgoing.request method .null).zipIdx m.session.next

/-- What happens in requests that are made at the same time, and how long their caller waits. Their delays pass
together. -/
def togetherEvents (m : Meter) (methods : List String) : List Event × Nat :=
  let calls := m.batch methods
  let time := if methods.isEmpty then 0 else m.delay
  (calls.map (fun c => .call c.1) ++ .elapse time :: calls.flatMap fun c => reply m.index c.2 c.1, time)

def together (m : Meter) (methods : List String) : Meter × List MeteredResult × Nat :=
  let (events, time) := m.togetherEvents methods
  let s := m.session.run events
  ({ m with session := s }, (m.batch methods).map (fun c => .ofResult .stuck (s.result? c.2)), time)

def reset (m : Meter) : Meter :=
  { m with session := m.session.apply .reset }

end Meter

end IndexFs

import IndexFs.Meter.Metrics

/-!
# Calls through a meter

A meter in use. A request is counted when it is made; it reaches the channel behind the meter when its delay is over,
unless its caller has given up before. Notifications are not delayed. Calls overlap as they like, and the channel
behind the meter answers what it wants and when it wants. Time passes in milliseconds, and there is no greatest time:
all delays together are less than `2 ^ 64` seconds as long as the delay times the number of calls is.
-/

namespace IndexFs.Meter

/-- A request in its delay. -/
structure Delayed where
  call : Nat
  message : Outgoing
  /-- When the delay is over. -/
  due : Nat

/-- A call that has ended, and what its caller got. -/
structure Returned where
  call : Nat
  message : Outgoing
  result : Except ChannelError Json

structure Session where
  delay : Nat
  now : Nat
  metrics : Metrics
  /-- The number of the next call; calls are numbered in the order in which they are made. -/
  next : Nat
  delayed : List Delayed
  /-- The calls that wait for the channel behind the meter. -/
  asked : List (Nat × Outgoing)
  /-- What has reached the channel behind the meter, with the call that it is from. -/
  reached : List (Nat × Outgoing)
  returned : List Returned

/-- What happens to a meter. -/
inductive Event where
  | call (message : Outgoing)
  /-- The channel behind the meter answers a call. -/
  | answer (call : Nat) (result : Except ChannelError Json)
  /-- A caller gives up. -/
  | drop (call : Nat)
  | elapse (time : Nat)
  | reset

namespace Session

def new (delay : Nat) : Session where
  delay := delay
  now := 0
  metrics := .zero
  next := 0
  delayed := []
  asked := []
  reached := []
  returned := []

/-- A call reaches the channel behind the meter. -/
def ask (s : Session) (call : Nat) (message : Outgoing) : Session :=
  { s with asked := s.asked ++ [(call, message)], reached := s.reached ++ [(call, message)] }

/-- A call is made. -/
def start (s : Session) : Outgoing → Session
  | .request method params =>
    { s with
      metrics := s.metrics.countRequest method
      next := s.next + 1
      delayed := s.delayed ++ [⟨s.next, .request method params, s.now + s.delay⟩] }
  | .notification method params =>
    { s with metrics := s.metrics.countNotification, next := s.next + 1 }.ask s.next (.notification method params)

/-- Counts what a call got; only requests can count as failures. -/
def countReturn (m : Metrics) (message : Outgoing) (result : Except ChannelError Json) : Metrics :=
  match message with
  | .request _ _ => m.countResult result
  | .notification _ _ => m

/-- A call is answered, if it still waits for that. -/
def answer (s : Session) (call : Nat) (result : Except ChannelError Json) : Session :=
  match s.asked.lookup call with
  | none => s
  | some message =>
    { s with
      metrics := countReturn s.metrics message result
      asked := s.asked.filter fun c => c.1 ≠ call
      returned := s.returned ++ [⟨call, message, result⟩] }

def occur (s : Session) : Event → Session
  | .call message => s.start message
  | .answer call result => s.answer call result
  | .drop call =>
    { s with
      delayed := s.delayed.filter fun d => d.call ≠ call
      asked := s.asked.filter fun c => c.1 ≠ call }
  | .elapse time => { s with now := s.now + time }
  | .reset => { s with metrics := .zero }

/-- A delay is over: it is counted, and the request goes on. -/
def wake (s : Session) (d : Delayed) : Session :=
  { s with metrics := s.metrics.countDelay s.delay }.ask d.call d.message

/-- All requests whose delay is over go on. -/
def wakeAll (s : Session) : Session :=
  (s.delayed.filter fun d => d.due ≤ s.now).foldl wake
    { s with delayed := s.delayed.filter fun d => s.now < d.due }

/-- The session after an event. -/
def apply (s : Session) (e : Event) : Session :=
  (s.occur e).wakeAll

/-- The session after some events. -/
def run (s : Session) (es : List Event) : Session :=
  es.foldl apply s

/-- What a call got, if it has ended. -/
def result? (s : Session) (call : Nat) : Option (Except ChannelError Json) :=
  (s.returned.find? fun r => r.call = call).map Returned.result

end Session

end IndexFs.Meter

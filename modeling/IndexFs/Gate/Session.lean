import IndexFs.Gate

/-!
# Callers at a gate

A session at a gate: callers come and go, the connector is released, and every caller who is let through
asks the index one question at once.
-/

namespace IndexFs.Gate

/-- A gate, its connector, and its callers. -/
structure Session where
  connector : Connector
  index : Index
  /-- Whether the connector has been released. -/
  released : Bool
  gate : Gate Nat
  /-- Callers who have not reached the gate yet. -/
  arriving : List Nat
  /-- What the callers got who were answered. -/
  results : List (Nat × Except FsError Json)

/-- What happens from outside. -/
inductive Event where
  | call (call : Nat)
  | cancel (call : Nat)
  | release

namespace Session

def new (connector : Connector) (index : Index) : Session :=
  ⟨connector, index, false, .new, [], []⟩

def occur (s : Session) : Event → Session
  | .call call => { s with arriving := s.arriving ++ [call] }
  | .cancel call =>
    { s with arriving := s.arriving.filter (· ≠ call), gate := s.gate.leave call }
  | .release => { s with released := true }

/-- Those who are on their way reach the gate. -/
def arrive (s : Session) : Session :=
  { s with gate := s.arriving.foldl Gate.enter s.gate, arriving := [] }

/-- The connector runs to its end, unless it is held. -/
def connect (s : Session) (version : String) (processId : Nat) : Session :=
  if s.gate.isConnecting && (!s.connector.held || s.released) then
    { s with gate := s.gate.resolve (s.connector.outcome s.index version processId) }
  else s

/-- The question of a caller who was let through. -/
def question : Outgoing :=
  .request "ping" .null

/-- Everyone who may go through does so and is answered. -/
def answer (s : Session) : Session :=
  let (gate, admitted) := s.gate.letThrough
  { s with
    gate := gate
    results := s.results ++ admitted.map fun (call, r) =>
      (call, r.bind fun () => (s.index.ask question).mapError .transport) }

/-- The session after all that can happen until something else comes from outside. -/
def settle (s : Session) (processId : Nat) : Session :=
  (s.arrive.connect Handshake.version processId).answer

end Session

end IndexFs.Gate

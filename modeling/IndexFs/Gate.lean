import IndexFs.FileSystem.Error
import IndexFs.Handshake
import IndexFs.Text.Quoted

/-!
# The gate

The connection to the index is made once, when the first caller needs it. The gate keeps its outcome:
whoever comes while the connection is being made waits, and every caller, early or late, learns the same
outcome. A caller who leaves does not stop the connection from being made.
-/

namespace IndexFs

/-! ## Connectors -/

/-- How an attempt to connect ends. -/
inductive Fate where
  /-- The attempt breaks down with a message. -/
  | breaksDown (message : String)
  | fails (e : ChannelError)
  /-- The channel opens, and the client introduces itself if it has a name. -/
  | opens (clientName : Option String)

/-- What happens when the connection is made. -/
structure Connector where
  /-- Whether the attempt waits until it is released. -/
  held : Bool
  fate : Fate

namespace Connector

/-- The error of an attempt that breaks down. The number of its task is not told. -/
def breakdown (message : String) : ChannelError :=
  .io ("connect task failed: task N panicked with message " ++ Text.quote message)

/-- The outcome, for a channel that is answered by an index at once. -/
def outcome (c : Connector) (index : Index) (version : String) (processId : Nat) :
    Except ChannelError Unit :=
  match c.fate with
  | .breaksDown message => .error (breakdown message)
  | .fails e => .error e
  | .opens none => .ok ()
  | .opens (some name) => (Handshake.exchange index ⟨name, version, processId⟩).2.map fun _ => ()

end Connector

/-! ## Gates -/

inductive GateState where
  | uninitialized
  | pending
  | ready
  | failed
deriving DecidableEq, Repr

def GateState.name : GateState → String
  | .uninitialized => "Uninitialized"
  | .pending => "Pending"
  | .ready => "Ready"
  | .failed => "Failed"

/-- A gate, with the callers that wait for it. -/
structure Gate (Call : Type) where
  started : Bool
  outcome : Option (Except ChannelError Unit)
  /-- How often the connector was called. -/
  connects : Nat
  waiting : List Call

namespace Gate

variable {Call : Type} [DecidableEq Call]

def new : Gate Call :=
  ⟨false, none, 0, []⟩

def state (g : Gate Call) : GateState :=
  match g.outcome with
  | some (.ok ()) => .ready
  | some (.error _) => .failed
  | none => if g.started then .pending else .uninitialized

/-- A caller comes; the first one starts the connector. -/
def enter (g : Gate Call) (call : Call) : Gate Call :=
  { g with
    started := true
    connects := if g.started then g.connects else g.connects + 1
    waiting := g.waiting ++ [call] }

/-- A caller no longer waits. -/
def leave (g : Gate Call) (call : Call) : Gate Call :=
  { g with waiting := g.waiting.filter (· ≠ call) }

/-- Whether the connector runs. -/
def isConnecting (g : Gate Call) : Bool :=
  g.started && g.outcome.isNone

/-- Sets the outcome. Only the first one counts. -/
def resolve (g : Gate Call) (r : Except ChannelError Unit) : Gate Call :=
  match g.outcome with
  | some _ => g
  | none => { g with outcome := some r }

/-- What the callers learn from an outcome. -/
def verdict (r : Except ChannelError Unit) : Except FsError Unit :=
  r.mapError fun e => .connectionUnavailable e.message

/-- Lets all callers go on who wait, once there is an outcome. -/
def letThrough (g : Gate Call) : Gate Call × List (Call × Except FsError Unit) :=
  match g.outcome with
  | none => (g, [])
  | some r => ({ g with waiting := [] }, g.waiting.map fun c => (c, verdict r))

/-- The text that shows the state to a reader of the program. -/
def description (g : Gate Call) : String :=
  "ReadinessGate \x7b connector: \"<dyn Connector>\", state: " ++ g.state.name ++ " \x7d"

end Gate

end IndexFs

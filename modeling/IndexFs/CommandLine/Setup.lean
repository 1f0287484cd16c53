import IndexFs.CommandLine.Arguments
import IndexFs.Config
import IndexFs.Report

/-!
# Setup

The configuration of a run: the one of the file, with what the command line says in its place.
-/

namespace IndexFs.CommandLine

/-- Why a run has no configuration. -/
structure SetupError where
  attempt : String
  cause : ConfigError
deriving DecidableEq, Repr

def SetupError.report (e : SetupError) : Report :=
  (Report.ofMessage e.cause.message).context e.attempt

/-- The configuration with what the command line says in its place. -/
def Arguments.override (a : Arguments) (c : Config) : Config :=
  { c with
    server :=
      { c.server with
        address := a.address.getD c.server.address
        handshake := if a.noHandshake then false else c.server.handshake } }

/-- The configuration of a run. -/
def setup (disk : Disk) (s : Config.Surroundings) (a : Arguments) : Except SetupError Config :=
  match Config.loadOrDefault disk s a.config with
  | .error e => .error ⟨"Failed to load configuration", e⟩
  | .ok c =>
    match (a.override c).validate with
    | .error e => .error ⟨"Invalid configuration", e⟩
    | .ok () => .ok (a.override c)

end IndexFs.CommandLine

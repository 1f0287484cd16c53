/-!
# Log lines

What the program tells about its own work: lines with a level, and with a target that says which part of
the program speaks.
-/

namespace IndexFs.Log

/-- How much a line matters. -/
inductive Level where
  | error
  | warn
  | info
  | debug
  | trace
deriving DecidableEq, Repr

namespace Level

/-- The levels in their order, from the one that matters most. -/
def all : List Level :=
  [.error, .warn, .info, .debug, .trace]

/-- How talkative a level is. -/
def rank : Level → Nat
  | .error => 1
  | .warn => 2
  | .info => 3
  | .debug => 4
  | .trace => 5

def name : Level → String
  | .error => "ERROR"
  | .warn => "WARN"
  | .info => "INFO"
  | .debug => "DEBUG"
  | .trace => "TRACE"

end Level

/-- A line as it is told, before it is written anywhere. -/
structure Line where
  level : Level
  target : String
  message : String
deriving DecidableEq, Repr

end IndexFs.Log

/-!
# Error reports

What the command line says about an error: the error itself, and below it what caused it, from the
nearest cause to the farthest. Several causes are numbered.
-/

namespace IndexFs

structure Report where
  message : String
  causes : List String
deriving DecidableEq, Repr

namespace Report

/-- The report of an error that nothing else caused. -/
def ofMessage (message : String) : Report :=
  ⟨message, []⟩

/-- Says what was attempted when the error came up. -/
def context (attempt : String) (r : Report) : Report :=
  ⟨attempt, r.message :: r.causes⟩

/-- A text whose first line stands behind `first`, and all others behind `others`. -/
def indented (first others text : String) : String :=
  first ++ ("\n" ++ others).intercalate (text.splitOn "\n")

/-- Causes from the number `index` on. -/
def numbered (index : Nat) : List String → String
  | [] => ""
  | c :: cs =>
    let label := toString index
    let margin := String.ofList (List.replicate (5 - label.length) ' ')
    "\n" ++ indented (margin ++ label ++ ": ") "       " c ++ numbered (index + 1) cs

def text (r : Report) : String :=
  match r.causes with
  | [] => r.message
  | [c] => r.message ++ "\n\nCaused by:\n" ++ indented "    " "    " c
  | cs => r.message ++ "\n\nCaused by:" ++ numbered 0 cs

end Report

end IndexFs

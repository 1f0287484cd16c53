import IndexFs.Index

/-!
# Metrics

What a meter counts: requests by method, notifications, failures, and the time of all delays. The counters are
numbers without a bound. None of them is greater than the number of calls, so that words of 64 bits hold them unless
there are `2 ^ 64` calls.
-/

namespace IndexFs

/-- What a meter shows. -/
structure Metrics where
  /-- The number of requests by method, in the order of the first one of each. -/
  requests : List (String × Nat)
  notifications : Nat
  /-- The number of requests that were answered with an error. -/
  failures : Nat
  /-- The time of all delays together. -/
  delayed : Nat
deriving DecidableEq, Repr

namespace Metrics

def zero : Metrics :=
  ⟨[], 0, 0, 0⟩

/-- The number of requests of one method. -/
def calls (m : Metrics) (method : String) : Nat :=
  (m.requests.lookup method).getD 0

/-- The number of all requests. -/
def total (m : Metrics) : Nat :=
  m.requests.foldl (fun n counted => n + counted.2) 0

/-- Adds one to the number of a method. -/
def bump (method : String) : List (String × Nat) → List (String × Nat)
  | [] => [(method, 1)]
  | (k, n) :: rest => if k = method then (k, n + 1) :: rest else (k, n) :: bump method rest

def countRequest (m : Metrics) (method : String) : Metrics :=
  { m with requests := bump method m.requests }

def countNotification (m : Metrics) : Metrics :=
  { m with notifications := m.notifications + 1 }

def countDelay (m : Metrics) (delay : Nat) : Metrics :=
  { m with delayed := m.delayed + delay }

/-- Counts a failure if the result is one. -/
def countResult {ε α : Type} (m : Metrics) : Except ε α → Metrics
  | .ok _ => m
  | .error _ => { m with failures := m.failures + 1 }

end Metrics

end IndexFs

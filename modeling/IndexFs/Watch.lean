/-!
# Watching for changes

The index does not change while it is looked at, so nothing is ever reported: a subscription only ends,
and it does so when its source is gone.
-/

namespace IndexFs

/-- A source of changes with its subscriptions, which are told apart by their numbers. -/
structure ChangeSource where
  isAlive : Bool
  /-- The subscriptions nobody waits at. -/
  idle : List Nat
  /-- The subscriptions at which a call waits. -/
  waiting : List Nat
  /-- The calls that have learned that there will be no change any more. -/
  ended : List Nat
deriving DecidableEq, Repr

namespace ChangeSource

def new : ChangeSource :=
  ⟨true, [], [], []⟩

def subscribe (s : ChangeSource) (n : Nat) : ChangeSource :=
  if s.isAlive then { s with idle := s.idle ++ [n] } else s

/-- Ends a subscription nobody waits at. -/
def dispose (s : ChangeSource) (n : Nat) : ChangeSource :=
  { s with idle := s.idle.filter (· ≠ n) }

/-- Waits for the next change at a subscription. -/
def receive (s : ChangeSource) (n : Nat) : ChangeSource :=
  if s.idle.contains n then
    let s := s.dispose n
    if s.isAlive then { s with waiting := s.waiting ++ [n] }
    else { s with ended := s.ended ++ [n] }
  else s

/-- Stops waiting, which ends the subscription as well. -/
def cancel (s : ChangeSource) (n : Nat) : ChangeSource :=
  { s with waiting := s.waiting.filter (· ≠ n) }

/-- The source goes; all who wait learn it. -/
def drop (s : ChangeSource) : ChangeSource :=
  { s with isAlive := false, waiting := [], ended := s.ended ++ s.waiting }

/-- The number of subscriptions, as long as the source is there. -/
def subscribers? (s : ChangeSource) : Option Nat :=
  if s.isAlive then some (s.idle.length + s.waiting.length) else none

end ChangeSource

end IndexFs

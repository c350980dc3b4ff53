import StackKeeper.Error

/-!
# Interruptions

Work in progress is stopped by its caller, or because it takes too long. Whatever asks for a stop
wins over a result that comes in at the same moment.
-/

namespace StackKeeper

inductive Interruption where
  /-- The caller no longer wants it. -/
  | cancelled
  /-- It has taken all the time it was given. -/
  | overdue
  deriving DecidableEq, Repr, Inhabited

/-- The moments from which on a piece of work is to stop, in milliseconds. -/
structure Limits where
  cancelledFrom : Option Nat
  overdueFrom : Option Nat
  deriving DecidableEq, Repr, Inhabited

namespace Limits

def none : Limits := ⟨.none, .none⟩

def reached (moment : Option Nat) (now : Nat) : Bool := moment.any (· ≤ now)

def interruption? (l : Limits) (now : Nat) : Option Interruption :=
  if reached l.cancelledFrom now then some .cancelled
  else if reached l.overdueFrom now then some .overdue
  else .none

/-- Work that nobody stops before its result is there gives the result; other work is stopped. -/
def race {α : Type} (l : Limits) (done : Nat) (result : Except Error α) :
    Except Interruption (Except Error α) :=
  match l.interruption? done with
  | some i => .error i
  | .none => .ok result

end Limits

end StackKeeper

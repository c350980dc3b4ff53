import StackKeeper.Keeper.Reconcile

/-!
# Rounds

A stack is reconciled in rounds until it no longer asks for another one. Every round starts from
what the store holds at that time.
-/

namespace StackKeeper.Keeper

/-- Whether a round is the last of those allowed. There always is a first one. -/
def isLastRound (allowed : Option Nat) : Bool := allowed.any (· ≤ 1)

/-- Reconciles a stack until it is settled, until no further round is allowed, or until it is
cancelled. There is no result if the stack is still not settled after `patience` rounds. -/
def pursue (k : Keeper) (key : Stack.Key) :
    (patience : Nat) → (allowed : Option Nat) →
      Dialogue Surroundings (Option (Except Error Reconciled))
  | 0, _ => .done none
  | patience + 1, allowed => do
    match ← k.reconcileKey key with
    | .error e => return some (.error e)
    | .ok reconciled =>
      match reconciled.requeueAfter with
      | none => return some (.ok reconciled)
      | some delay =>
        if isLastRound allowed then return some (.ok reconciled)
        else
          match ← Surroundings.ask (.wait delay) with
          | .error _ => return some (.error .cancelled)
          | .ok () => k.pursue key patience (allowed.map (· - 1))

end StackKeeper.Keeper

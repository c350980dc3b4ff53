import StackKeeper.Attempt.Run

/-!
# Reconciling a stack

A stack is reconciled by one attempt whose outcome is recorded in the store. A stack that is to be
deleted is destroyed if it asks for that, and otherwise let go without any attempt.
-/

namespace StackKeeper

structure Keeper where
  resolver : Resolver
  /-- Milliseconds between an attempt that met a conflict and the next one. -/
  retryInterval : Nat
  /-- Milliseconds that one attempt may take. -/
  attemptLimit : Option Nat
  deriving Inhabited

namespace Keeper

inductive Action where
  | updated
  | destroyed
  /-- Let go without any call to the engine. -/
  | released
  deriving DecidableEq, Repr, Inhabited

def Action.name : Action → String
  | updated => "Updated"
  | destroyed => "Destroyed"
  | released => "Released"

structure Reconciled where
  action : Action
  /-- The status as it stands in the store. -/
  status : Stack.Status
  /-- The verdict on the attempt, if there was one. -/
  verdict : Option Stack.Verdict
  error : Option Error
  /-- Milliseconds after which to try again. -/
  requeueAfter : Option Nat
  deriving Inhabited

/-- What to do with a stack; nothing means to let it go. -/
def modeFor (stack : Stack) : Option Attempt.Mode :=
  if !stack.isBeingDeleted then some .update
  else if stack.spec.destroyOnFinalize then some .destroy
  else none

def actionOf : Attempt.Mode → Action
  | .update => .updated
  | .destroy => .destroyed

/-- When to try again: after a conflict, if the stack asks for that. -/
def requeueAfter (k : Keeper) (stack : Stack) (verdict : Stack.Verdict) : Option Nat :=
  if verdict.isRetryable && stack.spec.retryOnUpdateConflict then some k.retryInterval else none

def letGo (stack : Stack) : Reconciled :=
  ⟨.released, stack.status.getD .empty, none, none, none⟩

def settle (k : Keeper) (stack : Stack) (mode : Attempt.Mode) (outcome : Attempt.Outcome) :
    Dialogue Surroundings (Except Error Reconciled) := do
  let now ← Surroundings.ask .now
  let status := Stack.Status.record stack.status outcome now
  let saved ← Surroundings.ask (.save stack.key status)
  let requeueAfter := k.requeueAfter stack outcome.verdict
  return saved.map fun () =>
    ⟨actionOf mode, status, some outcome.verdict, outcome.error, requeueAfter⟩

/-- Runs one attempt for a stack and records how it ended. A cancelled attempt leaves no record. -/
def reconcile (k : Keeper) (stack : Stack) : Dialogue Surroundings (Except Error Reconciled) :=
  match modeFor stack with
  | none => .done (.ok (letGo stack))
  | some mode => do
    match ← Attempt.run stack mode k.resolver k.attemptLimit with
    | none => return .error .cancelled
    | some outcome => k.settle stack mode outcome

def reconcileKey (k : Keeper) (key : Stack.Key) :
    Dialogue Surroundings (Except Error Reconciled) := do
  match ← Surroundings.ask (.load key) with
  | .error e => return .error e
  | .ok stack => k.reconcile stack

end Keeper

end StackKeeper

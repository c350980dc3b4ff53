import StackKeeper.Console.Resolution
import StackKeeper.Keeper.Installation
import StackKeeper.Url.Alphabets

/-!
# Reconciling stacks

The stacks of a directory, or those of them that are named, are reconciled. Each gets a line, and
the command succeeds if all have converged or were let go.
-/

namespace StackKeeper.Console

open Keeper (Reconciled Installation)

/-- Whether a stack is as it should be. A stack that was let go is. -/
def hasConverged : Except Error Reconciled → Bool
  | .error _ => false
  | .ok r =>
    match r.verdict with
    | none => true
    | some verdict => verdict.isSuccess && r.error.isNone

def commitText (r : Reconciled) : String :=
  ((r.status.lastUpdate.bind (·.lastAttemptedCommit)).getD "-")

def stackLine (k : Stack.Key) : Except Error Reconciled → String
  | .error e => s!"✗ {k.toText}: {e.message}"
  | .ok r =>
    match r.verdict with
    | none => s!"• {k.toText}: released"
    | some verdict =>
      if verdict.isSuccess && r.error.isNone then
        s!"✓ {k.toText}: {r.action.name} at {commitText r}"
      else
        let message := (r.error.map Error.message).getD ""
        s!"✗ {k.toText}: {verdict.title} at {commitText r}: {message}"

def summary (results : List (Stack.Key × Except Error Reconciled)) : Ending :=
  let failed := results.countP fun r => !hasConverged r.2
  let failure :=
    if failed = 0 then none
    else some (.plain s!"{failed} of {results.length} stacks did not converge")
  .finished (results.map fun (k, r) => stackLine k r) failure

/-! ## The operator's installation -/

def temporaryDirectory (environment : Dict String) : String :=
  (environment.get? "TMPDIR").getD "/tmp"

def workDirectory (s : Settings) (environment : Dict String) : String :=
  s.workDirectory.getD (Path.join (temporaryDirectory environment) "stackop")

def installationFor (s : Settings) (environment : Dict String) (values : Values)
    (directory : String) : Installation :=
  { store := ⟨directory, .withDefaults⟩
    source := ⟨s.git, Path.join (workDirectory s environment) "checkouts"⟩
    engine := s.engine
    values }

def keeperFor (s : Settings) (resolver : Resolver) : Keeper :=
  ⟨resolver, 1000 * s.retryInterval, s.attemptTimeout.map (1000 * ·)⟩

/-! ## The command -/

/-- The keys that were asked for; all there are if none was. -/
def keysOf (i : Installation) : List String → Host.Talk (Except Failure (List Stack.Key))
  | [] => do
    return (← i.store.list).mapError fun e => ⟨"Failed to list stacks", [.told e.message]⟩
  | texts => pure ((texts.mapM Stack.Key.ofText).mapError .ofError)

/-- Reconciles stacks, as far as the command has come after `patience` rounds of each. -/
def reconcile (i : Installation) (keeper : Keeper) (texts : List String)
    (maxAttempts : Option Nat) (patience : Nat) : Host.Talk (Option Ending) := do
  match ← keysOf i texts with
  | .error f => return some (.failed f)
  | .ok [] => return some (.finished ["No stacks found in " ++ i.store.root] none)
  | .ok keys => return (← i.pursueAll keeper patience maxAttempts keys).map summary

end StackKeeper.Console

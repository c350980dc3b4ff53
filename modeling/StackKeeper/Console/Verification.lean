import StackKeeper.Console.Ending
import StackKeeper.Host
import StackKeeper.Path
import StackKeeper.Stack.Check

/-!
# Validating manifests

Every manifest is checked, and gets a line that says whether it is good.
-/

namespace StackKeeper.Console

/-- The form of a manifest, by the name of its file. -/
def formatOf (path : String) : Stack.Format :=
  match (Path.fileName? path).bind Path.extension? with
  | some "yaml" => .yaml
  | some "yml" => .yaml
  | _ => .json

def manifestAt (path : String) : Host.Talk (Except Error Stack) := do
  match ← Host.readText path with
  | .error f => return .error (.io f.message)
  | .ok text => return Stack.ofManifest .withDefaults (formatOf path) text

def manifestLine (path : String) : Except Error Stack → String
  | .ok stack => s!"✓ {path} ({stack.key.toText}, stack {stack.spec.stack})"
  | .error e => s!"✗ {path}: {e.message}"

def isFailure {α : Type} : Except Error α → Bool
  | .ok _ => false
  | .error _ => true

def validate (paths : List String) : Host.Talk Ending := do
  let results ← paths.mapM fun path => do return (path, ← manifestAt path)
  let invalid := results.countP fun r => isFailure r.2
  let failure :=
    if invalid = 0 then none
    else some (.plain s!"{invalid} of {paths.length} manifests are invalid")
  return .finished (results.map fun (path, r) => manifestLine path r) failure

end StackKeeper.Console

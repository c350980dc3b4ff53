import StackKeeper.Kind
import StackKeeper.Json.Reader
import StackKeeper.Yaml.Meaning

/-!
# Checking manifests

A manifest is a text in JSON or YAML. It is good if it decodes as a stack and its spec passes all
checks that need no one else.
-/

namespace StackKeeper.Stack

inductive Format where
  | json
  | yaml
  deriving DecidableEq, Repr, Inhabited

def Format.read (f : Format) (text : String) : Except Error Json :=
  match f with
  | json => (Json.readValue text).mapError fun e => .config s!"invalid JSON: {e.message}"
  | yaml => (Yaml.readValue text).mapError fun e => .config s!"invalid YAML: {e.message}"

def ofManifest (r : Registry) (f : Format) (text : String) : Except Error Stack := do
  let stack ← r.decodeStack (← f.read text)
  stack.spec.validate
  return stack

end StackKeeper.Stack

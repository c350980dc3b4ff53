import StackKeeper.Lookup
import StackKeeper.Reference

/-!
# Resolving references

A literal stands for itself, a variable is looked up in a fixed environment, files and secrets are
read. In a dictionary of references each is resolved on its own, in whatever order they come in, and the
first failure stands for the whole, with the name of its entry in front.
-/

namespace StackKeeper

structure Resolver where
  /-- Namespace of secrets whose selector names none. -/
  defaultNamespace : String
  environment : Dict String
  deriving Inhabited

namespace Resolver

open Lookup

def variableValue (r : Resolver) (name : String) : Except Error String :=
  match r.environment.get? name with
  | some value => .ok value
  | none => .error (.notFound s!"environment variable {name}")

def resolve (r : Resolver) : Reference → Search String
  | .literal value => pure value
  | .env name => ExceptT.mk (pure (r.variableValue name))
  | .file path => Lookup.file path
  | .secret s => secretKey ⟨s.namespaceOr r.defaultNamespace, s.name⟩ s.key

def isFile : Reference → Bool
  | .file _ => true
  | _ => false

/-- The order in which the entries of a dictionary come in: files take longer than all others. -/
def arrivalOrder (references : Dict Reference) : List (String × Reference) :=
  references.entries.filter (fun e => !isFile e.2) ++
    references.entries.filter (fun e => isFile e.2)

/-- An order in which the entries of a dictionary may come in: each of them does, once. -/
structure Arrival (references : Dict Reference) where
  order : List (String × Reference)
  complete : order.Perm references.entries

def filesLast (references : Dict Reference) : Arrival references where
  order := arrivalOrder references
  complete := by
    have h := List.filter_append_perm (fun e => isFile e.2) references.entries
    exact List.perm_append_comm.trans h

/-- The values of all references, or the first failure to come in. -/
def gather (r : Resolver) {references : Dict Reference} (a : Arrival references) :
    Search (Dict String) := do
  let values ← a.order.mapM fun (name, reference) => do
    let value ← named name (r.resolve reference)
    pure (name, value)
  pure (Dict.ofList values)

/-- The values of all references, with those of files last. -/
def resolveAll (r : Resolver) (references : Dict Reference) : Search (Dict String) :=
  r.gather (filesLast references)

end Resolver

end StackKeeper

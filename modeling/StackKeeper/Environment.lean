import StackKeeper.Resolver
import StackKeeper.Stack.Spec

/-!
# The environment of the engine

Every run of the engine sees variables from five sources. Later sources override earlier ones:
backend URL, access token, config maps, secrets, references.
-/

namespace StackKeeper.Environment

open Lookup

def backendVariable : String := "PULUMI_BACKEND_URL"

def tokenVariable : String := "PULUMI_ACCESS_TOKEN"

def tokenKey : String := "accessToken"

def backendVariables (spec : Stack.Spec) : Dict String :=
  match spec.backend with
  | some url => if url.isEmpty then ∅ else Dict.singleton backendVariable url
  | none => ∅

/-- The variable for the access token, if a secret is named for it. -/
def tokenVariables (spec : Stack.Spec) (ns : String) : Search (Dict String) :=
  match spec.accessTokenSecret with
  | some secret => do
    let token ← named "accessTokenSecret" (secretKey ⟨ns, secret⟩ tokenKey)
    pure (Dict.singleton tokenVariable token)
  | none => pure ∅

/-- The variables that a spec asks for, where its references come in as `a` says; its secrets and
config maps stand in `ns`. -/
def buildIn (spec : Stack.Spec) (ns : String) (resolver : Resolver)
    (a : Resolver.Arrival spec.envRefs) : Search (Dict String) := do
  let token ← tokenVariables spec ns
  let maps ← spec.envs.mapM fun name => named "envs" (configMap ⟨ns, name⟩)
  let secrets ← spec.envSecrets.mapM fun name => named "envSecrets" (secret ⟨ns, name⟩)
  let references ← named "envRefs" (resolver.gather a)
  pure ((token :: maps ++ secrets ++ [references]).foldl Dict.union (backendVariables spec))

/-- The variables that a spec asks for, with those from files last. -/
def build (spec : Stack.Spec) (ns : String) (resolver : Resolver) : Search (Dict String) :=
  buildIn spec ns resolver (Resolver.filesLast spec.envRefs)

end StackKeeper.Environment

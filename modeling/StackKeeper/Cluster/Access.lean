import StackKeeper.Host
import StackKeeper.Yaml.Meaning

/-!
# Access to a cluster

A configuration file says which cluster to talk to: its current context names a cluster, and that
has a server.
-/

namespace StackKeeper.Cluster

def textMember (v : Json) (name : String) : Except String String :=
  match v.get? name with
  | some (.string s) => .ok s
  | _ => .error s!"{name} is missing"

def hasName (name : String) (v : Json) : Bool :=
  match textMember v "name" with
  | .ok s => s == name
  | .error _ => false

def namedEntry (v : Json) (list key name : String) : Except String Json :=
  let entries := match v.get? list with
    | some (.array entries) => entries
    | _ => []
  match (entries.find? (hasName name)).bind (·.get? key) with
  | some part => .ok part
  | none => .error s!"{list} has no {name}"

def serverOf (text : String) : Except String String := do
  let config ← (Yaml.readValue text).mapError (·.message)
  let context ← namedEntry config "contexts" "context" (← textMember config "current-context")
  let cluster ← namedEntry config "clusters" "cluster" (← textMember context "cluster")
  textMember cluster "server"

def configPath? (environment : Dict String) : Option String :=
  (environment.get? "KUBECONFIG").or ((environment.get? "HOME").map (· ++ "/.kube/config"))

def findServer (environment : Dict String) : Host.Talk (Except String String) := do
  match configPath? environment with
  | none => return .error "no configuration of a cluster"
  | some path =>
    match ← Host.readText path with
    | .error f => return .error f.message
    | .ok text => return serverOf text

end StackKeeper.Cluster

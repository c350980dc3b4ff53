import StackKeeper.Cluster.Access
import StackKeeper.Console.Ending
import StackKeeper.Json.Reader
import StackKeeper.Lookup

/-!
# Secrets for a command

Secrets and config maps come from a file, or from the cluster that the environment leads to.
-/

namespace StackKeeper.Console

open Json Json.FieldReader

/-- Secrets and config maps as they stand in a file, under `namespace/name`. -/
structure SecretsFile where
  secrets : Dict (Dict String)
  configMaps : Dict (Dict String)

namespace SecretsFile

def fields : List String := ["secrets", "configMaps"]

def decode : Decoder SecretsFile :=
  withoutRepeats fields <| record "SecretsFile" fields <|
    SecretsFile.mk <$> defaulted "secrets" (dictOf (dictOf text)) ∅
      <*> defaulted "configMaps" (dictOf (dictOf text)) ∅

/-- The detail of why a text cannot be read, or what stands in it. -/
def ofText (text : String) : Except String SecretsFile := do
  let value ← (Json.read text).mapError (·.message)
  (decode value).mapError (·.message)

def entryName (id : String) : Except String EntryName :=
  let refuse : Except String EntryName := .error s!"expected namespace/name, got {Text.quoted id}"
  match Text.splitAtFirst '/' id.toList with
  | some (ns, name) =>
    if ns.isEmpty || name.isEmpty then refuse else .ok ⟨String.ofList ns, String.ofList name⟩
  | none => refuse

def addAll (add : MemorySecrets → EntryName → Dict String → MemorySecrets) (s : MemorySecrets)
    (entries : Dict (Dict String)) : Except String MemorySecrets :=
  entries.entries.foldlM (fun s (id, data) => do return add s (← entryName id) data) s

def toStore (f : SecretsFile) : Except String MemorySecrets := do
  let s ← addAll .insertSecret .empty f.secrets
  addAll .insertConfigMap s f.configMaps

end SecretsFile

abbrev Values := (r : Lookup.Request) → Host.Talk (Lookup.Reply r)

def storeInFile (path : String) : Host.Talk (Except Failure MemorySecrets) := do
  match ← Host.readText path with
  | .error f => return .error ⟨"Failed to read secrets file: " ++ path, [.told f.message]⟩
  | .ok text =>
    match SecretsFile.ofText text with
    | .error detail =>
      return .error ⟨"Failed to parse secrets file: " ++ path, [.unreadable detail]⟩
    | .ok file => return file.toStore.mapError .plain

/-- A cluster to which there is no connection. -/
def unreachable (server path : String) : Except String Cluster.Response :=
  .error s!"no connection to {server}{path}"

def valuesFor (secretsFile : Option String) (environment : Dict String) :
    Host.Talk (Except Failure Values) := do
  match secretsFile with
  | some path => return (← storeInFile path).map Lookup.fromMemory
  | none =>
    match ← Cluster.findServer environment with
    | .error detail => return .error ⟨"Failed to connect to Kubernetes for secrets", [.told detail]⟩
    | .ok server => return .ok (Lookup.fromCluster (unreachable server))

end StackKeeper.Console

import StackKeeper.Cluster
import StackKeeper.Host
import StackKeeper.SecretStore

/-!
# Looking values up

What resolving a reference may ask for: a whole secret, a whole config map, or the text of a file.
-/

namespace StackKeeper

namespace Lookup

inductive Request where
  | secret (name : EntryName)
  | configMap (name : EntryName)
  | file (path : String)
  deriving DecidableEq, Repr

def Reply : Request → Type
  | .secret _ => Except Error (Dict String)
  | .configMap _ => Except Error (Dict String)
  | .file _ => Except Host.Fault String

end Lookup

/-- The stores and files that values come from. -/
abbrev Lookup : Service := ⟨Lookup.Request, Lookup.Reply⟩

namespace Lookup

def fromMemory (s : MemorySecrets) : (r : Request) → Host.Talk (Reply r)
  | .secret name => pure (s.secret name)
  | .configMap name => pure (s.configMap name)
  | .file path => Host.readText path

def fromCluster (fetch : String → Except String Cluster.Response) :
    (r : Request) → Host.Talk (Reply r)
  | .secret name => pure (Cluster.fetched fetch (Cluster.secret name))
  | .configMap name => pure (Cluster.fetched fetch (Cluster.configMap name))
  | .file path => Host.readText path

abbrev Search (α : Type) := ExceptT Error (Dialogue Lookup) α

def secret (name : EntryName) : Search (Dict String) :=
  ExceptT.mk (.ask (.secret name) .done)

def configMap (name : EntryName) : Search (Dict String) :=
  ExceptT.mk (.ask (.configMap name) .done)

/-- The text of a file; a failure names the file. -/
def file (path : String) : Search String :=
  ExceptT.mk (.ask (.file path) fun text =>
    .done (text.mapError fun fault => .io s!"reading {path}: {fault.message}"))

def secretKey (name : EntryName) (key : String) : Search String := do
  let data ← secret name
  ExceptT.mk (pure (Secret.valueOf name key data))

def fail {α : Type} (e : Error) : Search α := ExceptT.mk (pure (.error e))

/-- Puts the name of a source before the errors that are about it. -/
def named {α : Type} (name : String) (t : Search α) : Search α :=
  ExceptT.mk (do return (← t.run).mapError (Error.within name))

def failingAs {α : Type} (f : Error → Error) (t : Search α) : Search α :=
  ExceptT.mk (do return (← t.run).mapError f)

end Lookup

end StackKeeper

import StackKeeper.Host
import StackKeeper.Json.Printer
import StackKeeper.Json.Reader
import StackKeeper.Kind
import StackKeeper.Path

/-!
# Stores of stacks

A store keeps stacks under their keys: in memory, or as manifests in a directory, where the place of
a file is the identity of its stack. Both can give a stack, replace its status and list all keys.
-/

namespace StackKeeper.Stack

def missing (k : Key) : Error := .notFound s!"stack {k.toText}"

/-! ## In memory -/

/-- Stacks in memory, each under a key of its own. -/
structure MemoryStore where
  entries : List (Key × Stack)
  deriving Inhabited

namespace MemoryStore

def empty : MemoryStore := ⟨[]⟩

def put (s : MemoryStore) (k : Key) (stack : Stack) : MemoryStore :=
  ⟨(k, stack) :: s.entries.filter (·.1 != k)⟩

/-- Keeps a stack under its own key. -/
def insert (s : MemoryStore) (stack : Stack) : MemoryStore := s.put stack.key stack

def get (s : MemoryStore) (k : Key) : Except Error Stack :=
  match s.entries.lookup k with
  | some stack => .ok stack
  | none => .error (missing k)

def updateStatus (s : MemoryStore) (k : Key) (status : Status) : Except Error MemoryStore := do
  let stack ← s.get k
  return s.put k { stack with status := some status }

def list (s : MemoryStore) : List Key := (s.entries.map (·.1)).mergeSort Key.le

end MemoryStore

/-! ## In a directory -/

/-- Manifests in a directory, at `namespace/name.json`. -/
structure FileStore where
  root : String
  registry : Registry
  deriving DecidableEq, Repr, Inhabited

namespace FileStore

def path (s : FileStore) (k : Key) : String :=
  Path.join (Path.join s.root k.namespace) (k.name ++ ".json")

/-- The place a manifest is written to before it takes the place of the old one. -/
def draftPath (path : String) : String :=
  match Path.fileName? path with
  | some name =>
    let ending := if (Path.extension? name).isSome then ".tmp" else ".json.tmp"
    path ++ ending
  | none => path

def ofText (s : FileStore) (k : Key) (text : String) : Except Error Stack := do
  let value ← (Json.readValue text).mapError fun f => .config s!"{s.path k}: {f.message}"
  let stack ← s.registry.decodeStack value
  return { stack with
    metadata := { stack.metadata with «namespace» := some k.namespace, name := some k.name } }

def get (s : FileStore) (k : Key) : Host.Talk (Except Error Stack) := do
  match ← Host.readText (s.path k) with
  | .error .notFound => return .error (missing k)
  | .error f => return .error (.io s!"reading {s.path k}: {f.message}")
  | .ok text => return s.ofText k text

/-- Writes a manifest at once: whoever reads it finds the old one or the new one. -/
def put (s : FileStore) (k : Key) (stack : Stack) : Host.Talk (Except Error Unit) := do
  let path := s.path k
  let text := Utf8.encode (Json.pretty stack.encode)
  match ← Host.writeFile (draftPath path) text .default with
  | .error f => return .error (.io f.message)
  | .ok () =>
    return (← Host.rename (draftPath path) path).mapError fun f => .io f.message

def updateStatus (s : FileStore) (k : Key) (status : Status) : Host.Talk (Except Error Unit) := do
  match ← s.get k with
  | .error e => return .error e
  | .ok stack => s.put k { stack with status := some status }

/-- The name of the stack that a file is the manifest of. -/
def stackName? (fileName : String) : Option String :=
  if Path.extension? fileName = some "json" then some (Path.stem fileName) else none

def keysIn (s : FileStore) : List Host.Entry → Host.Talk (Except Error (List Key))
  | [] => pure (.ok [])
  | entry :: rest => do
    if !entry.isDirectory then keysIn s rest
    else
      match ← Host.listDirectory (Path.join s.root entry.name) with
      | .error f => return .error (.io f.message)
      | .ok files =>
        let keys := (files.filterMap fun f => stackName? f.name).map (Key.mk entry.name)
        return (← keysIn s rest).map (keys ++ ·)

/-- The keys of all manifests, in order. A directory that is not there holds none. -/
def list (s : FileStore) : Host.Talk (Except Error (List Key)) := do
  match ← Host.listDirectory s.root with
  | .error .notFound => return .ok []
  | .error f => return .error (.io f.message)
  | .ok entries => return (← s.keysIn entries).map (·.mergeSort Key.le)

end FileStore

end StackKeeper.Stack

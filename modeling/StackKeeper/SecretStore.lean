import StackKeeper.Dict
import StackKeeper.Error
import StackKeeper.Text.Quoted

/-!
# Stores of secrets and config maps

Both kinds of entry are dictionaries under a namespace and a name. A store in memory can refuse
access to single secrets.
-/

namespace StackKeeper

structure EntryName where
  «namespace» : String
  name : String
  deriving DecidableEq, Repr, Inhabited

def EntryName.toText (n : EntryName) : String := n.namespace ++ "/" ++ n.name

def Secret.valueOf (n : EntryName) (key : String) (data : Dict String) : Except Error String :=
  match data.get? key with
  | some value => .ok value
  | none => .error (.notFound s!"key {Text.quoted key} in secret {n.toText}")

structure MemorySecrets where
  secrets : List (EntryName × Dict String)
  configMaps : List (EntryName × Dict String)
  /-- Secrets that may not be read. -/
  denied : List EntryName
  deriving DecidableEq, Inhabited

namespace MemorySecrets

def empty : MemorySecrets := ⟨[], [], []⟩

def insertSecret (s : MemorySecrets) (n : EntryName) (data : Dict String) : MemorySecrets :=
  { s with secrets := (n, data) :: s.secrets }

def insertConfigMap (s : MemorySecrets) (n : EntryName) (data : Dict String) : MemorySecrets :=
  { s with configMaps := (n, data) :: s.configMaps }

def deny (s : MemorySecrets) (n : EntryName) : MemorySecrets :=
  { s with denied := n :: s.denied }

def secret (s : MemorySecrets) (n : EntryName) : Except Error (Dict String) :=
  if n ∈ s.denied then .error (.accessDenied s!"secret {n.toText}")
  else match s.secrets.lookup n with
    | some data => .ok data
    | none => .error (.notFound s!"secret {n.toText}")

def configMap (s : MemorySecrets) (n : EntryName) : Except Error (Dict String) :=
  match s.configMaps.lookup n with
  | some data => .ok data
  | none => .error (.notFound s!"config map {n.toText}")

end MemorySecrets

end StackKeeper

import StackKeeper.Stack.Key
import StackKeeper.Stack.Metadata
import StackKeeper.Stack.Spec

/-!
# Stack manifests

A stack as it is kept: its identity and marks, what it should be and what was last seen of it.
-/

namespace StackKeeper

structure Stack where
  apiVersion : String
  kind : String
  metadata : Stack.Metadata
  spec : Stack.Spec
  status : Option Stack.Status
  deriving Inhabited

namespace Stack

open Json Json.FieldReader

def key (s : Stack) : Key :=
  ⟨s.metadata.namespace.getD Key.defaultNamespace, s.metadata.name.getD ""⟩

def isBeingDeleted (s : Stack) : Bool := s.metadata.deletionTimestamp.isSome

def encode (s : Stack) : Json :=
  .object (member "apiVersion" (.string s.apiVersion) ++ member "kind" (.string s.kind) ++
    member "metadata" s.metadata.encode ++ member "spec" s.spec.encode ++
    memberOf? "status" Status.encode s.status)

def decode : Decoder Stack :=
  record "Stack" ["apiVersion", "kind", "metadata", "spec", "status"] <|
    Stack.mk <$> required "Stack" "apiVersion" text
      <*> required "Stack" "kind" text
      <*> defaulted "metadata" Metadata.decode Metadata.empty
      <*> required "Stack" "spec" Spec.decode
      <*> optional "status" Status.decode

end Stack

end StackKeeper

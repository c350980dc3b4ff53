import StackKeeper.Stack.Manifest

/-!
# Kinds of resources

A manifest names its kind by `apiVersion` and `kind`. A registry holds the kinds that are
understood; a manifest is decoded only as the kind it names, and only if that is registered.
-/

namespace StackKeeper

structure Kind where
  apiVersion : String
  name : String
  deriving DecidableEq, Repr, Inhabited

def Kind.toText (k : Kind) : String := k.apiVersion ++ "/" ++ k.name

def Stack.resourceKind : Kind := ⟨"pulumi.com/v1alpha1", "Stack"⟩

structure Registry where
  kinds : List Kind
  deriving DecidableEq, Repr, Inhabited

namespace Registry

def withDefaults : Registry := ⟨[Stack.resourceKind]⟩

def kindOf (v : Json) : Except Error Kind :=
  match v.get? "apiVersion" with
  | some (.string apiVersion) =>
    match v.get? "kind" with
    | some (.string name) => .ok ⟨apiVersion, name⟩
    | _ => .error (.config "manifest has no kind")
  | _ => .error (.config "manifest has no apiVersion")

def decodeAs {α : Type} (r : Registry) (kind : Kind) (d : Json.Decoder α) (v : Json) :
    Except Error α := do
  let named ← kindOf v
  if named ∉ r.kinds then throw (.config s!"unregistered resource kind {named.toText}")
  if named ≠ kind then throw (.config s!"expected {kind.toText}, got {named.toText}")
  (d v).mapError fun m => .config s!"invalid {kind.name}: {m.message}"

def decodeStack (r : Registry) (v : Json) : Except Error Stack :=
  r.decodeAs Stack.resourceKind Stack.decode v

end Registry

end StackKeeper

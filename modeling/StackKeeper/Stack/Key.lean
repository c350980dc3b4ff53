import StackKeeper.Error
import StackKeeper.Text.Blank
import StackKeeper.Text.Quoted

/-!
# Stack keys

A stack is known by a namespace and a name, written `namespace/name`.
-/

namespace StackKeeper

structure Stack.Key where
  «namespace» : String
  name : String
  deriving DecidableEq, Repr, Inhabited

namespace Stack.Key

def defaultNamespace : String := "default"

def toText (k : Key) : String := k.namespace ++ "/" ++ k.name

/-- Reads a key. The namespace ends at the first slash; without a slash the text is a name. -/
def ofText (s : String) : Except Error Key :=
  let refuse : Except Error Key := .error (.config s!"invalid stack key: {Text.quoted s}")
  match Text.splitAtFirst '/' s.toList with
  | some (ns, name) =>
    if ns.isEmpty || name.isEmpty then refuse else .ok ⟨String.ofList ns, String.ofList name⟩
  | none => if s.isEmpty then refuse else .ok ⟨defaultNamespace, s⟩

/-- Keys in order of namespace, then name. -/
def le (a b : Key) : Bool :=
  a.namespace < b.namespace || (a.namespace == b.namespace && a.name ≤ b.name)

end Stack.Key

end StackKeeper

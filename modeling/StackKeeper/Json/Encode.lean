import StackKeeper.Dict
import StackKeeper.Json.Basic

/-!
# Encoding records as JSON

A record becomes an object with its fields in declaration order. Fields that hold nothing are left
out.
-/

namespace StackKeeper.Json

variable {α : Type}

def ofDict (f : α → Json) (d : Dict α) : Json := .object (d.entries.map fun e => (e.1, f e.2))

def ofList (f : α → Json) (l : List α) : Json := .array (l.map f)

/-- A field that is always there. -/
def member (name : String) (v : Json) : List (String × Json) := [(name, v)]

/-- A field that is left out when there is no value. -/
def memberOf? (name : String) (f : α → Json) : Option α → List (String × Json)
  | none => []
  | some a => [(name, f a)]

def memberOfList (name : String) (f : α → Json) (l : List α) : List (String × Json) :=
  if l.isEmpty then [] else [(name, ofList f l)]

def memberOfDict (name : String) (f : α → Json) (d : Dict α) : List (String × Json) :=
  if d.isEmpty then [] else [(name, ofDict f d)]

end StackKeeper.Json

import StackKeeper.Decimal.Shortest

/-!
# JSON values

Numbers keep the form they were written in: whole numbers of 64 bits stay whole, all others are
floating-point. Members of an object keep the order they were given in; `Json.canonical` puts them
into key order, the last of several members with one key winning.
-/

namespace StackKeeper

inductive Json.Number where
  | integer (i : Int)
  | float (x : Decimal.Binary64)
  deriving DecidableEq, Inhabited

inductive Json where
  | null
  | bool (b : Bool)
  | number (n : Json.Number)
  | string (s : String)
  | array (items : List Json)
  | object (members : List (String × Json))
  deriving Inhabited

namespace Json

def int (i : Int) : Json := .number (.integer i)

/-- A text, or null where there is none. -/
def ofText? : Option String → Json
  | none => .null
  | some s => .string s

/-- Puts a member in front of a list in key order, unless a later one has its key. -/
def addMember (k : String) (v : Json) : List (String × Json) → List (String × Json)
  | [] => [(k, v)]
  | (k', v') :: rest =>
    if k < k' then (k, v) :: (k', v') :: rest
    else if k = k' then (k', v') :: rest
    else (k', v') :: addMember k v rest

/-- Members in key order; of several with one key the last. -/
def sortMembers (members : List (String × Json)) : List (String × Json) :=
  members.foldr (fun m sorted => addMember m.1 m.2 sorted) []

mutual

def canonical : Json → Json
  | .array items => .array (canonicalItems items)
  | .object members => .object (sortMembers (canonicalMembers members))
  | v => v

def canonicalItems : List Json → List Json
  | [] => []
  | v :: rest => v.canonical :: canonicalItems rest

def canonicalMembers : List (String × Json) → List (String × Json)
  | [] => []
  | (k, v) :: rest => (k, v.canonical) :: canonicalMembers rest

end

/-- The value of a member, the first under its key. -/
def member? (k : String) : List (String × Json) → Option Json
  | [] => none
  | (k', v) :: rest => if k' = k then some v else member? k rest

def get? (k : String) : Json → Option Json
  | .object members => member? k members
  | _ => none

end Json

end StackKeeper

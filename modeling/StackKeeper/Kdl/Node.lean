import StackKeeper.Kdl.Scalar

/-!
# KDL documents

A document is a list of nodes. A node has a name, arguments and properties, and children. What a
slash and a dash stand before is read and left out. Types are read and not kept.
-/

namespace StackKeeper

namespace Kdl

structure Entry where
  name : Option String
  value : Value
  deriving DecidableEq, Repr, Inhabited

structure Node where
  name : String
  entries : List Entry
  children : List Node
  deriving Repr, Inhabited

abbrev Document := List Node

inductive Fault where
  | unreadable
  deriving DecidableEq, Repr, Inhabited

def Fault.message : Fault → String
  | unreadable => "Failed to parse KDL document"

/-- The text after a type in parentheses, if there is one. -/
def afterType? (cs : List Char) : Option (List Char) :=
  match cs with
  | '(' :: rest => do
    let (_, rest) ← string? (← nodeSpace rest)
    match ← nodeSpace rest with
    | ')' :: after => nodeSpace after
    | _ => none
  | _ => some cs

def typedValue? (cs : List Char) : Option (Value × List Char) := do scalar? (← afterType? cs)

/-- Whether an equals sign follows, and the text after it. -/
def afterEquals? (cs : List Char) : Option (List Char) := do
  match ← nodeSpace cs with
  | '=' :: rest => nodeSpace rest
  | _ => none

def entry? (cs : List Char) : Option (Entry × List Char) :=
  match string? cs with
  | some (name, rest) =>
    match afterEquals? rest with
    | some value => (typedValue? value).map fun (v, after) => (⟨some name, v⟩, after)
    | none => some (⟨none, .string name⟩, rest)
  | none => (typedValue? cs).map fun (v, after) => (⟨none, v⟩, after)

def endsNode (cs : List Char) : Bool :=
  match cs with
  | [] => true
  | ';' :: _ => true
  | '\x7d' :: _ => true
  | '/' :: '/' :: _ => true
  | _ => (afterNewline? cs).isSome

/-- The text after what ends a node. A brace that ends the list of nodes stays. -/
def afterNode (cs : List Char) : List Char :=
  match cs with
  | ';' :: rest => rest
  | '/' :: '/' :: rest => afterLineComment rest
  | '\x7d' :: _ => cs
  | _ => (afterNewline? cs).getD cs

structure Parts where
  entries : List Entry
  children : Option (List Node)
  /-- Whether only children may follow. -/
  closed : Bool

def Parts.empty : Parts := ⟨[], none, false⟩

mutual

/-- The nodes up to the end of the text or a closing brace. -/
def nodes? : Nat → List Char → Option (List Node × List Char)
  | 0, _ => none
  | fuel + 1, cs => do
    match ← lineSpace cs with
    | [] => return ([], [])
    | '\x7d' :: rest => return ([], '\x7d' :: rest)
    | '/' :: '-' :: rest =>
      let (_, after) ← node? fuel (← lineSpace rest)
      nodes? fuel (afterNode after)
    | rest =>
      let (n, after) ← node? fuel rest
      let (more, after) ← nodes? fuel (afterNode after)
      return (n :: more, after)

def node? : Nat → List Char → Option (Node × List Char)
  | 0, _ => none
  | fuel + 1, cs => do
    let (name, rest) ← string? (← afterType? cs)
    let (p, after) ← parts? fuel .empty rest
    return (⟨name, p.entries.reverse, p.children.getD []⟩, after)

def parts? : Nat → Parts → List Char → Option (Parts × List Char)
  | 0, _, _ => none
  | fuel + 1, p, cs => do
    let rest ← nodeSpace cs
    if endsNode rest then return (p, rest)
    match rest with
    | '/' :: '-' :: hidden =>
      match ← lineSpace hidden with
      | '\x7b' :: body =>
        let (_, after) ← children? fuel body
        parts? fuel { p with closed := true } after
      | hidden =>
        if p.closed then none
        else
          let (_, after) ← entry? hidden
          parts? fuel p after
    | '\x7b' :: body =>
      if p.children.isSome then none
      else
        let (l, after) ← children? fuel body
        parts? fuel { p with children := some l, closed := true } after
    | _ =>
      if p.closed ∨ rest.length = cs.length then none
      else
        let (e, after) ← entry? rest
        parts? fuel { p with entries := e :: p.entries } after

def children? : Nat → List Char → Option (List Node × List Char)
  | 0, _ => none
  | fuel + 1, cs => do
    match ← nodes? fuel cs with
    | (l, '\x7d' :: after) => return (l, after)
    | _ => none

end

/-- The calls of the functions above that a text of this length can need: each part that is read
takes no more than four calls and at least one character. -/
def depth (length : Nat) : Nat := 4 * length + 4

def document? (s : String) : Except Fault Document :=
  let cs := match s.toList with
    | '\ufeff' :: rest => rest
    | cs => cs
  match nodes? (depth cs.length) cs with
  | some (l, []) => .ok l
  | _ => .error .unreadable

end Kdl

end StackKeeper

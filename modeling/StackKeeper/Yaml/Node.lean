import StackKeeper.Yaml.Token

/-!
# YAML documents

A document is a tree of scalars, sequences and mappings. Aliases are replaced by the nodes they
name, so the tree stands for itself. A text may hold one document only.
-/

namespace StackKeeper

/-- A node of a document, with its full tag if it has one. -/
inductive Yaml where
  | scalar (text : String) (style : Yaml.Style) (tag : Option String)
  | sequence (items : List Yaml) (tag : Option String)
  | mapping (entries : List (Yaml × Yaml)) (tag : Option String)
  deriving Inhabited

namespace Yaml

/-- What is left to read of a document, and what its names stand for. -/
structure Reader where
  tokens : List Token
  anchors : List (String × Yaml)
  /-- Handles of tags and what they stand for. -/
  handles : List (String × String)

abbrev Reading (α : Type) := StateT Reader (Except Fault) α

namespace Reader

def fail {α : Type} (f : Fault) : Reading α := fun _ => .error f

def peek : Reading Token := do return (← get).tokens.headD .streamEnd

def skip : Reading Unit := modify fun r => { r with tokens := r.tokens.tail }

def accept (t : Token) : Reading Bool := do
  if (← peek) == t then
    skip
    return true
  else return false

def empty : Yaml := .scalar "" .plain none

def standardHandles : List (String × String) := [("!", "!"), ("!!", "tag:yaml.org,2002:")]

def fullTag (handle suffix : String) : Reading String := do
  if handle.isEmpty then return suffix
  match ((← get).handles ++ standardHandles).lookup handle with
  | some start => return start ++ suffix
  | none => fail .tag

/-- The anchor and the tag in front of a node, in either order. -/
def properties : Reading (Option String × Option String) := do
  match ← peek with
  | .anchor name =>
    skip
    match ← peek with
    | .tag handle suffix =>
      skip
      return (some name, some (← fullTag handle suffix))
    | _ => return (some name, none)
  | .tag handle suffix =>
    skip
    let tag ← fullTag handle suffix
    match ← peek with
    | .anchor name =>
      skip
      return (some name, some tag)
    | _ => return (none, some tag)
  | _ => return (none, none)

def endsIndentless : Token → Bool
  | .blockEntry | .key | .value | .blockEnd => true
  | _ => false

def endsBlockEntry : Token → Bool
  | .blockEntry | .blockEnd => true
  | _ => false

def endsBlockPart : Token → Bool
  | .key | .value | .blockEnd => true
  | _ => false

def endsFlowKey (close : Token) (t : Token) : Bool := t == .value || t == .flowEntry || t == close

def endsFlowValue (close : Token) (t : Token) : Bool := t == .flowEntry || t == close

mutual

/-- A node. In block context it may be a block collection, and as the value of a key a sequence
whose entries are not indented. -/
def node (fuel : Nat) (block indentless : Bool) : Reading Yaml :=
  match fuel with
  | 0 => fail (.expected "the end")
  | fuel + 1 => do
    match ← peek with
    | .alias name =>
      skip
      match (← get).anchors.lookup name with
      | some n => return n
      | none => fail (.unknownAlias name)
    | _ =>
      let (anchor, tag) ← properties
      let n ← content fuel block indentless (anchor.isSome || tag.isSome) tag
      match anchor with
      | some name => modify fun r => { r with anchors := (name, n) :: r.anchors }
      | none => pure ()
      return n

def content (fuel : Nat) (block indentless mayBeEmpty : Bool) (tag : Option String) :
    Reading Yaml :=
  match fuel with
  | 0 => fail (.expected "the end")
  | fuel + 1 => do
    match ← peek with
    | .scalar text style =>
      skip
      -- A lone exclamation mark says nothing about a scalar.
      return .scalar text style (tag.filter (· != "!"))
    | .flowSequenceStart =>
      skip
      return .sequence (← flowItems fuel true) tag
    | .flowMappingStart =>
      skip
      return .mapping (← flowEntries fuel true) tag
    | .blockEntry =>
      if indentless then return .sequence (← indentlessItems fuel) tag
      else if mayBeEmpty then return .scalar "" .plain tag
      else fail (.expected "a node")
    | .blockSequenceStart =>
      if block then
        skip
        return .sequence (← blockItems fuel) tag
      else if mayBeEmpty then return .scalar "" .plain tag
      else fail (.expected "a node")
    | .blockMappingStart =>
      if block then
        skip
        return .mapping (← blockEntries fuel) tag
      else if mayBeEmpty then return .scalar "" .plain tag
      else fail (.expected "a node")
    | _ => if mayBeEmpty then return .scalar "" .plain tag else fail (.expected "a node")

/-- A node, or an empty scalar where what comes next ends it. -/
def nodeUnless (fuel : Nat) (ends : Token → Bool) (block indentless : Bool) : Reading Yaml :=
  match fuel with
  | 0 => fail (.expected "the end")
  | fuel + 1 => do
    if ends (← peek) then return empty else node fuel block indentless

def blockItems (fuel : Nat) : Reading (List Yaml) :=
  match fuel with
  | 0 => fail (.expected "the end")
  | fuel + 1 => do
    if ← accept .blockEntry then
      let item ← nodeUnless fuel endsBlockEntry true false
      return item :: (← blockItems fuel)
    else if ← accept .blockEnd then return []
    else fail (.expected "a dash")

def indentlessItems (fuel : Nat) : Reading (List Yaml) :=
  match fuel with
  | 0 => fail (.expected "the end")
  | fuel + 1 => do
    if ← accept .blockEntry then
      let item ← nodeUnless fuel endsIndentless true false
      return item :: (← indentlessItems fuel)
    else return []

def blockEntries (fuel : Nat) : Reading (List (Yaml × Yaml)) :=
  match fuel with
  | 0 => fail (.expected "the end")
  | fuel + 1 => do
    if ← accept .key then
      let key ← nodeUnless fuel endsBlockPart true true
      let value ← do
        if ← accept .value then nodeUnless fuel endsBlockPart true true else pure empty
      return (key, value) :: (← blockEntries fuel)
    else if ← accept .blockEnd then return []
    else fail (.expected "a key")

def flowItems (fuel : Nat) (first : Bool) : Reading (List Yaml) :=
  match fuel with
  | 0 => fail (.expected "the end")
  | fuel + 1 => do
    if ← accept .flowSequenceEnd then return []
    if !first && !(← accept .flowEntry) then fail (.expected "a comma or a bracket")
    if ← accept .key then
      let key ← nodeUnless fuel (endsFlowKey .flowSequenceEnd) false false
      let value ← do
        if ← accept .value then nodeUnless fuel (endsFlowValue .flowSequenceEnd) false false
        else pure empty
      return .mapping [(key, value)] none :: (← flowItems fuel false)
    else if ← accept .flowSequenceEnd then return []
    else
      let item ← node fuel false false
      return item :: (← flowItems fuel false)

def flowEntries (fuel : Nat) (first : Bool) : Reading (List (Yaml × Yaml)) :=
  match fuel with
  | 0 => fail (.expected "the end")
  | fuel + 1 => do
    if ← accept .flowMappingEnd then return []
    if !first && !(← accept .flowEntry) then fail (.expected "a comma or a brace")
    if ← accept .key then
      let key ← nodeUnless fuel (endsFlowKey .flowMappingEnd) false false
      let value ← do
        if ← accept .value then nodeUnless fuel (endsFlowValue .flowMappingEnd) false false
        else pure empty
      return (key, value) :: (← flowEntries fuel false)
    else if ← accept .flowMappingEnd then return []
    else
      let key ← node fuel false false
      return (key, empty) :: (← flowEntries fuel false)

end

/-- Takes in directives, each handle at most once. -/
def directives (fuel : Nat) (found : List (String × String)) (versions : Nat) :
    Reading (List (String × String) × Bool) :=
  match fuel with
  | 0 => fail (.expected "the end")
  | fuel + 1 => do
    match ← peek with
    | .versionDirective =>
      skip
      if versions = 0 then directives fuel found 1 else fail .directive
    | .tagDirective handle start =>
      skip
      if (found.lookup handle).isSome then fail .directive
      else directives fuel ((handle, start) :: found) versions
    | _ => return (found, !found.isEmpty || versions != 0)

def skipDocumentEnds (fuel : Nat) : Reading Unit :=
  match fuel with
  | 0 => pure ()
  | fuel + 1 => do if ← accept .documentEnd then skipDocumentEnds fuel

/-- Whether a document without content ends with this token. -/
def endsDocument : Token → Bool
  | .versionDirective | .tagDirective .. | .documentStart | .documentEnd | .streamEnd => true
  | _ => false

def single (fuel : Nat) : Reading (Option Yaml) := do
  let (handles, given) ← directives fuel [] 0
  let document ← do
    if ← accept .documentStart then
      modify fun r => { r with handles }
      some <$> nodeUnless fuel endsDocument true false
    else if given then fail (.expected "the start of a document")
    else
      if (← peek) == .streamEnd then pure none
      else some <$> node fuel true false
  skipDocumentEnds fuel
  if (← peek) == .streamEnd then return document
  else if (← peek) == .documentStart then fail .severalDocuments
  else fail (.expected "the end of the document")

end Reader

def document? (s : String) : Except Fault (Option Yaml) := do
  let ts ← tokens s
  let (document, _) ← (Reader.single (4 * ts.length + 4)).run ⟨ts, [], []⟩
  .ok document

end Yaml

end StackKeeper

import StackKeeper.Host
import StackKeeper.Path

/-!
# Trees of files

A tree maps locations to what stands there. A path leads to a location step by step: every step has
to start at a directory, so a path can fail on the way although the text of its end is in the tree.
-/

namespace StackKeeper

/-- Where something stands: the names on the way from the root. -/
abbrev Location := List String

def Location.toText (l : Location) : String := "/" ++ "/".intercalate l

inductive FileTree.Thing where
  | directory
  | file (content : Bytes) (mode : Host.Mode)
  /-- Something that can be run. -/
  | program
  deriving DecidableEq, Inhabited

structure FileTree where
  things : List (Location × FileTree.Thing)
  deriving Inhabited

namespace FileTree

open Host (Fault)

def empty : FileTree := ⟨[]⟩

/-- What stands at a location. The root is a directory. -/
def at? (t : FileTree) (l : Location) : Option Thing :=
  if l.isEmpty then some .directory else t.things.lookup l

def put (t : FileTree) (l : Location) (x : Thing) : FileTree :=
  ⟨(l, x) :: t.things.filter (·.1 != l)⟩

def prune (t : FileTree) (l : Location) : FileTree :=
  ⟨t.things.filter fun e => !l.isPrefixOf e.1⟩

/-! ## Paths -/

def longestName : Nat := 255

def longestPath : Nat := 4095

/-- The steps of a path. A slash at the end is a step that stays in place. -/
def steps (path : String) : List String :=
  let pieces := (Text.splitOnChar '/' path.toList).map String.ofList
  pieces.filter (!·.isEmpty) ++
    (if path.toList.getLast? == some '/' then ["."] else [])

def step (t : FileTree) (here : Location) (name : String) : Except Fault Location :=
  match t.at? here with
  | none => .error .notFound
  | some .directory =>
    if longestName < name.utf8ByteSize then .error .nameTooLong
    else if name == "." then .ok here
    else if name == ".." then .ok here.dropLast
    else .ok (here ++ [name])
  | some _ => .error .notDirectory

/-- The location that a path leads to. Nothing needs to stand there. -/
def locate (t : FileTree) (here : Location) (path : String) : Except Fault Location :=
  if path.toList.contains '\x00' then .error .nulInPath
  else if path.isEmpty then .error .notFound
  else if longestPath < path.utf8ByteSize then .error .nameTooLong
  else (steps path).foldlM t.step (if Path.isAbsolute path then [] else here)

def find (t : FileTree) (here : Location) (path : String) : Except Fault (Location × Thing) := do
  let l ← t.locate here path
  match t.at? l with
  | some x => return (l, x)
  | none => throw .notFound

/-- Whether a path leads to anything. Only a missing thing counts as a plain no. -/
def reaches (t : FileTree) (here : Location) (path : String) : Except Fault Bool :=
  match t.find here path with
  | .ok _ => .ok true
  | .error .notFound => .ok false
  | .error f => .error f

def read (t : FileTree) (here : Location) (path : String) : Except Fault Bytes := do
  match ← t.find here path with
  | (_, .file content _) => return content
  | (_, .directory) => throw .isDirectory
  | (_, .program) => return []

/-- Writes a file. A file that is there keeps its mode unless a mode is asked for. -/
def write (t : FileTree) (here : Location) (path : String) (content : Bytes) (mode : Host.Mode) :
    Except Fault FileTree := do
  if path.toList.getLast? == some '/' then
    match t.find here path with
    | .error .notFound => throw .isDirectory
    | .error f => throw f
    | .ok _ => throw .isDirectory
  let l ← t.locate here path
  if l.isEmpty then throw .isDirectory
  match t.at? l.dropLast, t.at? l with
  | none, _ => throw .notFound
  | _, some .directory => throw .isDirectory
  | _, some (.file _ before) =>
    return t.put l (.file content (if mode == .default then before else mode))
  | _, _ => return t.put l (.file content mode)

/-- Moves a thing, with all below it, over what stands at the target. -/
def rename (t : FileTree) (here : Location) (source target : String) : Except Fault FileTree := do
  let (origin, x) ← t.find here source
  let place ← t.locate here target
  match x, t.at? place with
  | .directory, some .directory =>
    if t.things.any fun e => place.isPrefixOf e.1 && e.1 != place then throw .directoryNotEmpty
  | .directory, some _ => throw .notDirectory
  | _, some .directory => throw .isDirectory
  | _, _ => pure ()
  let moved := t.things.filterMap fun (l, y) =>
    if origin.isPrefixOf l then some (place ++ l.drop origin.length, y) else none
  return ⟨moved ++ ((t.prune origin).prune place).things⟩

def withoutEndSlashes (path : String) : String :=
  let kept := (path.toList.reverse.dropWhile (· == '/')).reverse
  if kept.isEmpty && !path.isEmpty then "/" else String.ofList kept

def makeDirectory (t : FileTree) (here : Location) (path : String) : Except Fault FileTree := do
  let l ← t.locate here (withoutEndSlashes path)
  match t.at? l with
  | some _ => throw .exists
  | none => return t.put l .directory

def leadsToDirectory (t : FileTree) (here : Location) (path : String) : Bool :=
  match t.find here path with
  | .ok (_, .directory) => true
  | _ => false

/-- Makes a directory, and before it those on the way that are missing. -/
def makeDirectories (t : FileTree) (here : Location) (path : String) : Except Fault FileTree :=
  go t path path.length
where
  go (t : FileTree) (path : String) : Nat → Except Fault FileTree
    | 0 => .ok t
    | fuel + 1 =>
      if path.isEmpty then .ok t
      else
        match t.makeDirectory here path with
        | .ok t => .ok t
        | .error .notFound => do
          let t ← go t (Path.parent path) fuel
          match t.makeDirectory here path with
          | .ok t => return t
          | .error f => if t.leadsToDirectory here path then return t else throw f
        | .error f => if t.leadsToDirectory here path then .ok t else .error f

def removeTree (t : FileTree) (here : Location) (path : String) : Except Fault FileTree := do
  match ← t.find here path with
  | (l, .directory) => return t.prune l
  | _ => throw .notDirectory

/-- The names right below a location, in order. -/
def children (t : FileTree) (l : Location) : List Host.Entry :=
  let direct := t.things.filterMap fun (at', x) =>
    match l.isPrefixOf at', at'.drop l.length with
    | true, [name] => some (⟨name, x == .directory⟩ : Host.Entry)
    | _, _ => none
  direct.mergeSort fun a b => decide (a.name ≤ b.name)

def list (t : FileTree) (here : Location) (path : String) : Except Fault (List Host.Entry) := do
  match ← t.find here path with
  | (l, .directory) => return t.children l
  | _ => throw .notDirectory

/-- Puts a thing at a location and makes the directories above it. -/
def grow (t : FileTree) (l : Location) (x : Thing) : FileTree :=
  let above := (List.range l.length).map l.take
  let t := above.foldl (fun t d => if (t.at? d).isSome then t else t.put d .directory) t
  match x, t.at? l with
  | .directory, some .directory => t
  | _, _ => t.put l x

/-- All things below a location by their paths from there; those of directories end in a slash. -/
def pathsBelow (t : FileTree) (l : Location) : List String :=
  let paths := t.things.filterMap fun (at', x) =>
    if l.isPrefixOf at' && at' != l then
      some ("/".intercalate (at'.drop l.length) ++ (if x == .directory then "/" else ""))
    else none
  paths.mergeSort fun a b => decide (a ≤ b)

end FileTree

end StackKeeper

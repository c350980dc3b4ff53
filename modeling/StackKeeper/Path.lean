import StackKeeper.Text.Blank

/-!
# Paths

Paths are texts with slashes between their parts. Joining, taking apart and renaming them is done on
the text alone, without a look at any file.
-/

namespace StackKeeper

inductive Path.Part where
  | root
  | current
  | parent
  | normal (name : String)
  deriving DecidableEq, Repr, Inhabited

namespace Path

def isAbsolute (p : String) : Bool := p.toList.head? == some '/'

/-- A path below another one. An absolute path stays as it is. -/
def join (base p : String) : String :=
  if isAbsolute p then p
  else if base.isEmpty || base.toList.getLast? == some '/' then base ++ p
  else base ++ "/" ++ p

def partOf (piece : List Char) : Option Part :=
  if piece.isEmpty || piece == ['.'] then none
  else if piece == ['.', '.'] then some .parent
  else some (.normal (String.ofList piece))

/-- The parts of a path. Empty parts and dots do not count, but a dot in front of everything. -/
def parts (p : String) : List Part :=
  match Text.splitOnChar '/' p.toList with
  | [] => []
  | [] :: more => (if p.isEmpty then [] else [Part.root]) ++ more.filterMap partOf
  | first :: more =>
    (if first == ['.'] then [Part.current] else (partOf first).toList) ++ more.filterMap partOf

def fileName? (p : String) : Option String :=
  match (parts p).getLast? with
  | some (.normal name) => some name
  | _ => none

/-- A file name split at its last dot. A dot in front of the name does not count. -/
def splitName (name : String) : String × Option String :=
  match Text.splitAtFirst '.' name.toList.reverse with
  | none => (name, none)
  | some (_, []) => (name, none)
  | some (after, before) =>
    if name = ".." then (name, none)
    else (String.ofList before.reverse, some (String.ofList after.reverse))

/-- The name without what follows its last dot. -/
def stem (name : String) : String := (splitName name).1

def extension? (name : String) : Option String := (splitName name).2

/-- The directory a path is in, as a text. -/
def parent (p : String) : String :=
  let rest := p.toList.reverse.dropWhile (· == '/') |>.dropWhile (· != '/')
  let above := rest.dropWhile (· == '/')
  if above.isEmpty && !rest.isEmpty then "/" else String.ofList above.reverse

end Path

end StackKeeper

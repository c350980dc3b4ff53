import StackKeeper.Error
import StackKeeper.Host
import StackKeeper.Path
import StackKeeper.Yaml.Meaning

/-!
# The project of a stack

A project descriptor names the project and the runtime its program is written for. The runtime
decides which commands install the project's dependencies.
-/

namespace StackKeeper.Engine

structure Runtime where
  name : String
  virtualenv : Option String
  packageManager : Option String
  deriving DecidableEq, Repr, Inhabited

structure Project where
  name : String
  runtime : Runtime
  deriving DecidableEq, Repr, Inhabited

/-- The names a descriptor may have, the preferred one first. -/
def descriptorNames : List String := ["Pulumi.yaml", "Pulumi.yml"]

/-! ## Reading descriptors -/

open Yaml (Fault Meaning)

inductive Content where
  | scalar (m : Meaning)
  | sequence (items : List Content)
  | mapping (entries : List (Content × Content))
  deriving Inhabited

mutual

def contentOf : Yaml → Except Fault Content
  | .scalar text style tag => do
    match ← Yaml.meaning text style tag with
    | .wide _ => throw (.unsupported "an integer of this size")
    | m => return .scalar m
  | .sequence items tag => do
    Yaml.checkTag tag
    return .sequence (← contentOfItems items)
  | .mapping entries tag => do
    Yaml.checkTag tag
    return .mapping (← contentOfEntries entries)

def contentOfItems : List Yaml → Except Fault (List Content)
  | [] => .ok []
  | n :: rest => do return (← contentOf n) :: (← contentOfItems rest)

def contentOfEntries : List (Yaml × Yaml) → Except Fault (List (Content × Content))
  | [] => .ok []
  | (k, n) :: rest => do return (← contentOf k, ← contentOf n) :: (← contentOfEntries rest)

end

def unfit {α : Type} (what : String) : Except Fault α := .error (.unsupported what)

/-- The value of a field that occurs at most once. -/
def onlyOne {α : Type} (name : String) : List α → Except Fault (Option α)
  | [] => .ok none
  | [a] => .ok (some a)
  | _ => unfit ("a second " ++ name)

/-- The field a key stands for, by one of its names or by its place. -/
def fieldIndex (names : List (List String)) : Content → Except Fault (Option Nat)
  | .scalar (.text s) => .ok (names.findIdx? fun n => n.contains s)
  | .scalar (.integer i) =>
    if 0 ≤ i then .ok (if i.toNat < names.length then some i.toNat else none)
    else unfit "a negative key"
  | _ => unfit "a key of this type"

def fieldValues (names : List (List String)) (entries : List (Content × Content)) :
    Except Fault (List (Option Content)) := do
  let found ← entries.mapM fun (k, v) => do return (← fieldIndex names k, v)
  (List.range names.length).mapM fun i =>
    onlyOne (names.flatten.headD "") ((found.filter fun e => e.1 == some i).map (·.2))

def contentText : Content → Except Fault String
  | .scalar (.text s) => .ok s
  | _ => unfit "a value that is no text"

def contentTextOrNull : Content → Except Fault (Option String)
  | .scalar .null => .ok none
  | v => (contentText v).map some

def optionsOf : Content → Except Fault (Option String × Option String)
  | .mapping entries => do
    let values ← fieldValues [["virtualenv"], ["packageManager", "packagemanager"]] entries
    match values with
    | [virtualenv, manager] =>
      return (← (virtualenv.mapM contentTextOrNull).map Option.join,
        ← (manager.mapM contentTextOrNull).map Option.join)
    | _ => unfit "these options"
  | .sequence [virtualenv, manager] => do
    return (← contentTextOrNull virtualenv, ← contentTextOrNull manager)
  | _ => unfit "these options"

/-- A runtime: a name alone, or a name with options. -/
def runtimeOf : Content → Except Fault Runtime
  | .scalar (.text name) => .ok ⟨name, none, none⟩
  | .mapping entries => do
    match ← fieldValues [["name"], ["options"]] entries with
    | [some name, options] =>
      let (virtualenv, packageManager) ← match options with
        | some o => optionsOf o
        | none => pure (none, none)
      return ⟨← contentText name, virtualenv, packageManager⟩
    | _ => unfit "a runtime without name"
  | _ => unfit "this runtime"

def entriesUnder (name : String) (entries : List (Yaml × Yaml)) : List Yaml :=
  entries.filterMap fun
    | (.scalar key _ _, v) => if key == name then some v else none
    | _ => none

def isScalar : Yaml → Bool
  | .scalar .. => true
  | _ => false

def Project.ofText (s : String) : Except Fault Project := do
  match ← Yaml.document? s with
  | some (.mapping entries _) =>
    if !entries.all fun e => isScalar e.1 then unfit "a collection as a key"
    else
      match ← onlyOne "name" (entriesUnder "name" entries),
        ← onlyOne "runtime" (entriesUnder "runtime" entries) with
      | some (.scalar name _ _), some runtime => return ⟨name, ← runtimeOf (← contentOf runtime)⟩
      | _, _ => unfit "a descriptor without name or runtime"
  | _ => unfit "this descriptor"

def readProject (directory : String) : Host.Talk (Except Error Project) :=
  go descriptorNames
where
  go : List String → Host.Talk (Except Error Project)
    | [] => pure (.error (.source s!"no Pulumi.yaml found in {directory}"))
    | name :: rest => do
      let path := Path.join directory name
      match ← Host.pathExists path with
      | .error f => return .error (.io f.message)
      | .ok false => go rest
      | .ok true =>
        match ← Host.readText path with
        | .error f => return .error (.io f.message)
        | .ok text =>
          return (Project.ofText text).mapError fun f => .config s!"invalid {name}: {f.message}"

/-! ## Installing dependencies -/

structure InstallStep where
  program : String
  args : List String
  deriving DecidableEq, Repr, Inhabited

/-- Whether a file is known to be there. -/
def hasFile (directory name : String) : Host.Talk Bool := do
  match ← Host.pathExists (Path.join directory name) with
  | .ok found => return found
  | .error _ => return false

/-- The commands that install the dependencies of a project; runtimes without a package manager need
none. -/
def installPlan (directory : String) (project : Project) : Host.Talk (List InstallStep) := do
  let runtime := project.runtime
  if runtime.name == "nodejs" then
    match runtime.packageManager with
    | some manager => return [⟨manager, ["install"]⟩]
    | none =>
      if ← hasFile directory "yarn.lock" then return [⟨"yarn", ["install"]⟩]
      else if ← hasFile directory "pnpm-lock.yaml" then return [⟨"pnpm", ["install"]⟩]
      else return [⟨"npm", ["install"]⟩]
  else if runtime.name == "python" then
    if ← hasFile directory "requirements.txt" then
      let venv := runtime.virtualenv.getD "venv"
      return [⟨"python3", ["-m", "venv", venv]⟩,
        ⟨Path.join (Path.join venv "bin") "pip", ["install", "-r", "requirements.txt"]⟩]
    else return []
  else if runtime.name == "go" then
    if ← hasFile directory "go.mod" then return [⟨"go", ["mod", "download"]⟩] else return []
  else if runtime.name == "dotnet" then return [⟨"dotnet", ["restore"]⟩]
  else return []

def InstallStep.toText (s : InstallStep) : String := s.program ++ " " ++ " ".intercalate s.args

def runSteps (directory : String) (environment : Dict String) :
    List InstallStep → Host.Talk (Except Error Unit)
  | [] => pure (.ok ())
  | step :: rest => do
    match ← Host.runProgram ⟨step.program, step.args, some directory, environment⟩ with
    | .error f => return .error (.engineFailed s!"failed to run {step.program}: {f.message}")
    | .ok output =>
      if output.succeeded then runSteps directory environment rest
      else
        let stderr := Text.trim (Utf8.decodeLossy output.stderr)
        return .error (.engineFailed s!"{step.toText} failed: {stderr}")

def installDependencies (directory : String) (environment : Dict String) :
    Host.Talk (Except Error Unit) := do
  match ← readProject directory with
  | .error e => return .error e
  | .ok project => runSteps directory environment (← installPlan directory project)

end StackKeeper.Engine

import StackKeeper.Dict
import StackKeeper.Text.Blank

/-!
# Command line arguments

A command stands after the options that hold for all commands; these may as well stand behind it,
with its own options. A variable of the environment stands in for an option that is not given.
After two dashes alone, nothing is an option any more.
-/

namespace StackKeeper.Console

inductive Misuse where
  | noCommand
  | unknownCommand (name : String)
  | unknownOption (name : String)
  | repeatedOption (name : String)
  | missingValue (option : String)
  | invalidValue (option value : String)
  | unexpected (argument : String)
  | missingArgument (name : String)
  deriving DecidableEq, Repr, Inhabited

def Misuse.message : Misuse → String
  | noCommand => "a command is required: reconcile, validate or resolve"
  | unknownCommand name => s!"there is no command {name}"
  | unknownOption name => s!"there is no option {name}"
  | repeatedOption name => s!"option {name} is given twice"
  | missingValue option => s!"option {option} needs a value"
  | invalidValue option value => s!"option {option} cannot be {value}"
  | unexpected argument => s!"unexpected argument {argument}"
  | missingArgument name => s!"argument {name} is missing"

inductive Command where
  | reconcile (directory : String) (keys : List String) (maxAttempts : Option Nat)
  | validate (paths : List String)
  | resolve (reference : String)
  deriving DecidableEq, Repr, Inhabited

structure Arguments where
  /-- File of the operator's settings. -/
  config : Option String
  /-- File of secrets, in place of a cluster. -/
  secretsFile : Option String
  command : Command
  deriving DecidableEq, Repr, Inhabited

abbrev Options := List (String × String)

/-! ## Taking apart -/

/-- Arguments of one level: its options, and all other words. -/
structure Level where
  options : Options
  words : List String

def looksLikeOption (s : String) : Bool := s.toList.head? == some '-' && s != "-"

def splitOption (s : String) : String × Option String :=
  match Text.splitAtFirst '=' s.toList with
  | some (name, value) => (String.ofList name, some (String.ofList value))
  | none => (s, none)

def checkOption (known : List String) (name : String) : Except Misuse Unit :=
  if known.contains name then .ok () else .error (.unknownOption name)

/-- Reads arguments up to where `stops` says; gives what is read and what is left. -/
def readLevel (known : List String) (stopsAtWord : Bool) :
    List String → Except Misuse (Level × List String)
  | [] => .ok (⟨[], []⟩, [])
  | "--" :: rest =>
    if stopsAtWord then .error .noCommand else .ok (⟨[], rest⟩, [])
  | [a] =>
    if looksLikeOption a then do
      let (name, value) := splitOption a
      checkOption known name
      match value with
      | some value => return (⟨[(name, value)], []⟩, [])
      | none => throw (.missingValue name)
    else if stopsAtWord then .ok (⟨[], []⟩, [a]) else .ok (⟨[], [a]⟩, [])
  | a :: b :: rest =>
    if looksLikeOption a then do
      let (name, value) := splitOption a
      checkOption known name
      match value with
      | some value =>
        let (level, left) ← readLevel known stopsAtWord (b :: rest)
        return ({ level with options := (name, value) :: level.options }, left)
      | none =>
        if looksLikeOption b then throw (.missingValue name)
        let (level, left) ← readLevel known stopsAtWord rest
        return ({ level with options := (name, b) :: level.options }, left)
    else if stopsAtWord then .ok (⟨[], []⟩, a :: b :: rest)
    else do
      let (level, left) ← readLevel known stopsAtWord (b :: rest)
      return ({ level with words := a :: level.words }, left)

def checkRepeats : Options → Except Misuse Unit
  | [] => .ok ()
  | (name, _) :: rest =>
    if rest.any (·.1 == name) then .error (.repeatedOption name) else checkRepeats rest

/-! ## Values -/

/-- The value of an option that names a file: given, or in a variable. It cannot be empty. -/
def pathOption (options : Options) (environment : Dict String) (name fallback : String) :
    Except Misuse (Option String) :=
  match (options.lookup name).or (environment.get? fallback) with
  | some "" => .error (.invalidValue name "empty")
  | value => .ok value

def formatNames : List String := ["text", "json"]

def checkFormat (options : Options) : Except Misuse Unit :=
  match options.lookup "--log-format" with
  | none => .ok ()
  | some name =>
    if formatNames.contains name then .ok () else .error (.invalidValue "--log-format" name)

/-- A whole number of at most 32 bits; a plus may stand in front. -/
def countOf? (s : String) : Option Nat :=
  let digits := match s.toList with
    | '+' :: digits => digits
    | digits => digits
  if digits.isEmpty || !digits.all Char.isDigit then none
  else
    let n := digits.foldl (fun n c => 10 * n + (c.toNat - '0'.toNat)) 0
    if n < Nat.pow 2 32 then some n else none

def countOption (options : Options) (name : String) : Except Misuse (Option Nat) :=
  match options.lookup name with
  | none => .ok none
  | some value =>
    match countOf? value with
    | some n => .ok (some n)
    | none => .error (.invalidValue name value)

/-! ## Commands -/

def commonOptions : List String := ["--config", "--secrets-file", "--log-format"]

def ownOptions : String → List String
  | "reconcile" => ["--stacks-dir", "--max-attempts"]
  | _ => []

def commandOf (name : String) (environment : Dict String) (level : Level) :
    Except Misuse Command := do
  match name with
  | "reconcile" =>
    let directory ← pathOption level.options environment "--stacks-dir" "STACKOP_STACKS_DIR"
    return .reconcile (directory.getD "stacks") level.words
      (← countOption level.options "--max-attempts")
  | "validate" =>
    if level.words.isEmpty then throw (.missingArgument "paths")
    if level.words.contains "" then throw (.invalidValue "paths" "empty")
    return .validate level.words
  | "resolve" =>
    match level.words with
    | [] => throw (.missingArgument "reference")
    | [reference] => return .resolve reference
    | _ :: extra :: _ => throw (.unexpected extra)
  | name => throw (.unknownCommand name)

def Arguments.read (args : List String) (environment : Dict String) :
    Except Misuse Arguments := do
  let (before, left) ← readLevel commonOptions true args
  match left with
  | [] => throw .noCommand
  | name :: rest =>
    let (after, _) ← readLevel (commonOptions ++ ownOptions name) false rest
    checkRepeats before.options
    checkRepeats after.options
    let options := after.options ++ before.options
    checkFormat options
    let config ← pathOption options environment "--config" "STACKOP_CONFIG"
    let secretsFile ← pathOption options environment "--secrets-file" "STACKOP_SECRETS_FILE"
    return ⟨config, secretsFile, ← commandOf name environment { after with options }⟩

end StackKeeper.Console

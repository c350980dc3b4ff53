import StackKeeper.Dialogue
import StackKeeper.Dict
import StackKeeper.Text.Utf8
import StackKeeper.Timestamp

/-!
# The machine

What the program asks of the machine it runs on: files, other programs, and time. Whoever runs a
dialogue with this service decides whether that is a real machine or a rehearsal of one.
-/

namespace StackKeeper

namespace Host

inductive Fault where
  | notFound
  | permissionDenied
  | exists
  | notDirectory
  | isDirectory
  | directoryNotEmpty
  | nameTooLong
  | nulInPath
  | nulInArgument
  | notUtf8
  | other (text : String)
  deriving DecidableEq, Repr, Inhabited

def Fault.message : Fault → String
  | notFound => "No such file or directory (os error 2)"
  | permissionDenied => "Permission denied (os error 13)"
  | .exists => "File exists (os error 17)"
  | notDirectory => "Not a directory (os error 20)"
  | isDirectory => "Is a directory (os error 21)"
  | nameTooLong => "File name too long (os error 36)"
  | directoryNotEmpty => "Directory not empty (os error 39)"
  | nulInPath => "file name contained an unexpected NUL byte"
  | nulInArgument => "nul byte found in provided data"
  | notUtf8 => "stream did not contain valid UTF-8"
  | other text => text

structure Command where
  program : String
  args : List String
  /-- Where the program runs; where the caller runs if not given. -/
  directory : Option String
  /-- Variables added to the caller's environment. -/
  environment : Dict String
  deriving DecidableEq, Inhabited

structure Output where
  succeeded : Bool
  stdout : Bytes
  stderr : Bytes
  deriving DecidableEq, Inhabited

structure Entry where
  name : String
  isDirectory : Bool
  deriving DecidableEq, Repr, Inhabited

inductive Mode where
  | default
  /-- The owner may read and write. -/
  | ownerOnly
  /-- The owner may also run it. -/
  | ownerRuns
  deriving DecidableEq, Repr, Inhabited

/-- What is worth telling a person while an attempt runs. -/
inductive Event where
  | transition (stack source target : String)
  | preparing (repo revision : String)
  deriving DecidableEq, Repr, Inhabited

def Event.message : Event → String
  | transition stack source target => s!"{stack}: {source} to {target}"
  | preparing repo revision => s!"preparing {repo} at {revision}"

inductive Request where
  | readFile (path : String)
  | writeFile (path : String) (content : Bytes) (mode : Mode)
  | rename (source target : String)
  | makeDirectories (path : String)
  | removeTree (path : String)
  | listDirectory (path : String)
  /-- Whether a path leads to anything. -/
  | pathExists (path : String)
  /-- A new directory for things that only this process may see. -/
  | makeScratch
  | runProgram (c : Command)
  /-- A text of 32 digits that no one has been given before. -/
  | freshId
  | now
  /-- Milliseconds on a clock that is never set back. -/
  | elapsed
  /-- Lets some milliseconds pass. -/
  | pause (milliseconds : Nat)
  | tell (e : Event)
  deriving DecidableEq

def Reply : Request → Type
  | .readFile _ => Except Fault Bytes
  | .writeFile .. => Except Fault Unit
  | .rename .. => Except Fault Unit
  | .makeDirectories _ => Except Fault Unit
  | .removeTree _ => Except Fault Unit
  | .listDirectory _ => Except Fault (List Entry)
  | .pathExists _ => Except Fault Bool
  | .makeScratch => Except Fault String
  | .runProgram _ => Except Fault Output
  | .freshId => String
  | .now => Timestamp
  | .elapsed => Nat
  | .pause _ => Unit
  | .tell _ => Unit

end Host

def Host : Service := ⟨Host.Request, Host.Reply⟩

namespace Host

abbrev Talk (α : Type) := Dialogue Host α

def ask (r : Request) : Talk (Reply r) := .ask r .done

def readFile (path : String) : Talk (Except Fault Bytes) := ask (.readFile path)

def readText (path : String) : Talk (Except Fault String) := do
  let content ← readFile path
  pure <| content.bind fun bytes =>
    match Utf8.decode? bytes with
    | some s => .ok s
    | none => .error .notUtf8

def writeFile (path : String) (content : Bytes) (mode : Mode) : Talk (Except Fault Unit) :=
  ask (.writeFile path content mode)

def rename (source target : String) : Talk (Except Fault Unit) := ask (.rename source target)

def makeDirectories (path : String) : Talk (Except Fault Unit) := ask (.makeDirectories path)

def removeTree (path : String) : Talk (Except Fault Unit) := ask (.removeTree path)

def listDirectory (path : String) : Talk (Except Fault (List Entry)) := ask (.listDirectory path)

def pathExists (path : String) : Talk (Except Fault Bool) := ask (.pathExists path)

def makeScratch : Talk (Except Fault String) := ask .makeScratch

def runProgram (c : Command) : Talk (Except Fault Output) := ask (.runProgram c)

def freshId : Talk String := ask .freshId

def now : Talk Timestamp := ask .now

def elapsed : Talk Nat := ask .elapsed

def pause (milliseconds : Nat) : Talk Unit := ask (.pause milliseconds)

def tell (e : Event) : Talk Unit := ask (.tell e)

end Host

end StackKeeper

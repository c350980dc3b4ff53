import StackKeeper.Console.Program
import Std.Time.DateTime

/-!
# The command line

Here the program meets the machine it runs on: requests are answered, the ending is printed. This
shell starts no other programs.
-/

namespace StackKeeper.Shell

open Host (Fault Entry)

def faultOf : IO.Error → Fault
  | .noFileOrDirectory .. => .notFound
  | .permissionDenied .. => .permissionDenied
  | .alreadyExists .. => .exists
  | .inappropriateType .. => .notDirectory
  | e => .other (toString e)

def attempt {α : Type} (act : IO α) : IO (Except Fault α) := do
  try
    return .ok (← act)
  catch e =>
    return .error (faultOf e)

def rightsOf (mayRun : Bool) : IO.FileRight :=
  { user := { read := true, write := true, execution := mayRun } }

def protect (path : String) : Host.Mode → IO Unit
  | .default => pure ()
  | .ownerOnly => IO.setAccessRights path (rightsOf false)
  | .ownerRuns => IO.setAccessRights path (rightsOf true)

/-- Writes a file that is protected before anything stands in it. -/
def writeFile (path : String) (content : Bytes) (mode : Host.Mode) : IO Unit := do
  IO.FS.writeBinFile path ⟨#[]⟩
  protect path mode
  IO.FS.writeBinFile path ⟨content.toArray⟩

def listDirectory (path : String) : IO (List Entry) := do
  let directory ← IO.FS.realPath path
  let found ← directory.readDir
  found.toList.mapM fun e => do return ⟨e.fileName, ← e.path.isDir⟩

def pathExists (path : String) : IO (Except Fault Bool) := do
  match ← attempt (IO.FS.realPath path) with
  | .ok _ => return .ok true
  | .error .notFound => return .ok false
  | .error f => return .error f

def freshId : IO String := do
  let bytes ← IO.getRandomBytes 16
  let n := bytes.toList.foldl (fun n b => 256 * n + b.toNat) 0
  return String.ofList (Timestamp.padded 32 (n % Nat.pow 10 32))

def now : IO Timestamp := do
  let t ← Std.Time.Timestamp.now
  let nanoseconds := t.toNanosecondsSinceUnixEpoch.val.toNat
  return .ofEpoch (nanoseconds / Nat.pow 10 9) (nanoseconds % Nat.pow 10 9)

def longestSleep : Nat := Nat.pow 2 32 - 1

def answer : (r : Host.Request) → IO (Host.Reply r)
  | .readFile path => attempt do return (← IO.FS.readBinFile path).toList
  | .writeFile path content mode => attempt (writeFile path content mode)
  | .rename source target => attempt (IO.FS.rename source target)
  | .makeDirectories path => attempt (IO.FS.createDirAll path)
  | .removeTree path => attempt (IO.FS.removeDirAll path)
  | .listDirectory path => attempt (listDirectory path)
  | .pathExists path => pathExists path
  | .makeScratch => attempt do return (← IO.FS.createTempDir).toString
  | .runProgram _ => return .error (.other "programs cannot be started here")
  | .freshId => freshId
  | .now => now
  | .elapsed => IO.monoMsNow
  | .pause milliseconds => IO.sleep (UInt32.ofNat (min milliseconds longestSleep))
  | .tell e => IO.eprintln e.message

def play {α : Type} : Host.Talk α → IO α
  | .done a => return a
  | .ask r next => do play (next (← answer r))

def variablesIn (content : Bytes) : Dict String :=
  let pieces := Text.splitOnChar '\x00' (Utf8.decodeLossy content).toList
  Dict.ofList <| pieces.filterMap fun piece =>
    (Text.splitAtFirst '=' piece).map fun (name, value) => (String.ofList name, String.ofList value)

def environment : IO (Dict String) := do
  match ← attempt (IO.FS.readBinFile "/proc/self/environ") with
  | .ok content => return variablesIn content.toList
  | .error _ => return ∅

end StackKeeper.Shell

open StackKeeper in
def main (args : List String) : IO UInt32 := do
  let ending ← Shell.play (Console.program args (← Shell.environment))
  IO.print ending.output
  IO.eprint ending.errors
  return UInt32.ofNat ending.exitCode

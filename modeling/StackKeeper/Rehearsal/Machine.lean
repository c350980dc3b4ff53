import StackKeeper.Rehearsal.FileTree
import StackKeeper.Text.Phrase

/-!
# A machine to rehearse on

A machine in memory: a tree of files, programs that follow a script, a calendar that stands still.
It answers every request of a dialogue, and keeps a record of the programs that were run and of what
was told.
-/

namespace StackKeeper

/-- What a program of the script does in one run. -/
structure Rehearsal.Response where
  output : Host.Output
  /-- What it leaves behind, if it writes anything. -/
  files : Option (List (Location × FileTree.Thing))
  deriving Inhabited

structure Rehearsal.Call where
  program : String
  args : List String
  directory : Location
  /-- Variables that the caller added or changed. -/
  environment : Dict String
  /-- The files as the program found them. -/
  tree : FileTree
  deriving Inhabited

structure Rehearsal where
  tree : FileTree
  /-- Where relative paths start. -/
  here : Location
  environment : Dict String
  /-- What the next runs of each program do. -/
  script : List (String × List Rehearsal.Response)
  /-- The runs so far, the last one first. -/
  calls : List Rehearsal.Call
  /-- What was told, the last event first. -/
  told : List Host.Event
  idsGiven : Nat
  clock : Timestamp
  /-- Milliseconds that were let pass. -/
  elapsed : Nat
  deriving Inhabited

namespace Rehearsal

open Host (Fault Command Output)

/-- A machine with nothing on it but an empty directory to work in. -/
def ofDirectory (here : Location) (clock : Timestamp) : Rehearsal :=
  ⟨FileTree.empty.grow here .directory, here, ∅, [], [], [], 0, clock, 0⟩

def idText (n : Nat) : String :=
  let digits := (toString n).toList
  String.ofList (List.replicate (32 - digits.length) '0' ++ digits)

def scratchRoot : Location := ["scratch"]

/-! ## Running programs -/

def directoryOf (m : Rehearsal) (c : Command) : Except Fault Location :=
  match c.directory with
  | none => .ok m.here
  | some path => do
    match ← m.tree.find m.here path with
    | (l, .directory) => return l
    | _ => throw .notDirectory

def startable (m : Rehearsal) (origin : Location) (path : String) : Except Fault Unit := do
  match ← m.tree.find origin path with
  | (_, .program) => return ()
  | _ => throw .permissionDenied

/-- Tries the directories of a search path in turn. A denied permission is reported if nothing else
is found. -/
def search (m : Rehearsal) (origin : Location) (program : String) (denied : Bool) :
    List String → Except Fault Unit
  | [] => .error (if denied then .permissionDenied else .notFound)
  | base :: rest =>
    let path := if base.isEmpty then program else base ++ "/" ++ program
    match m.startable origin path with
    | .ok () => .ok ()
    | .error .notFound => m.search origin program denied rest
    | .error .notDirectory => m.search origin program denied rest
    | .error .permissionDenied => m.search origin program true rest
    | .error f => .error f

def searchPath (environment : Dict String) : List String :=
  (Text.splitOnChar ':' ((environment.get? "PATH").getD "/bin:/usr/bin").toList).map String.ofList

def findProgram (m : Rehearsal) (origin : Location) (c : Command) : Except Fault Unit :=
  if c.program.isEmpty then .error .notFound
  else if c.program.toList.contains '/' then m.startable origin c.program
  else if FileTree.longestName < c.program.utf8ByteSize then .error .nameTooLong
  else m.search origin c.program false (searchPath (m.environment.union c.environment))

def hasNul (c : Command) : Bool :=
  let texts := c.program :: c.args ++ c.directory.toList ++
    c.environment.entries.flatMap fun (k, v) => [k, v]
  texts.any fun s => s.toList.contains '\x00'

def start (m : Rehearsal) (c : Command) : Except Fault Location := do
  if hasNul c then throw .nulInArgument
  let l ← m.directoryOf c
  m.findProgram l c
  return l

def baseName (program : String) : String :=
  String.ofList (program.toList.reverse.takeWhile (· != '/')).reverse

def nextResponse (name : String) :
    List (String × List Response) → Response × List (String × List Response)
  | [] => (⟨⟨true, [], []⟩, none⟩, [])
  | (n, responses) :: rest =>
    if n == name then
      match responses with
      | [] => (⟨⟨true, [], []⟩, none⟩, (n, []) :: rest)
      | r :: more => (r, (n, more) :: rest)
    else
      let (r, rest) := nextResponse name rest
      (r, (n, responses) :: rest)

/-- Where a program leaves its files: where it runs, or, for a `clone`, in the directory it is told
to make. -/
def targetOf (m : Rehearsal) (origin : Location) (args : List String) : Location :=
  if args.head? == some "clone" then
    match m.tree.locate origin (args.getLast?.getD "") with
    | .ok l => l
    | .error _ => origin
  else origin

/-- The variables of a command that the machine does not have already. -/
def changes (m : Rehearsal) (c : Command) : Dict String :=
  c.environment.filter fun k v => m.environment.get? k != some v

def run (m : Rehearsal) (c : Command) : Except Fault Output × Rehearsal :=
  match m.start c with
  | .error f => (.error f, m)
  | .ok l =>
    let (response, script) := nextResponse (baseName c.program) m.script
    let call : Call := ⟨c.program, c.args, l, m.changes c, m.tree⟩
    let tree := match response.files with
      | none => m.tree
      | some files =>
        let target := m.targetOf l c.args
        files.foldl (fun t (below, x) => t.grow (target ++ below) x) (m.tree.grow target .directory)
    (.ok response.output, { m with script, tree, calls := call :: m.calls })

/-! ## Answering requests -/

def changed (m : Rehearsal) (t : Except Fault FileTree) : Except Fault Unit × Rehearsal :=
  match t with
  | .ok tree => (.ok (), { m with tree })
  | .error f => (.error f, m)

def answer : (r : Host.Request) → Rehearsal → Host.Reply r × Rehearsal
  | .readFile path, m => (m.tree.read m.here path, m)
  | .writeFile path content mode, m => m.changed (m.tree.write m.here path content mode)
  | .rename source target, m => m.changed (m.tree.rename m.here source target)
  | .makeDirectories path, m => m.changed (m.tree.makeDirectories m.here path)
  | .removeTree path, m => m.changed (m.tree.removeTree m.here path)
  | .listDirectory path, m => (m.tree.list m.here path, m)
  | .pathExists path, m => (m.tree.reaches m.here path, m)
  | .makeScratch, m =>
    let l := scratchRoot ++ [idText m.idsGiven]
    (.ok l.toText, { m with tree := m.tree.grow l .directory, idsGiven := m.idsGiven + 1 })
  | .runProgram c, m => m.run c
  | .freshId, m => (idText m.idsGiven, { m with idsGiven := m.idsGiven + 1 })
  | .now, m => (m.clock, m)
  | .elapsed, m => (m.elapsed, m)
  | .pause milliseconds, m => ((), { m with elapsed := m.elapsed + milliseconds })
  | .tell e, m => ((), { m with told := e :: m.told })

def play {α : Type} (d : Host.Talk α) (m : Rehearsal) : α × Rehearsal := d.run answer m

end Rehearsal

end StackKeeper

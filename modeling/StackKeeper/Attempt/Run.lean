import StackKeeper.Attempt.Outcome
import StackKeeper.Attempt.Surroundings
import StackKeeper.Environment

/-!
# Running an attempt

An attempt takes a stack from its specification to the engine's verdict: check, find values, get
the source, open the engine, configure the stack, refresh it if asked to, and update or destroy it.
The first step that fails ends it. Whatever was checked out is given back at the end.
-/

namespace StackKeeper.Attempt

open Stack

inductive Mode where
  | update
  | destroy
  deriving DecidableEq, Repr, Inhabited

/-- Why an attempt ends before the engine has its say. -/
inductive Stop where
  | interrupted (i : Interruption)
  | failed (e : Error)
  deriving DecidableEq, Repr, Inhabited

structure Progress where
  phase : Phase
  commit : Option String
  /-- The permalink of the last engine run that had one. -/
  permalink : Option String
  /-- What is to be given back. -/
  checkout : Option Checkout
  deriving Inhabited

/-- An attempt starts from the commit its specification names, if it names one. -/
def Progress.initial (spec : Spec) : Progress :=
  ⟨.initializing, spec.commit.filter (!·.isEmpty), none, none⟩

def Progress.outcome (p : Progress) (phase : Phase) (verdict : Verdict) (outputs : OutputsChange)
    (error : Option Error) : Outcome :=
  ⟨phase, verdict, p.commit, p.permalink, outputs, error⟩

/-- A step of an attempt: it may stop, and it moves the attempt on. -/
abbrev Step (α : Type) := ExceptT Stop (StateT Progress (Dialogue Surroundings)) α

namespace Step

variable {α : Type}

def ask (r : Surroundings.Request) : Step (Surroundings.Reply r) :=
  ExceptT.lift (StateT.lift (Surroundings.ask r))

def stop (s : Stop) : Step α := ExceptT.mk (pure (.error s))

def get : Step Progress := ExceptT.lift StateT.get

def modify (f : Progress → Progress) : Step Unit :=
  ExceptT.lift (StateT.modifyGet fun p => ((), f p))

def ofExcept : Except Error α → Step α
  | .ok a => pure a
  | .error e => stop (.failed e)

def ofRaced : Surroundings.Raced α → Step α
  | .ok a => pure a
  | .error i => stop (.interrupted i)

def settled (reply : Surroundings.Raced (Except Error α)) : Step α := do
  ofExcept (← ofRaced reply)

def search (t : Lookup.Search α) : Step α := do
  ofRaced (← ask .checkpoint)
  settled (← ExceptT.lift (StateT.lift (Surroundings.watched t.run)))

def openEngine (checkout : Checkout) (spec : Spec) : Step Unit := do
  settled (← ask (.openEngine checkout spec))

def engine (c : Engine.Call) : Step c.Answer := do settled (← ask (.engine c))

/-- A run of the engine whose failure is a result too. A cancelled one is none. -/
def engineRun (c : Engine.Call) : Step c.Reply := do
  match ← ofRaced (← ask (.engine c)) with
  | .error .cancelled => stop (.failed .cancelled)
  | reply => pure reply

def keepPermalink (s : Engine.Summary) : Step Unit :=
  modify fun p => { p with permalink := s.permalink.or p.permalink }

def advance (stack : String) (target : Phase) : Step Unit := do
  let p ← get
  let _ ← ask (.tell (.transition stack p.phase.name target.name))
  modify fun p => { p with phase := target }

/-- Gets the source and keeps in mind what to give back. -/
def checkOut (r : SourceRequest) : Step Checkout := do
  let checkout : Checkout ← settled (← ask (.prepare r))
  modify fun p => { p with commit := some checkout.commit, checkout := some checkout }
  return checkout

/-- The entries of the configuration that the engine does not have yet. -/
def configUpdates (spec : Spec) (resolver : Resolver) : Step Config := do
  let _ ← engine (.selectStack spec.stack spec.secretsProvider)
  let checkedIn : Config ← engine .getConfig
  let resolvedConfig ← search (resolver.resolveAll spec.configRefs)
  let resolvedSecrets ← search (resolver.resolveAll spec.secretRefs)
  let merged := Config.merge
    ⟨checkedIn, spec.config, spec.secrets, resolvedConfig, resolvedSecrets⟩
  return Config.updates checkedIn merged

/-- Brings the stack's configuration up to date. Nothing is written where nothing differs. -/
def configure (spec : Spec) (resolver : Resolver) : Step Unit := do
  let updates ← configUpdates spec resolver
  if updates.entries.isEmpty then pure () else engine (.updateConfig updates)

def refresh (spec : Spec) : Step Unit := do
  if spec.refresh then
    keepPermalink (← engine (.refresh spec.expectNoRefreshChanges))
    advance spec.stack .refreshed

/-- The outcome of an engine run that failed: the kind of the error gives the verdict. -/
def refused (e : Error) : Step Outcome := do
  let verdict := Verdict.ofError e
  return (← get).outcome (.converged verdict) verdict .keep (some e)

/-- The outputs after an update. The update stands even if they cannot be read. -/
def outputsChange : Except Error Outputs → OutputsChange
  | .ok outputs => .replace outputs
  | .error _ => .keep

def converge : Mode → Step Outcome
  | .update => do
    match ← engineRun .update with
    | .error e => refused e
    | .ok summary =>
      keepPermalink summary
      let outputs ← engineRun .getOutputs
      return (← get).outcome (.converged .succeeded) .succeeded (outputsChange outputs) none
  | .destroy => do
    match ← engineRun .destroy with
    | .error e => refused e
    | .ok summary =>
      keepPermalink summary
      return (← get).outcome .destroyed .succeeded .clear none

def proceed (spec : Spec) (mode : Mode) (resolver : Resolver) (environment : Dict String)
    (checkout : Checkout) : Step Outcome := do
  openEngine checkout spec
  engine (.setEnvironment environment)
  engine .installDependencies
  advance spec.stack .dependenciesInstalled
  configure spec resolver
  advance spec.stack .configApplied
  refresh spec
  converge mode

/-- All steps of an attempt in order. What can be checked without asking anyone comes first. -/
def drive (stack : Stack) (mode : Mode) (resolver : Resolver) : Step Outcome := do
  let spec := stack.spec
  let ns := stack.key.namespace
  ofExcept spec.validate
  let revision ← ofExcept spec.revision
  let environment ← search (Environment.build spec ns resolver)
  let credentials ← search (Credentials.resolve spec resolver ns)
  let checkout ← checkOut ⟨spec.projectRepo, revision, spec.repoDir, credentials⟩
  proceed spec mode resolver environment checkout

end Step

def overdueError (limit : Nat) : Error := .engineFailed s!"attempt timed out after {limit / 1000}s"

/-- What became of an attempt that stopped; nothing if it was cancelled. -/
def Stop.error? (limit : Option Nat) : Stop → Option Error
  | .interrupted .cancelled => none
  | .failed .cancelled => none
  | .interrupted .overdue => some (overdueError (limit.getD 0))
  | .failed e => some e

def outcome? (limit : Option Nat) (p : Progress) : Except Stop Outcome → Option Outcome
  | .ok outcome => some outcome
  | .error stop => (stop.error? limit).map fun e =>
    p.outcome (.converged .failed) .failed .keep (some e)

/-- Gives back what was checked out, whether or not that works. -/
def giveBack : Option Checkout → Dialogue Surroundings Unit
  | some checkout => .ask (.release checkout) fun _ => .done ()
  | none => .done ()

/-- Runs an attempt. It has no outcome exactly if it was cancelled. -/
def run (stack : Stack) (mode : Mode) (resolver : Resolver) (limit : Option Nat) :
    Dialogue Surroundings (Option Outcome) := do
  let _ ← Surroundings.ask (.start limit)
  let (result, progress) ← (Step.drive stack mode resolver).run.run (Progress.initial stack.spec)
  giveBack progress.checkout
  return outcome? limit progress result

end StackKeeper.Attempt

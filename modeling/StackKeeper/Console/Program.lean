import StackKeeper.Console.Reconciliation
import StackKeeper.Console.Verification

/-!
# The program

A command line is read, the operator's settings and the secrets are found where the command needs
them, and the command is run.
-/

namespace StackKeeper.Console

def settingsCauses (f : Settings.Fault) : List Cause :=
  .told f.message :: (f.cause?.map Cause.told).toList

def settingsFrom (config : Option String) (environment : Dict String) :
    Host.Talk (Except Failure Settings) := do
  match config with
  | some path =>
    return (← Settings.load path).mapError fun f =>
      ⟨"Failed to load config file: " ++ path, settingsCauses f⟩
  | none =>
    return (Settings.ofEnvironment environment.get?).mapError fun f =>
      ⟨"Invalid operator settings in environment", settingsCauses f⟩

def withBackends (a : Arguments) (environment : Dict String)
    (run : Settings → Values → Host.Talk (Option Ending)) : Host.Talk (Option Ending) := do
  match ← settingsFrom a.config environment with
  | .error f => return some (.failed f)
  | .ok settings =>
    match ← valuesFor a.secretsFile environment with
    | .error f => return some (.failed f)
    | .ok values => run settings values

def execute (a : Arguments) (environment : Dict String) (patience : Nat) :
    Host.Talk (Option Ending) :=
  match a.command with
  | .validate paths => some <$> validate paths
  | .resolve reference =>
    withBackends a environment fun settings values =>
      some <$> resolve (resolverFor settings environment) values reference
  | .reconcile directory keys maxAttempts =>
    withBackends a environment fun settings values =>
      reconcile (installationFor settings environment values directory)
        (keeperFor settings (resolverFor settings environment)) keys maxAttempts patience

/-- Runs a command line. There is no ending yet if a stack asks for more rounds. -/
def run (args : List String) (environment : Dict String) (patience : Nat) :
    Host.Talk (Option Ending) :=
  match Arguments.read args environment with
  | .error m => pure (some (.misused m))
  | .ok a => execute a environment patience

/-- More rounds than a machine lives to see. Only the program as it runs is bounded by them. -/
def lifetime : Nat := Nat.pow 2 32

def program (args : List String) (environment : Dict String) : Host.Talk Ending := do
  return (← run args environment lifetime).getD (.failed (.plain "some stacks do not settle"))

end StackKeeper.Console

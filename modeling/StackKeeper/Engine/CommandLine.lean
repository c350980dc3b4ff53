import StackKeeper.Engine.Call
import StackKeeper.Engine.Diagnosis
import StackKeeper.Engine.Project
import StackKeeper.Json.Printer
import StackKeeper.Json.Reader
import StackKeeper.Source

/-!
# Driving the engine by its command line

A controller runs the engine's program in the directory of a project. All it remembers is the
environment it was given and the stack that was selected last; every command that works on a stack
names it.
-/

namespace StackKeeper.Engine

open Json Json.FieldReader

structure Controller where
  program : String
  directory : String
  environment : Dict String
  /-- The stack that was selected. -/
  stack : Option String
  deriving DecidableEq, Inhabited

/-! ## Reading what the engine prints -/

/-- The value of a configuration entry: a text as it is, any other value in its JSON form. -/
def configText : Option Json → String
  | none => ""
  | some (.string s) => s
  | some v => Json.compact v

def decodeConfigEntry : Decoder ConfigValue :=
  withoutRepeats ["value", "objectValue", "secret"] <|
    record "ConfigEntry" ["value", "objectValue", "secret"] <|
      (fun value objectValue secret =>
          ⟨configText ((value.or objectValue).map canonical), secret⟩) <$>
        nullableField "ConfigEntry" "value" anything
        <*> nullableField "ConfigEntry" "objectValue" anything
        <*> defaulted "secret" boolean false

def configOf (text : String) : Except Error Config :=
  let refuse (m : String) : Error := .engineFailed ("unreadable config output: " ++ m)
  match Json.read text with
  | .error f => .error (refuse f.message)
  | .ok v => (dictOf decodeConfigEntry v).mapError fun m => refuse m.message

/-- The outputs that the engine prints. Blanks stand for no outputs. -/
def outputsOf (text : String) : Except Error Outputs :=
  let refuse (m : String) : Error := .engineFailed ("unreadable stack outputs: " ++ m)
  if Text.isAllBlank text then .ok ∅
  else
    match Json.readValue text with
    | .error f => .error (refuse f.message)
    | .ok v => (Stack.Status.decodeOutputs v).mapError fun m => refuse m.message

/-! ## Running commands -/

namespace Controller

def new (program directory : String) : Controller := ⟨program, directory, ∅, none⟩

def openProject (program : String) (c : Checkout) : Host.Talk (Except Error Controller) := do
  match ← Host.pathExists c.directory with
  | .error f => return .error (.io f.message)
  | .ok false => return .error (.source s!"project directory {c.directory} does not exist")
  | .ok true => return .ok (new program c.directory)

def runEnvironment (c : Controller) : Dict String :=
  c.environment.insert "PULUMI_SKIP_UPDATE_CHECK" "true"

def command (c : Controller) (args : List String) : Host.Command :=
  ⟨c.program, args ++ ["--non-interactive"], some c.directory, c.runEnvironment⟩

def notStarted (c : Controller) (f : Host.Fault) : Error :=
  .engineFailed s!"failed to run {c.program}: {f.message}"

def capture (c : Controller) (operation : String) (args : List String) :
    Host.Talk (Except Error String) := do
  match ← Host.runProgram (c.command args) with
  | .error f => return .error (c.notStarted f)
  | .ok output =>
    let stdout := Utf8.decodeLossy output.stdout
    if output.succeeded then return .ok stdout
    else return .error (diagnose operation (stdout ++ "\n" ++ Utf8.decodeLossy output.stderr))

/-- The lines that can be read of what a command prints, on both of its streams. -/
def follow (c : Controller) (operation : String) (args : List String) :
    Host.Talk (Except Error String) := do
  match ← Host.runProgram (c.command args) with
  | .error f => return .error (c.notStarted f)
  | .ok output =>
    let lines := "\n".intercalate
      (Text.readableLines output.stdout ++ Text.readableLines output.stderr)
    if output.succeeded then return .ok lines else return .error (diagnose operation lines)

def withStack {α : Type} (c : Controller) (f : String → Host.Talk (Except Error α)) :
    Host.Talk (Except Error α) :=
  match c.stack with
  | some stack => f stack
  | none => pure (.error (.internal "no stack selected"))

/-! ## Arguments -/

def selectArgs (stack : String) (secretsProvider : Option String) : List String :=
  ["stack", "select", stack, "--create"] ++
    match secretsProvider with
    | some provider => ["--secrets-provider", provider]
    | none => []

def setArgs (key : String) (v : ConfigValue) : List String :=
  [if v.secret then "--secret" else "--plaintext", key ++ "=" ++ v.value]

/-- One command that sets every value. -/
def setAllArgs (stack : String) (config : Config) : List String :=
  ["config", "set-all", "--stack", stack] ++ config.entries.flatMap fun (k, v) => setArgs k v

def getConfigArgs (stack : String) : List String :=
  ["config", "--json", "--show-secrets", "--stack", stack]

def refreshArgs (stack : String) (expectNoChanges : Bool) : List String :=
  ["refresh", "--yes", "--skip-preview", "--stack", stack] ++
    if expectNoChanges then ["--expect-no-changes"] else []

def updateArgs (stack : String) : List String :=
  ["up", "--yes", "--skip-preview", "--stack", stack]

/-- Secret outputs stay masked: outputs end up in the status. -/
def outputsArgs (stack : String) : List String :=
  ["stack", "output", "--json", "--stack", stack]

def destroyArgs (stack : String) : List String :=
  ["destroy", "--yes", "--skip-preview", "--stack", stack]

def removeArgs (stack : String) : List String := ["stack", "rm", "--yes", "--stack", stack]

/-! ## Calls -/

/-- A long command, of which the link to its page is kept. -/
def summarized (c : Controller) (operation : String) (args : List String) :
    Host.Talk (Except Error Summary) := do
  return (← c.follow operation args).map fun output => ⟨permalink? output⟩

def select (c : Controller) (stack : String) (secretsProvider : Option String) :
    Host.Talk (Except Error Unit × Controller) := do
  if Text.isAllBlank stack then return (.error (.config "stack name must be set"), c)
  match ← c.capture "stack select" (selectArgs stack secretsProvider) with
  | .error e => return (.error e, c)
  | .ok _ => return (.ok (), { c with stack := some stack })

def getConfig (c : Controller) : Host.Talk (Except Error Config) :=
  c.withStack fun stack => do
    return (← c.capture "config" (getConfigArgs stack)).bind configOf

/-- Writes configuration. To write nothing needs no command. -/
def updateConfig (c : Controller) (config : Config) : Host.Talk (Except Error Unit) :=
  if config.isEmpty then pure (.ok ())
  else c.withStack fun stack => do
    return (← c.capture "config set-all" (setAllArgs stack config)).map fun _ => ()

def refresh (c : Controller) (expectNoChanges : Bool) : Host.Talk (Except Error Summary) :=
  c.withStack fun stack => c.summarized "refresh" (refreshArgs stack expectNoChanges)

def update (c : Controller) : Host.Talk (Except Error Summary) :=
  c.withStack fun stack => c.summarized "update" (updateArgs stack)

def getOutputs (c : Controller) : Host.Talk (Except Error Outputs) :=
  c.withStack fun stack => do
    return (← c.capture "stack output" (outputsArgs stack)).bind outputsOf

/-- Destroys what the stack deployed, then the stack itself. -/
def destroy (c : Controller) : Host.Talk (Except Error Summary) :=
  c.withStack fun stack => do
    match ← c.summarized "destroy" (destroyArgs stack) with
    | .error e => return .error e
    | .ok summary =>
      return (← c.capture "stack rm" (removeArgs stack)).map fun _ => summary

/-- Answers a call. Only the environment and the selection can change. -/
def perform (c : Controller) : (call : Call) → Host.Talk (call.Reply × Controller)
  | .setEnvironment d => pure (.ok (), { c with environment := c.environment.union d })
  | .installDependencies => do return (← installDependencies c.directory c.environment, c)
  | .selectStack stack provider => c.select stack provider
  | .getConfig => do return (← c.getConfig, c)
  | .updateConfig config => do return (← c.updateConfig config, c)
  | .refresh expectNoChanges => do return (← c.refresh expectNoChanges, c)
  | .update => do return (← c.update, c)
  | .getOutputs => do return (← c.getOutputs, c)
  | .destroy => do return (← c.destroy, c)

end Controller

end StackKeeper.Engine

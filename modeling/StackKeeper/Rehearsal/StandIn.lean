import StackKeeper.Engine.Call
import StackKeeper.Path
import StackKeeper.Source

/-!
# Stand-ins

An engine and a source in memory, which touch nothing. They remember what was asked of them, and
answer as they were told to, or else with success.
-/

namespace StackKeeper.Rehearsal

/-- The name of an engine call in records and scripts. -/
def engineCallName : Engine.Call → String
  | .setEnvironment _ => "set_envs"
  | .installDependencies => "install"
  | .selectStack .. => "select_stack"
  | .getConfig => "get_config"
  | .updateConfig _ => "update_config"
  | .refresh _ => "refresh"
  | .update => "update"
  | .getOutputs => "outputs"
  | .destroy => "destroy"

/-! ## Engine -/

/-- The memory of an engine that only remembers. -/
structure StandInEngine where
  /-- The names of all calls, the last one first. -/
  calls : List String
  /-- How often it was opened. -/
  opened : Nat
  /-- How many updates were asked for. -/
  updateCount : Nat
  /-- Configuration that every project brings along. -/
  checkedIn : Config
  /-- The configuration last written. -/
  applied : Config
  environment : Dict String
  /-- The stack last selected, and its secrets provider. -/
  selected : Option (String × Option String)
  outputs : Outputs
  /-- Results of the next updates. -/
  updates : List (Except Error Engine.Summary)
  /-- Results of the next destructions. -/
  destroys : List (Except Error Engine.Summary)
  installError : Option Error
  outputsError : Option Error
  /-- Whether a refresh finds changes. -/
  refreshFindsChanges : Bool
  /-- Whether updates wait at the gate. -/
  isGated : Bool
  deriving Inhabited

namespace StandInEngine

def empty : StandInEngine := ⟨[], 0, 0, ∅, ∅, ∅, none, ∅, [], [], none, none, false, false⟩

def orFail {α : Type} (e : Option Error) (a : α) : Except Error α :=
  match e with
  | some e => .error e
  | none => .ok a

/-- The first result that waits; a run for which none waits succeeds. -/
def nextResult : List (Except Error Engine.Summary) →
    Except Error Engine.Summary × List (Except Error Engine.Summary)
  | [] => (.ok ⟨none⟩, [])
  | r :: rest => (r, rest)

def driftError : Error := .refreshDrift "no changes were expected but changes occurred"

def noteCall (e : StandInEngine) (c : Engine.Call) : StandInEngine :=
  { e with
    calls := engineCallName c :: e.calls
    updateCount := if c = .update then e.updateCount + 1 else e.updateCount }

def answer : (c : Engine.Call) → StandInEngine → c.Reply × StandInEngine
  | .setEnvironment added, e => (.ok (), { e with environment := e.environment.union added })
  | .installDependencies, e => (orFail e.installError (), e)
  | .selectStack name provider, e => (.ok (), { e with selected := some (name, provider) })
  | .getConfig, e => (.ok e.checkedIn, e)
  | .updateConfig config, e => (.ok (), { e with applied := config })
  | .refresh expectNoChanges, e =>
    (if expectNoChanges && e.refreshFindsChanges then .error driftError else .ok ⟨none⟩, e)
  | .update, e => let (r, updates) := nextResult e.updates; (r, { e with updates })
  | .getOutputs, e => (orFail e.outputsError e.outputs, e)
  | .destroy, e => let (r, destroys) := nextResult e.destroys; (r, { e with destroys })

end StandInEngine

/-! ## Source -/

/-- The memory of a source that hands out one commit unless another is asked for. -/
structure StandInSource where
  commit : String
  error : Option Error
  /-- All requests, the last one first. -/
  requests : List SourceRequest
  /-- How many checkouts were given back. -/
  released : Nat
  deriving Inhabited

namespace StandInSource

def root : String := "/fake/checkout"

def directoryOf (r : SourceRequest) : String :=
  match r.directory with
  | some directory => Path.join root directory
  | none => root

def prepare (s : StandInSource) (r : SourceRequest) : Except Error Checkout × StandInSource :=
  (StandInEngine.orFail s.error ⟨root, directoryOf r, r.revision.pinnedCommit?.getD s.commit⟩,
    { s with requests := r :: s.requests })

def release (s : StandInSource) : StandInSource := { s with released := s.released + 1 }

end StandInSource

end StackKeeper.Rehearsal

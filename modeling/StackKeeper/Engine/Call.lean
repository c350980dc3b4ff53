import StackKeeper.Error
import StackKeeper.Stack.Config
import StackKeeper.Stack.Status

/-!
# What is asked of the engine

The calls an attempt makes to the engine, once it has opened it for a project, and what each is
answered with.
-/

namespace StackKeeper.Engine

structure Summary where
  permalink : Option String
  deriving DecidableEq, Repr, Inhabited

inductive Call where
  | setEnvironment (added : Dict String)
  | installDependencies
  | selectStack (name : String) (secretsProvider : Option String)
  | getConfig
  | updateConfig (config : Config)
  | refresh (expectNoChanges : Bool)
  | update
  | getOutputs
  | destroy
  deriving DecidableEq

/-- What a call that succeeds gives. -/
def Call.Answer : Call → Type
  | .setEnvironment _ => Unit
  | .installDependencies => Unit
  | .selectStack .. => Unit
  | .getConfig => Config
  | .updateConfig _ => Unit
  | .refresh _ => Summary
  | .update => Summary
  | .getOutputs => Outputs
  | .destroy => Summary

abbrev Call.Reply (c : Call) : Type := Except Error c.Answer

end StackKeeper.Engine

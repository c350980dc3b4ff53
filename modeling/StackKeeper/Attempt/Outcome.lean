import StackKeeper.Stack.Status

/-!
# What an attempt leads to

An attempt moves through phases and ends in an outcome. Recording the outcome over the previous
status gives the next status: a failed attempt keeps what the last successful one left.
-/

namespace StackKeeper

open Stack

namespace Attempt

inductive Phase where
  | initializing
  | dependenciesInstalled
  | configApplied
  | refreshed
  | converged (verdict : Verdict)
  | destroyed
  deriving DecidableEq, Repr, Inhabited

def Phase.name : Phase → String
  | initializing => "initializing"
  | dependenciesInstalled => "dependenciesInstalled"
  | configApplied => "configApplied"
  | refreshed => "refreshed"
  | converged verdict => "converged(" ++ verdict.name ++ ")"
  | destroyed => "destroyed"

inductive OutputsChange where
  | keep
  | replace (outputs : Outputs)
  | clear
  deriving Inhabited

structure Outcome where
  phase : Phase
  verdict : Verdict
  /-- The commit that was worked on, as far as it is known. -/
  commit : Option String
  permalink : Option String
  outputs : OutputsChange
  error : Option Error
  deriving Inhabited

end Attempt

def Stack.Status.record (previous : Option Status) (outcome : Attempt.Outcome) (now : Timestamp) :
    Status :=
  let successBefore := previous.bind (·.lastSuccessfulCommit)
  { outputs := match outcome.outputs with
      | .keep => previous.bind (·.outputs)
      | .replace outputs => some outputs
      | .clear => none
    lastUpdate := some
      { state := outcome.verdict.state
        lastAttemptedCommit := outcome.commit
        lastSuccessfulCommit :=
          if outcome.verdict.isSuccess then outcome.commit.or successBefore else successBefore
        permalink := outcome.permalink
        lastResyncTime := some now } }

end StackKeeper

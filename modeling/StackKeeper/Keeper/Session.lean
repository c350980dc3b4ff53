import StackKeeper.Attempt.Surroundings
import StackKeeper.Engine.CommandLine

/-!
# Sessions

What a task carries along from one request to its surroundings to the next.
-/

namespace StackKeeper.Keeper

open Surroundings (Request Reply giveUp?)

structure Session where
  limits : Limits
  /-- The engine at work, once it is opened. -/
  controller : Engine.Controller
  deriving Inhabited

namespace Session

def unlimited : Session := ⟨.none, default⟩

/-- The session of an attempt that starts now and has its time limited. -/
def started (s : Session) (now : Nat) (limit : Option Nat) : Session :=
  { s with limits := { s.limits with overdueFrom := limit.map (now + ·) } }

/-- The reply that an interruption forces on a request, if there is any by now. -/
def forcedReply? (s : Session) (now : Nat) (r : Request) : Option (Reply r) :=
  (s.limits.interruption? now).bind (giveUp? r)

end Session

end StackKeeper.Keeper

import StackKeeper.Keeper.Roster
import StackKeeper.Keeper.Rounds
import StackKeeper.Keeper.Session
import StackKeeper.Source.Git
import StackKeeper.Stack.Store

/-!
# A keeper's installation

Where the requests of a keeper go on a machine: stacks are manifests in a directory, sources come
from git, the engine is a program, and time is the machine's.
-/

namespace StackKeeper.Keeper

open Surroundings (Request Reply)

structure Installation where
  store : Stack.FileStore
  source : GitSource
  /-- The engine's program. -/
  engine : String
  /-- Where values are looked up. -/
  values : (r : Lookup.Request) → Host.Talk (Lookup.Reply r)

namespace Installation

def make (i : Installation) (s : Session) (now : Nat) :
    (r : Request) → Host.Talk (Reply r × Session)
  | .start limit => pure ((), s.started now limit)
  | .checkpoint => pure (.ok (), s)
  | .look r => do return (.ok (← i.values r), s)
  | .prepare r => do return (.ok (← i.source.prepare r), s)
  | .openEngine checkout _ => do
    match ← Engine.Controller.openProject i.engine checkout with
    | .ok controller => return (.ok (.ok ()), { s with controller })
    | .error e => return (.ok (.error e), s)
  | .engine c => do
    let (reply, controller) ← s.controller.perform c
    return (.ok reply, { s with controller })
  | .release checkout => do return (← GitSource.release checkout, s)
  | .load k => do return (← i.store.get k, s)
  | .save k status => do return (← i.store.updateStatus k status, s)
  | .now => do return (← Host.now, s)
  | .wait milliseconds => do
    Host.pause milliseconds
    return (.ok (), s)
  | .tell e => do
    Host.tell e
    return ((), s)

def answer (i : Installation) (r : Request) (s : Session) : Host.Talk (Reply r × Session) := do
  let now ← Host.elapsed
  match s.forcedReply? now r with
  | some reply => return (reply, s)
  | none => i.make s now r

def play {α : Type} (i : Installation) (d : Dialogue Surroundings α) : Host.Talk α := do
  return (← d.relayWith i.answer .unlimited).1

/-- Reconciles a stack until it is settled or no further round is allowed. There is no result yet if
that has not come about after `patience` rounds. -/
def pursue (i : Installation) (keeper : Keeper) (patience : Nat) (allowed : Option Nat)
    (k : Stack.Key) : Host.Talk (Option (Except Error Reconciled)) :=
  i.play (keeper.pursue k patience allowed)

/-- Reconciles several stacks, each of them once, in the order in which they come first. There are no
results yet if a stack has none. -/
def pursueAll (i : Installation) (keeper : Keeper) (patience : Nat) (allowed : Option Nat)
    (keys : List Stack.Key) : Host.Talk (Option (List (Stack.Key × Except Error Reconciled))) := do
  let results ← (Roster.empty.enterAll keys).1.mapM fun k => do
    return (← i.pursue keeper patience allowed k).map (k, ·)
  return results.mapM id

end Installation

end StackKeeper.Keeper

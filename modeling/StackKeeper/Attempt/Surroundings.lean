import StackKeeper.Engine.Call
import StackKeeper.Interruption
import StackKeeper.Lookup
import StackKeeper.Source
import StackKeeper.Stack.Manifest

/-!
# The surroundings of an attempt

What keeping a stack asks of the world: values, a source, the engine, the store of stacks, and time.
Most requests are raced: they are not made, or given up, once the attempt is to stop, and the reply
then says why.
-/

namespace StackKeeper

namespace Surroundings

inductive Request where
  /-- From now on, an attempt may take so many milliseconds. -/
  | start (limit : Option Nat)
  /-- Asks for nothing but whether to go on. -/
  | checkpoint
  | look (r : Lookup.Request)
  | prepare (r : SourceRequest)
  | openEngine (checkout : Checkout) (spec : Stack.Spec)
  | engine (c : Engine.Call)
  /-- Gives a checkout back. This is never given up. -/
  | release (checkout : Checkout)
  | load (key : Stack.Key)
  | save (key : Stack.Key) (status : Stack.Status)
  | now
  /-- Lets some milliseconds pass, unless the caller cancels. -/
  | wait (milliseconds : Nat)
  | tell (e : Host.Event)

abbrev Raced (α : Type) := Except Interruption α

def Reply : Request → Type
  | .start _ => Unit
  | .checkpoint => Raced Unit
  | .look r => Raced (Lookup.Reply r)
  | .prepare _ => Raced (Except Error Checkout)
  | .openEngine .. => Raced (Except Error Unit)
  | .engine c => Raced c.Reply
  | .release _ => Except Error Unit
  | .load _ => Except Error Stack
  | .save .. => Except Error Unit
  | .now => Timestamp
  | .wait _ => Raced Unit
  | .tell _ => Unit

end Surroundings

abbrev Surroundings : Service := ⟨Surroundings.Request, Surroundings.Reply⟩

namespace Surroundings

def ask (r : Request) : Dialogue Surroundings (Reply r) := .ask r .done

/-- The reply to a request that is not made, or given up, because of an interruption. Requests
without such a reply are made in any case. -/
def giveUp? : (r : Request) → Interruption → Option (Reply r)
  | .checkpoint, i => some (.error i)
  | .look _, i => some (.error i)
  | .prepare _, i => some (.error i)
  | .openEngine .., i => some (.error i)
  | .engine _, i => some (.error i)
  | .wait _, .cancelled => some (.error .cancelled)
  | .wait _, .overdue => none
  | .start _, _ => none
  | .release _, _ => none
  | .load _, _ => none
  | .save .., _ => none
  | .now, _ => none
  | .tell _, _ => none

/-- Has every lookup raced. The first one that is interrupted ends it all. -/
def watched {α : Type} : Dialogue Lookup α → Dialogue Surroundings (Raced α)
  | .done a => .done (.ok a)
  | .ask r next => .ask (.look r) fun
    | .ok reply => watched (next reply)
    | .error i => .done (.error i)

end Surroundings

end StackKeeper

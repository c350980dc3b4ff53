import StackKeeper.Stack.Key

/-!
# The roster

The keys of the stacks that are being worked on. No stack is worked on twice at a time: a key that
is on the roster cannot be entered again before it is taken off.
-/

namespace StackKeeper.Keeper

structure Roster where
  keys : List Stack.Key
  deriving DecidableEq, Repr, Inhabited

namespace Roster

def empty : Roster := ⟨[]⟩

def contains (r : Roster) (k : Stack.Key) : Bool := r.keys.contains k

/-- The roster with a key entered, unless it is there already. -/
def enter? (r : Roster) (k : Stack.Key) : Option Roster :=
  if r.contains k then none else some ⟨k :: r.keys⟩

/-- Enters several keys in turn, and tells which of them were not there already. -/
def enterAll : Roster → List Stack.Key → List Stack.Key × Roster
  | r, [] => ([], r)
  | r, k :: rest =>
    match r.enter? k with
    | none => r.enterAll rest
    | some r => let (entered, r) := r.enterAll rest; (k :: entered, r)

def leave (r : Roster) (k : Stack.Key) : Roster := ⟨r.keys.filter (· != k)⟩

end Roster

end StackKeeper.Keeper

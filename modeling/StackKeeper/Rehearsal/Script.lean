import StackKeeper.Rehearsal.StandIn

/-!
# Scripts

An engine and a source that follow a script: for every call there is a queue of cues, of which each
says how one call ends and how long it takes. A call without a cue succeeds at once.
-/

namespace StackKeeper.Rehearsal

structure Cue where
  error : Option Error
  /-- Milliseconds that the call takes. -/
  delay : Nat
  permalink : Option String
  config : Config
  outputs : Outputs
  commit : Option String
  deriving Inhabited

namespace Cue

def success : Cue := ⟨none, 0, none, ∅, ∅, none⟩

def result {α : Type} (c : Cue) (a : α) : Except Error α :=
  match c.error with
  | some e => .error e
  | none => .ok a

def summary (c : Cue) : Except Error Engine.Summary := c.result ⟨c.permalink⟩

def reply (c : Cue) : (call : Engine.Call) → call.Reply
  | .setEnvironment _ => c.result ()
  | .installDependencies => c.result ()
  | .selectStack .. => c.result ()
  | .getConfig => c.result c.config
  | .updateConfig _ => c.result ()
  | .refresh _ => c.summary
  | .update => c.summary
  | .getOutputs => c.result c.outputs
  | .destroy => c.summary

def checkout (c : Cue) : Except Error Checkout :=
  c.result ⟨"/co", "/co/project", c.commit.getD "c0"⟩

end Cue

/-- Queues of cues under the names of calls. -/
abbrev Cues := List (String × List Cue)

/-- The next cue for a call, and the queues without it. -/
def Cues.next (name : String) : Cues → Cue × Cues
  | [] => (.success, [])
  | (n, queue) :: rest =>
    if n == name then
      match queue with
      | [] => (.success, (n, []) :: rest)
      | cue :: more => (cue, (n, more) :: rest)
    else
      let (cue, rest) := Cues.next name rest
      (cue, (n, queue) :: rest)

inductive EngineRecord where
  | opened (c : Checkout)
  | called (c : Engine.Call)

structure ScriptedEngine where
  cues : Cues
  /-- The last one first. -/
  record : List EngineRecord

inductive SourceRecord where
  | prepared (r : SourceRequest)
  | released (c : Checkout)

structure ScriptedSource where
  cues : Cues
  /-- The last one first. -/
  record : List SourceRecord

namespace ScriptedEngine

/-- Takes the next cue for a call and notes the call. -/
def cue (e : ScriptedEngine) (name : String) (r : EngineRecord) : Cue × ScriptedEngine :=
  let (cue, cues) := Cues.next name e.cues
  (cue, ⟨cues, r :: e.record⟩)

end ScriptedEngine

namespace ScriptedSource

def cue (s : ScriptedSource) (name : String) (r : SourceRecord) : Cue × ScriptedSource :=
  let (cue, cues) := Cues.next name s.cues
  (cue, ⟨cues, r :: s.record⟩)

end ScriptedSource

end StackKeeper.Rehearsal

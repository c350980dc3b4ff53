import StackKeeper.Keeper.Rounds
import StackKeeper.Keeper.Roster
import StackKeeper.Rehearsal.Scene

/-!
# The timeline of a rehearsal

Tasks take turns on one clock. A task goes on until it has to wait; when all wait, the clock moves
to the next moment at which one of them goes on. The one in the foreground has precedence, all
others follow in the order in which they were started.
-/

namespace StackKeeper.Rehearsal

open Surroundings (Request Reply giveUp?)
open Keeper (Reconciled Roster Session)

inductive Report where
  | attempted (outcome : Option Attempt.Outcome)
  /-- No result means that it was not settled in the rounds it had. -/
  | kept (result : Option (Except Error Reconciled))
  deriving Inhabited

inductive Point where
  | ready (d : Dialogue Surroundings Report)
  | waiting (r : Request) (pending : Pending (Reply r))
      (next : Reply r → Dialogue Surroundings Report)
  | finished (report : Report)

structure Task where
  /-- The stack it works on; a task in the foreground has none. -/
  key : Option Stack.Key
  session : Session
  point : Point

/-- Whether a request is answered by now without any waiting. -/
def isDue (now : Nat) : Pace → Bool
  | .atOnce => true
  | .until moment => decide (moment ≤ now)
  | .atGate _ => false

/-- Goes on until the task has to wait. -/
def walk (now : Nat) : Dialogue Surroundings Report → Session → Scene → Point × Session × Scene
  | .done report, session, w => (.finished report, session, w)
  | .ask r next, session, w =>
    match session.forcedReply? now r with
    | some reply => walk now (next reply) session w
    | none =>
      let (pending, session, w) := w.begin now session r
      if isDue now pending.pace then
        let (reply, w) := pending.reply w
        walk now (next reply) session w
      else (.waiting r pending next, session, w)

namespace Task

def canGoOn (t : Task) (now : Nat) : Bool :=
  match t.point with
  | .ready _ => true
  | .waiting r pending _ => (t.session.forcedReply? now r).isSome || isDue now pending.pace
  | .finished _ => false

def goOn (t : Task) (now : Nat) (w : Scene) : Task × Scene :=
  let walked (d : Dialogue Surroundings Report) (w : Scene) : Task × Scene :=
    let (point, session, w) := walk now d t.session w
    ({ t with session, point }, w)
  match t.point with
  | .ready d => walked d w
  | .waiting r pending next =>
    match t.session.forcedReply? now r with
    | some reply => walked (next reply) w
    | none => let (reply, w) := pending.reply w; walked (next reply) w
  | .finished _ => (t, w)

def report? (t : Task) : Option Report :=
  match t.point with
  | .finished report => some report
  | _ => none

def isFinished (t : Task) : Bool := t.report?.isSome

def moments (t : Task) : List Nat :=
  match t.point with
  | .waiting r pending _ =>
    let due := match pending.pace with
      | .until moment => [moment]
      | _ => []
    let cancelled := if (giveUp? r .cancelled).isSome then t.session.limits.cancelledFrom else none
    let overdue := if (giveUp? r .overdue).isSome then t.session.limits.overdueFrom else none
    due ++ cancelled.toList ++ overdue.toList
  | _ => []

/-- The arrival for which the task waits at the gate. -/
def arrival? (t : Task) : Option Nat :=
  match t.point with
  | .waiting _ ⟨.atGate arrival, _⟩ _ => some arrival
  | _ => none

/-- Lets the task through the gate if it waits there for this arrival. -/
def letThrough (t : Task) (arrival : Nat) : Task :=
  match t.point with
  | .waiting r ⟨.atGate a, reply⟩ next =>
    if a = arrival then { t with point := .waiting r ⟨.atOnce, reply⟩ next } else t
  | _ => t

end Task

structure Stage where
  keeper : Keeper
  /-- How many rounds a task that was dispatched may take. -/
  allowedRounds : Option Nat
  scene : Scene
  /-- Milliseconds since the start. -/
  now : Nat
  roster : Roster
  tasks : List Task
  /-- The moment from which on all dispatched tasks are to stop. -/
  calledOffFrom : Option Nat

namespace Stage

/-- More turns, and more rounds, than any rehearsal takes. -/
def patience : Nat := 1000000

/-- Puts a task in its place after a turn. One that ends is taken off the roster. -/
def afterTurn (s : Stage) (before after : List Task) (t : Task) (scene : Scene) : Stage :=
  let roster := match t.key with
    | some k => if t.isFinished then s.roster.leave k else s.roster
    | none => s.roster
  { s with scene, roster, tasks := before.reverse ++ t :: after }

/-- The first task that can go on has its turn. -/
def turnIn (s : Stage) (before : List Task) : List Task → Option Stage
  | [] => none
  | t :: after =>
    if t.canGoOn s.now then
      let (t, scene) := t.goOn s.now s.scene
      some (s.afterTurn before after t scene)
    else s.turnIn (t :: before) after

def turn (s : Stage) : Option Stage := s.turnIn [] s.tasks

def nextMoment (s : Stage) : Option Nat :=
  ((s.tasks.flatMap Task.moments).filter (s.now < ·)).min?

/-- Lets all tasks go on until each of them waits. -/
def settleIn : (turns : Nat) → Stage → Stage
  | 0, s => s
  | turns + 1, s =>
    match s.turn with
    | some s => settleIn turns s
    | none => s

def settle (s : Stage) : Stage := settleIn patience s

/-- Lets tasks and time go on until something holds, or nothing moves any more. -/
def awaitIn (holds : Stage → Bool) : (turns : Nat) → Stage → Stage
  | 0, s => s
  | turns + 1, s =>
    if holds s then s
    else
      match s.turn with
      | some s => awaitIn holds turns s
      | none =>
        match s.nextMoment with
        | some moment => awaitIn holds turns { s with now := moment }
        | none => s

def await (s : Stage) (holds : Stage → Bool) : Stage := awaitIn holds patience s

/-! ## The foreground -/

/-- Limits of a task that is cancelled after some milliseconds. -/
def limitsAfter (s : Stage) (cancelAfter : Option Nat) : Limits :=
  ⟨cancelAfter.map (s.now + ·), none⟩

def inForeground (t : Task) : Bool := t.key.isNone

def perform (s : Stage) (cancelAfter : Option Nat) (d : Dialogue Surroundings Report) :
    Option Report × Stage :=
  let t : Task := ⟨none, ⟨s.limitsAfter cancelAfter, default⟩, .ready d⟩
  let s := { s with tasks := t :: s.tasks }.await fun s =>
    s.tasks.any fun t => inForeground t && t.isFinished
  ((s.tasks.find? inForeground).bind Task.report?,
    { s with tasks := s.tasks.filter (!inForeground ·) })

/-! ## The background -/

def isFor (k : Stack.Key) (t : Task) : Bool := t.key == some k

/-- Starts to pursue a stack, unless that is being done already. -/
def dispatchWithin (s : Stage) (limits : Limits) (k : Stack.Key) : Option Stage :=
  (s.roster.enter? k).map fun roster =>
    let d := Report.kept <$> s.keeper.pursue k patience s.allowedRounds
    let t : Task := ⟨some k, ⟨limits, default⟩, .ready d⟩
    { s with roster, tasks := s.tasks.filter (!isFor k ·) ++ [t] }

def dispatch (s : Stage) (k : Stack.Key) : Option Stage :=
  s.dispatchWithin ⟨s.calledOffFrom, none⟩ k

def join (s : Stage) (k : Stack.Key) : Option Report × Stage :=
  let s := s.await fun s => (s.tasks.filter (isFor k)).all Task.isFinished
  ((s.tasks.find? (isFor k)).bind Task.report?, { s with tasks := s.tasks.filter (!isFor k ·) })

def dispatchAll (limits : Limits) : Stage → List Stack.Key → List Stack.Key × Stage
  | s, [] => ([], s)
  | s, k :: rest =>
    match s.dispatchWithin limits k with
    | none => dispatchAll limits s rest
    | some s => let (keys, s) := dispatchAll limits s rest; (k :: keys, s)

def joinAll : Stage → List Stack.Key → List (Stack.Key × Option Report) × Stage
  | s, [] => ([], s)
  | s, k :: rest =>
    let (report, s) := s.join k
    let (reports, s) := joinAll s rest
    ((k, report) :: reports, s)

/-- Pursues several stacks at a time and waits for all of them. -/
def pursueAll (s : Stage) (cancelAfter : Option Nat) (keys : List Stack.Key) :
    List (Stack.Key × Option Report) × Stage :=
  let (started, s) := dispatchAll (s.limitsAfter cancelAfter) s keys
  joinAll s started

/-- Calls all dispatched tasks off, those that run and those that are still to come. -/
def callOff (s : Stage) : Stage :=
  let stop (t : Task) : Task :=
    { t with session := { t.session with
        limits := { t.session.limits with cancelledFrom := some s.now } } }
  { s with calledOffFrom := some s.now, tasks := s.tasks.map stop }

/-- Lets one update through the gate: the one that has waited longest, or else the next to come. -/
def openGate (s : Stage) : Stage :=
  match (s.tasks.filterMap Task.arrival?).min? with
  | some arrival => { s with tasks := s.tasks.map (·.letThrough arrival) }
  | none => { s with scene := { s.scene with gateIsOpen := true } }

end Stage

end StackKeeper.Rehearsal

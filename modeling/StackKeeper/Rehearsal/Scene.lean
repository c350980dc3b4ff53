import StackKeeper.Keeper.Session
import StackKeeper.Rehearsal.Machine
import StackKeeper.Rehearsal.Script
import StackKeeper.Source.Git
import StackKeeper.Stack.Store

/-!
# The scene of a rehearsal

Who plays the engine, the source and the store, and how each request to them begins. A request may
be answered at once, take some time, or wait until somebody opens the gate.
-/

namespace StackKeeper.Rehearsal

open Surroundings (Request Reply)
open Keeper (Session)

inductive EngineRole where
  | standIn (e : StandInEngine)
  | scripted (e : ScriptedEngine)
  /-- A program of the machine. -/
  | program (name : String)

inductive SourceRole where
  | standIn (s : StandInSource)
  | scripted (s : ScriptedSource)
  | git (s : GitSource)

inductive StoreRole where
  | memory (s : Stack.MemoryStore)
  | files (s : Stack.FileStore)

structure Scene where
  machine : Rehearsal
  secrets : MemorySecrets
  store : StoreRole
  engine : EngineRole
  source : SourceRole
  /-- Whether the next update passes the gate without waiting. -/
  gateIsOpen : Bool
  /-- How many updates have come to the gate. -/
  arrivals : Nat

inductive Pace where
  | atOnce
  | until (moment : Nat)
  /-- Until the gate is opened for this arrival. -/
  | atGate (arrival : Nat)
  deriving DecidableEq, Repr, Inhabited

/-- A request under way: when it is answered, and how. -/
structure Pending (α : Type) where
  pace : Pace
  reply : Scene → α × Scene

namespace Pending

def ofReply {α : Type} (a : α) : Pending α := ⟨.atOnce, fun w => (a, w)⟩

def later {α : Type} (moment : Nat) (a : α) : Pending α := ⟨.until moment, fun w => (a, w)⟩

end Pending

abbrev Begun (r : Request) := Pending (Reply r) × Session × Scene

namespace Scene

def play {α : Type} (w : Scene) (d : Host.Talk α) : α × Scene :=
  let (a, machine) := w.machine.play d
  (a, { w with machine })

/-! ## Stacks -/

def load (w : Scene) (k : Stack.Key) : Except Error Stack × Scene :=
  match w.store with
  | .memory s => (s.get k, w)
  | .files s => w.play (s.get k)

def save (w : Scene) (k : Stack.Key) (status : Stack.Status) : Except Error Unit × Scene :=
  match w.store with
  | .memory s =>
    match s.updateStatus k status with
    | .ok s => (.ok (), { w with store := .memory s })
    | .error e => (.error e, w)
  | .files s => w.play (s.updateStatus k status)

def keys (w : Scene) : Except Error (List Stack.Key) × Scene :=
  match w.store with
  | .memory s => (.ok s.list, w)
  | .files s => w.play s.list

def insert (w : Scene) (stack : Stack) : Except Error Unit × Scene :=
  match w.store with
  | .memory s => (.ok (), { w with store := .memory (s.insert stack) })
  | .files s => w.play (s.put stack.key stack)

/-! ## Source -/

def prepare (w : Scene) (now : Nat) (r : SourceRequest) : Pending (Except Error Checkout) × Scene :=
  match w.source with
  | .standIn s =>
    let (reply, s) := s.prepare r
    (.ofReply reply, { w with source := .standIn s })
  | .scripted s =>
    let (cue, s) := s.cue "prepare" (.prepared r)
    (.later (now + cue.delay) cue.checkout, { w with source := .scripted s })
  | .git s =>
    let (reply, w) := w.play (s.prepare r)
    (.ofReply reply, w)

def release (w : Scene) (now : Nat) (c : Checkout) : Pending (Except Error Unit) × Scene :=
  match w.source with
  | .standIn s => (.ofReply (.ok ()), { w with source := .standIn s.release })
  | .scripted s =>
    let (cue, s) := s.cue "release" (.released c)
    (.later (now + cue.delay) (cue.result ()), { w with source := .scripted s })
  | .git _ =>
    let (reply, w) := w.play (GitSource.release c)
    (.ofReply reply, w)

/-! ## Engine -/

def openEngine (w : Scene) (now : Nat) (session : Session) (c : Checkout) :
    Pending (Except Error Unit) × Session × Scene :=
  match w.engine with
  | .standIn e =>
    (.ofReply (.ok ()), session, { w with engine := .standIn { e with opened := e.opened + 1 } })
  | .scripted e =>
    let (cue, e) := e.cue "open" (.opened c)
    (.later (now + cue.delay) (cue.result ()), session, { w with engine := .scripted e })
  | .program name =>
    match w.play (Engine.Controller.openProject name c) with
    | (.ok controller, w) => (.ofReply (.ok ()), { session with controller }, w)
    | (.error e, w) => (.ofReply (.error e), session, w)

/-- The stand-in's answer, which it gives when the call ends. -/
def standInReply (c : Engine.Call) (w : Scene) : c.Reply × Scene :=
  match w.engine with
  | .standIn e =>
    let (reply, e) := e.answer c
    (reply, { w with engine := .standIn e })
  | _ => (Cue.success.reply c, w)

/-- Comes to the gate, and passes it if it is open. -/
def arrive (w : Scene) : Pace × Scene :=
  if w.gateIsOpen then (.atOnce, { w with gateIsOpen := false })
  else (.atGate w.arrivals, { w with arrivals := w.arrivals + 1 })

def callEngine (w : Scene) (now : Nat) (session : Session) (c : Engine.Call) :
    Pending c.Reply × Session × Scene :=
  match w.engine with
  | .standIn e =>
    let w := { w with engine := .standIn (e.noteCall c) }
    let (pace, w) := if e.isGated && decide (c = .update) then w.arrive else (.atOnce, w)
    (⟨pace, standInReply c⟩, session, w)
  | .scripted e =>
    let (cue, e) := e.cue (engineCallName c) (.called c)
    (.later (now + cue.delay) (cue.reply c), session, { w with engine := .scripted e })
  | .program _ =>
    let ((reply, controller), w) := w.play (session.controller.perform c)
    (.ofReply reply, { session with controller }, w)

/-! ## All requests -/

/-- The reply to a raced request that is not given up. -/
def completed {α : Type} (p : Pending α) : Pending (Surroundings.Raced α) :=
  ⟨p.pace, fun w => let (a, w) := p.reply w; (.ok a, w)⟩

def begin (w : Scene) (now : Nat) (session : Session) : (r : Request) → Begun r
  | .start limit => (.ofReply (), session.started now limit, w)
  | .checkpoint => (.ofReply (.ok ()), session, w)
  | .look r =>
    let (reply, w) := w.play (Lookup.fromMemory w.secrets r)
    (.ofReply (.ok reply), session, w)
  | .prepare r =>
    let (p, w) := w.prepare now r
    (completed p, session, w)
  | .openEngine c _ =>
    let (p, session, w) := w.openEngine now session c
    (completed p, session, w)
  | .engine c =>
    let (p, session, w) := w.callEngine now session c
    (completed p, session, w)
  | .release c =>
    let (p, w) := w.release now c
    (p, session, w)
  | .load k =>
    let (reply, w) := w.load k
    (.ofReply reply, session, w)
  | .save k status =>
    let (reply, w) := w.save k status
    (.ofReply reply, session, w)
  | .now =>
    let (moment, w) := w.play Host.now
    (.ofReply moment, session, w)
  | .wait milliseconds => (.later (now + milliseconds) (.ok ()), session, w)
  | .tell e =>
    let ((), w) := w.play (Host.tell e)
    (.ofReply (), session, w)

end Scene

end StackKeeper.Rehearsal

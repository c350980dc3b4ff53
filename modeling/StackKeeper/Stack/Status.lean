import StackKeeper.Error
import StackKeeper.Json.Decode
import StackKeeper.Json.Encode
import StackKeeper.Timestamp

/-!
# The observed state of a stack

The status keeps what the last attempt did and the outputs of the last update. A `Verdict` is the
finer judgement of one attempt; the status keeps only whether it succeeded.
-/

namespace StackKeeper

/-- The outputs of a stack. Their values are the engine's own. -/
abbrev Outputs := Dict Json

namespace Stack

/-- Whether an attempt succeeded, as kept in the status. -/
inductive UpdateState where
  | succeeded
  | failed
  deriving DecidableEq, Repr, Inhabited

def UpdateState.name : UpdateState → String
  | .succeeded => "succeeded"
  | .failed => "failed"

inductive Verdict where
  | succeeded
  | failed
  /-- Another update of the stack is in progress. -/
  | conflict
  /-- The engine waits for operations that were left unfinished. -/
  | pendingOperations
  /-- The backend does not know the stack. -/
  | notFound
  deriving DecidableEq, Repr, Inhabited

namespace Verdict

def name : Verdict → String
  | succeeded => "succeeded"
  | failed => "failed"
  | conflict => "conflict"
  | pendingOperations => "pendingOperations"
  | notFound => "notFound"

def title : Verdict → String
  | succeeded => "Succeeded"
  | failed => "Failed"
  | conflict => "Conflict"
  | pendingOperations => "PendingOperations"
  | notFound => "NotFound"

def all : List Verdict := [succeeded, failed, conflict, pendingOperations, notFound]

def ofName? (name : String) : Option Verdict := all.find? (·.name == name)

/-- The verdict on an update or destroy that ended in an error. -/
def ofError : Error → Verdict
  | .engineConflict _ => conflict
  | .enginePendingOperations _ => pendingOperations
  | .notFound _ => notFound
  | _ => failed

def isSuccess (v : Verdict) : Bool := v == succeeded

/-- Only a conflict goes away by waiting. -/
def isRetryable (v : Verdict) : Bool := v == conflict

def state (v : Verdict) : UpdateState := if v.isSuccess then .succeeded else .failed

end Verdict

structure LastUpdate where
  state : UpdateState
  lastAttemptedCommit : Option String
  /-- Moved on by successful attempts only. -/
  lastSuccessfulCommit : Option String
  /-- The engine's page about the attempt. -/
  permalink : Option String
  lastResyncTime : Option Timestamp
  deriving DecidableEq, Repr, Inhabited

structure Status where
  outputs : Option Outputs
  lastUpdate : Option LastUpdate
  deriving Inhabited

namespace Status

open Json Json.FieldReader

def empty : Status := ⟨none, none⟩

def lastSuccessfulCommit (s : Status) : Option String :=
  s.lastUpdate.bind (·.lastSuccessfulCommit)

def encodeLastUpdate (u : LastUpdate) : Json :=
  .object (member "state" (.string u.state.name) ++
    memberOf? "lastAttemptedCommit" .string u.lastAttemptedCommit ++
    memberOf? "lastSuccessfulCommit" .string u.lastSuccessfulCommit ++
    memberOf? "permalink" .string u.permalink ++
    memberOf? "lastResyncTime" (fun t => .string t.toText) u.lastResyncTime)

def encodeOutputs (o : Outputs) : Json := ofDict id o

def encode (s : Status) : Json :=
  .object (memberOf? "outputs" encodeOutputs s.outputs ++
    memberOf? "lastUpdate" encodeLastUpdate s.lastUpdate)

def decodeMoment : Decoder Timestamp
  | .string s => (Timestamp.ofText s).mapError fun f => .refused f.message
  | v => wrongType v "an RFC 3339 formatted date and time string"

def decodeUpdateState : Decoder UpdateState :=
  variant [("succeeded", .succeeded), ("failed", .failed)]

def decodeLastUpdate : Decoder LastUpdate :=
  record "StackUpdateState"
      ["state", "lastAttemptedCommit", "lastSuccessfulCommit", "permalink", "lastResyncTime"] <|
    LastUpdate.mk <$> required "StackUpdateState" "state" decodeUpdateState
      <*> optional "lastAttemptedCommit" text
      <*> optional "lastSuccessfulCommit" text
      <*> optional "permalink" text
      <*> optional "lastResyncTime" decodeMoment

def decodeOutputs : Decoder Outputs := dictOf anything

def decode : Decoder Status :=
  record "StackStatus" ["outputs", "lastUpdate"] <|
    Status.mk <$> optional "outputs" decodeOutputs <*> optional "lastUpdate" decodeLastUpdate

end Status

end Stack

end StackKeeper

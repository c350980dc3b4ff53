import StackKeeper.Host
import StackKeeper.Kdl.Node
import StackKeeper.Text.Blank

/-!
# Settings of the operator

Which programs are run, where checkouts go, and how long attempts may take. Settings stand in
variables of the environment or in a KDL document; what they leave out has a default.
-/

namespace StackKeeper

structure Settings where
  /-- The engine's program. -/
  engine : String
  git : String
  /-- Where checkouts go; a place for temporary files if not given. -/
  workDirectory : Option String
  /-- Namespace of secrets whose selector names none. -/
  «namespace» : String
  /-- Seconds to wait before an attempt that met a conflict is repeated. -/
  retryInterval : Nat
  /-- Seconds that one attempt may take. -/
  attemptTimeout : Option Nat
  deriving DecidableEq, Repr, Inhabited

namespace Settings

def defaults : Settings := ⟨"pulumi", "git", none, "default", 10, none⟩

inductive Fault where
  | unreadable (f : Kdl.Fault)
  | missingField (name : String)
  | invalidValue (name message : String)
  | io (f : Host.Fault)
  deriving DecidableEq, Repr, Inhabited

def Fault.message : Fault → String
  | unreadable f => "KDL parse error: " ++ f.message
  | missingField name => "missing required field: " ++ name
  | invalidValue name message => s!"invalid value for {name}: {message}"
  | io f => "IO error: " ++ f.message

/-- The fault under this one. -/
def Fault.cause? : Fault → Option String
  | unreadable f => some f.message
  | io f => some f.message
  | _ => none

/-- The first number that is too large for 64 bits. -/
def secondsBound : Nat := Nat.pow 2 64

/-! ## Environment -/

def countDigits (value : Nat) : List Char → Except String Nat
  | [] => .ok value
  | c :: rest =>
    if !c.isDigit then .error "invalid digit found in string"
    else
      let next := 10 * value + (c.toNat - '0'.toNat)
      if secondsBound ≤ next then .error "number too large to fit in target type"
      else countDigits next rest

/-- A whole number of seconds. A plus may stand in front. -/
def secondsOf (s : String) : Except String Nat :=
  match Text.trimChars s.toList with
  | [] => .error "cannot parse integer from empty string"
  | ['+'] => .error "invalid digit found in string"
  | '+' :: digits => countDigits 0 digits
  | digits => countDigits 0 digits

/-- The seconds in a variable, or what stands for them if it is not set. -/
def secondsIn {α : Type} (lookup : String → Option String) (name : String) (unset : α)
    (set : Nat → α) : Except Fault α :=
  match lookup name with
  | none => .ok unset
  | some text =>
    match secondsOf text with
    | .ok n => .ok (set n)
    | .error m => .error (.invalidValue name m)

def ofEnvironment (lookup : String → Option String) : Except Fault Settings := do
  let retryInterval ← secondsIn lookup "STACKOP_RETRY_INTERVAL_SECS" defaults.retryInterval id
  let attemptTimeout ← secondsIn lookup "STACKOP_ATTEMPT_TIMEOUT_SECS" none some
  return {
    engine := (lookup "PULUMI_BIN").getD defaults.engine
    git := (lookup "GIT_BIN").getD defaults.git
    workDirectory := lookup "STACKOP_WORK_DIR"
    «namespace» := (lookup "STACKOP_NAMESPACE").getD defaults.namespace
    retryInterval, attemptTimeout }

/-! ## Documents -/

def argument? (n : Kdl.Node) : Option Kdl.Value :=
  (n.entries.find? fun e => e.name.isNone).map (·.value)

def textOf (n : Kdl.Node) : Except Fault String :=
  match argument? n with
  | some (.string s) => .ok s
  | _ => .error (.missingField n.name)

def secondsOfNode (n : Kdl.Node) : Except Fault Nat :=
  match argument? n with
  | some (.integer i) =>
    if 0 ≤ i ∧ i < secondsBound then .ok i.toNat
    else .error (.invalidValue n.name s!"{i} is not a valid number of seconds")
  | _ => .error (.missingField n.name)

/-- The settings after a node. Nodes of other names say nothing. -/
def apply (s : Settings) (n : Kdl.Node) : Except Fault Settings := do
  match n.name with
  | "pulumi-bin" => return { s with engine := ← textOf n }
  | "git-bin" => return { s with git := ← textOf n }
  | "work-dir" => return { s with workDirectory := some (← textOf n) }
  | "namespace" => return { s with «namespace» := ← textOf n }
  | "retry-interval-secs" => return { s with retryInterval := ← secondsOfNode n }
  | "attempt-timeout-secs" => return { s with attemptTimeout := some (← secondsOfNode n) }
  | _ => return s

/-- Settings from a document. Of two nodes with one name the later counts. -/
def ofDocument (d : Kdl.Document) : Except Fault Settings := do
  let s ← d.foldlM apply defaults
  if s.namespace.isEmpty then throw (.invalidValue "namespace" "must not be empty")
  return s

def ofText (text : String) : Except Fault Settings :=
  match Kdl.document? text with
  | .ok d => ofDocument d
  | .error f => .error (.unreadable f)

def load (path : String) : Host.Talk (Except Fault Settings) := do
  match ← Host.readText path with
  | .ok text => return ofText text
  | .error f => return .error (.io f)

end Settings

end StackKeeper

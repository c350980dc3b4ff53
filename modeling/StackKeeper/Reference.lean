import StackKeeper.Error
import StackKeeper.Json.Decode
import StackKeeper.Json.Encode
import StackKeeper.Text.Blank

/-!
# References to values

A reference says where a value is to be loaded from. In a manifest it is an object with a `type` and
exactly one selector, the one that belongs to the type.
-/

namespace StackKeeper

structure SecretSelector where
  «namespace» : Option String
  name : String
  key : String
  deriving DecidableEq, Repr, Inhabited

/-- The namespace of the selector, or `default` where it names none. -/
def SecretSelector.namespaceOr (s : SecretSelector) (default : String) : String :=
  match s.namespace with
  | some ns => if ns.isEmpty then default else ns
  | none => default

inductive Reference where
  /-- A variable of the environment. -/
  | env (name : String)
  /-- A whole file. -/
  | file (path : String)
  | secret (selector : SecretSelector)
  /-- The value itself. -/
  | literal (value : String)
  deriving DecidableEq, Repr, Inhabited

namespace Reference

def defaultNamespace : String := "default"

def typeName : Reference → String
  | env _ => "Env"
  | file _ => "FS"
  | secret _ => "Secret"
  | literal _ => "Literal"

/-- A short description that never shows a literal value. -/
def describe : Reference → String
  | env name => "env:" ++ name
  | file path => "fs:" ++ path
  | secret s => s!"secret:{s.namespaceOr defaultNamespace}/{s.name}#{s.key}"
  | literal _ => "literal"

/-- The part of the selector that is blank although it has to address something. -/
def blankPart? : Reference → Option String
  | env name => if Text.isAllBlank name then some "env.name" else none
  | file path => if Text.isAllBlank path then some "filesystem.path" else none
  | secret s =>
    if Text.isAllBlank s.name then some "secret.name"
    else if Text.isAllBlank s.key then some "secret.key"
    else none
  | literal _ => none

/-- Refuses references that cannot address anything. -/
def validate (r : Reference) : Except Error Unit :=
  match r.blankPart? with
  | some part => .error (.config s!"malformed {r.typeName} reference: {part} is empty")
  | none => .ok ()

/-! ## Manifest form -/

open Json Json.FieldReader

def encodeSelector (s : SecretSelector) : Json :=
  .object (memberOf? "namespace" .string s.namespace ++ member "name" (.string s.name) ++
    member "key" (.string s.key))

def encode : Reference → Json
  | env name => .object [("type", .string "Env"), ("env", .object [("name", .string name)])]
  | file path => .object [("type", .string "FS"), ("filesystem", .object [("path", .string path)])]
  | secret s => .object [("type", .string "Secret"), ("secret", encodeSelector s)]
  | literal value =>
    .object [("type", .string "Literal"), ("literal", .object [("value", .string value)])]

/-- A reference as written: a type, and any of the four selectors. -/
structure Written where
  type : String
  env : Option String
  file : Option String
  secret : Option SecretSelector
  literal : Option String

def Written.count (w : Written) : Nat :=
  w.env.toList.length + w.file.toList.length + w.secret.toList.length + w.literal.toList.length

/-- The reference, if exactly the selector of the type is there. -/
def ofWritten (w : Written) : Except Error Reference :=
  if 1 < w.count then
    .error (.config s!"{w.type} reference must carry exactly one selector, found {w.count}")
  else
    let pick (r : Option Reference) : Except Error Reference :=
      match r with
      | some r => .ok r
      | none => .error (.config s!"{w.type} reference has no matching selector")
    if w.type = "Env" then pick (w.env.map .env)
    else if w.type = "FS" then pick (w.file.map .file)
    else if w.type = "Secret" then pick (w.secret.map .secret)
    else if w.type = "Literal" then pick (w.literal.map .literal)
    else .error (.config s!"unknown reference type {Text.quoted w.type}")

def decodeOne (type name : String) : Decoder String :=
  withoutRepeats [name] <| record type [name] (required type name text)

def selectorFields : List String := ["namespace", "name", "key"]

def decodeSelector : Decoder SecretSelector :=
  withoutRepeats selectorFields <| record "SecretSelector" selectorFields <|
    SecretSelector.mk <$> optional "namespace" text
      <*> required "SecretSelector" "name" text
      <*> required "SecretSelector" "key" text

def writtenFields : List String := ["type", "env", "filesystem", "secret", "literal"]

def decodeWritten : Decoder Written :=
  let type := "RawResourceRef"
  withoutRepeats writtenFields <| record type writtenFields <|
    Written.mk <$> required type "type" text
      <*> nullableField type "env" (decodeOne "EnvSelector" "name")
      <*> nullableField type "filesystem" (decodeOne "FsSelector" "path")
      <*> nullableField type "secret" decodeSelector
      <*> nullableField type "literal" (decodeOne "LiteralRef" "value")
      <* noOthers

def decode : Decoder Reference := fun v => do
  let w ← decodeWritten v
  (ofWritten w).mapError fun e => .refused e.message

end Reference

end StackKeeper

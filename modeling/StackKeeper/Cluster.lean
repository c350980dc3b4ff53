import StackKeeper.Dialogue
import StackKeeper.Json.Reader
import StackKeeper.SecretStore
import StackKeeper.Stack.Metadata
import StackKeeper.Text.Base64

/-!
# Secrets of a cluster

A Kubernetes cluster serves secrets and config maps under paths of its API. The values of a secret
come as bytes in base64, or as plain texts that win over these.
-/

namespace StackKeeper.Cluster

open Json Json.FieldReader

/-! ## Requests -/

structure Response where
  code : Nat
  body : String
  deriving DecidableEq, Repr, Inhabited

/-- Getting the object at a path. The text tells why nothing could be asked. -/
def Api : Service := ⟨String, fun _ => Except String Response⟩

abbrev Talk (α : Type) := Dialogue Api α

/-- The result of a dialogue with a cluster that answers each path as `fetch` says. -/
def fetched {α : Type} (fetch : String → Except String Response) (t : Talk α) : α :=
  (t.run (fun path (_ : Unit) => (fetch path, ())) ()).1

inductive Resource where
  | secret
  | configMap
  deriving DecidableEq, Repr, Inhabited

namespace Resource

def title : Resource → String
  | secret => "secret"
  | configMap => "config map"

def plural : Resource → String
  | secret => "secrets"
  | configMap => "configmaps"

end Resource

def path (r : Resource) (n : EntryName) : String :=
  s!"/api/v1/namespaces/{n.namespace}/{r.plural}/{n.name}"

def isPathChar (c : Char) : Bool :=
  let n := c.toNat
  n == 0x21 || n == 0x22 || (0x24 ≤ n && n ≤ 0x3B) || n == 0x3D || (0x40 ≤ n && n ≤ 0x5F) ||
    (0x61 ≤ n && n ≤ 0x7E) || 0x7F < n

/-- The part of a path before a query or a fragment. -/
def bare (path : String) : String :=
  String.ofList (path.toList.takeWhile fun c => c != '?' && c != '#')

/-! ## Refusals -/

/-- A status object, as far as it is used. -/
structure Refusal where
  status : String
  message : String
  reason : String
  code : Nat
  deriving DecidableEq, Repr, Inhabited

def word16 : Decoder Nat
  | v@(.number (.integer i)) =>
    if 0 ≤ i ∧ i < Nat.pow 2 16 then .ok i.toNat else .error (.invalidValue v.found "u16")
  | v => wrongType v "u16"

def decodeRefusal : Decoder Refusal :=
  let names := ["status", "message", "reason", "code"]
  withoutRepeats names <| record "ErrorResponse" names <|
    Refusal.mk <$> required "ErrorResponse" "status" text
      <*> defaulted "message" text ""
      <*> defaulted "reason" text ""
      <*> required "ErrorResponse" "code" word16

/-- The refusal in an answer. A body that is no status object becomes the message as a whole. -/
def refusalOf (r : Response) : Refusal :=
  let raw : Refusal :=
    ⟨toString r.code, Text.quoted r.body, "Failed to parse error data", r.code⟩
  match Json.read r.body with
  | .error _ => raw
  | .ok v => (decodeRefusal v).toOption.getD raw

def unreadable (r : Resource) (n : EntryName) (why : String) : Error :=
  .internal s!"reading {r.title} {n.toText}: {why}"

def refused (r : Resource) (n : EntryName) (refusal : Refusal) : Error :=
  if refusal.code = 404 then .notFound s!"{r.title} {n.toText}"
  else if refusal.code = 403 then .accessDenied s!"{r.title} {n.toText}: {refusal.message}"
  else unreadable r n s!"{refusal.message}: {refusal.reason}"

/-! ## Objects -/

/-- A field that has to hold one certain text. -/
def constant (value : String) : Decoder Unit := fun v => do
  let s ← text v
  if s = value then .ok () else .error (.invalidValue v.found value)

def checkHead (kind : String) : FieldReader Unit :=
  (fun _ _ _ _ => ()) <$> defaulted "apiVersion" (constant "v1") ()
    <*> defaulted "kind" (constant kind) ()
    <*> optional "metadata" Stack.Metadata.decode
    <*> optional "immutable" boolean

/-- Bytes in base64. Null stands for none. -/
def bytes : Decoder Bytes
  | .null => .ok []
  | .string s =>
    match Text.Base64.decode? s.toList with
    | some b => .ok b
    | none => .error (.refused "Invalid byte")
  | v => wrongType v "a base64-encoded string"

structure SecretObject where
  data : Dict Bytes
  stringData : Dict String
  deriving Inhabited

def decodeSecret : Decoder SecretObject :=
  openRecord "Secret" <|
    (fun _ _ data stringData => ⟨data.getD ∅, stringData.getD ∅⟩) <$> checkHead "Secret"
      <*> optional "type" text
      <*> optional "data" (dictOf bytes)
      <*> optional "stringData" (dictOf text)

def decodeConfigMap : Decoder (Dict String) :=
  openRecord "ConfigMap" <|
    (fun _ _ data => data.getD ∅) <$> checkHead "ConfigMap"
      <*> optional "binaryData" (dictOf bytes)
      <*> optional "data" (dictOf text)

def entryText (n : EntryName) (key : String) (value : Bytes) : Except Error String :=
  match Utf8.decode? value with
  | some s => .ok s
  | none => .error (.config s!"key {Text.quoted key} of secret {n.toText} is not valid UTF-8")

/-- The values of a secret as texts. All of its bytes have to be text. -/
def valuesOf (n : EntryName) (s : SecretObject) : Except Error (Dict String) := do
  let texts ← s.data.entries.mapM fun (key, value) => do return (key, ← entryText n key value)
  return (Dict.ofList texts).union s.stringData

/-! ## Reading -/

def get {α : Type} (r : Resource) (n : EntryName) (d : Decoder α) : Talk (Except Error α) :=
  let target := bare (path r n)
  if n.name.isEmpty then pure (.error (unreadable r n "A non-empty name is required"))
  else if !target.toList.all isPathChar then pure (.error (unreadable r n "invalid uri character"))
  else
    .ask target fun
      | .error why => .done (.error (unreadable r n why))
      | .ok response => .done <|
        if 400 ≤ response.code ∧ response.code < 600 then
          .error (refused r n (refusalOf response))
        else
          match Json.readValue response.body with
          | .error f => .error (unreadable r n f.message)
          | .ok v => (d v).mapError fun m => unreadable r n m.message

def secret (n : EntryName) : Talk (Except Error (Dict String)) := do
  return (← get .secret n decodeSecret).bind (valuesOf n)

def configMap (n : EntryName) : Talk (Except Error (Dict String)) :=
  get .configMap n decodeConfigMap

end StackKeeper.Cluster

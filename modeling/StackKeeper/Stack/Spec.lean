import StackKeeper.Revision
import StackKeeper.Stack.GitAuth

/-!
# The desired state of a stack

What a manifest asks for: the stack and its configuration, the project's repository and revision,
the environment of the engine, and how attempts are run.
-/

namespace StackKeeper

structure Stack.Spec where
  /-- Secret whose `accessToken` becomes the engine's access token. -/
  accessTokenSecret : Option String
  /-- Config maps whose entries go into the environment. -/
  envs : List String
  envRefs : Dict Reference
  /-- Secrets whose entries go into the environment. -/
  envSecrets : List String
  /-- URL of the state backend. -/
  backend : Option String
  /-- Full name of the stack. -/
  stack : String
  config : Dict String
  configRefs : Dict Reference
  secrets : Dict String
  secretRefs : Dict Reference
  /-- Encryption of a stack that is created. -/
  secretsProvider : Option String
  projectRepo : String
  gitAuth : Option GitAuth
  /-- Secret that holds one way to authenticate at the repository. -/
  gitAuthSecret : Option String
  /-- Directory of the project within the repository. -/
  repoDir : Option String
  commit : Option String
  branch : Option String
  /-- Whether an attempt refreshes the engine's state first. -/
  refresh : Bool
  expectNoRefreshChanges : Bool
  /-- Whether a deleted stack is destroyed before it is let go. -/
  destroyOnFinalize : Bool
  retryOnUpdateConflict : Bool
  deriving DecidableEq, Inhabited

namespace Stack.Spec

open Json Json.FieldReader

def revision (s : Spec) : Except Error Revision := Revision.ofParts s.branch s.commit

/-- The references of the dictionaries, in the order they are checked. -/
def references (s : Spec) : List Reference :=
  s.envRefs.entries.map (·.2) ++ s.configRefs.entries.map (·.2) ++ s.secretRefs.entries.map (·.2)

/-- Checks all that can be checked without asking anyone. -/
def validate (s : Spec) : Except Error Unit := do
  if Text.isAllBlank s.stack then throw (.config "stack name is required")
  if Text.isAllBlank s.projectRepo then throw (.config "projectRepo is required")
  let _ ← s.revision
  s.references.forM Reference.validate
  match s.gitAuth with
  | none => pure ()
  | some auth =>
    auth.validate
    if s.gitAuthSecret.isSome then
      throw (.config "gitAuth and gitAuthSecret are mutually exclusive")

def encode (s : Spec) : Json :=
  .object (
    memberOf? "accessTokenSecret" .string s.accessTokenSecret ++
    memberOfList "envs" .string s.envs ++
    memberOfDict "envRefs" Reference.encode s.envRefs ++
    memberOfList "envSecrets" .string s.envSecrets ++
    memberOf? "backend" .string s.backend ++
    member "stack" (.string s.stack) ++
    memberOfDict "config" .string s.config ++
    memberOfDict "configRefs" Reference.encode s.configRefs ++
    memberOfDict "secrets" .string s.secrets ++
    memberOfDict "secretsRef" Reference.encode s.secretRefs ++
    memberOf? "secretsProvider" .string s.secretsProvider ++
    member "projectRepo" (.string s.projectRepo) ++
    memberOf? "gitAuth" GitAuth.encode s.gitAuth ++
    memberOf? "gitAuthSecret" .string s.gitAuthSecret ++
    memberOf? "repoDir" .string s.repoDir ++
    memberOf? "commit" .string s.commit ++
    memberOf? "branch" .string s.branch ++
    member "refresh" (.bool s.refresh) ++
    member "expectNoRefreshChanges" (.bool s.expectNoRefreshChanges) ++
    member "destroyOnFinalize" (.bool s.destroyOnFinalize) ++
    member "retryOnUpdateConflict" (.bool s.retryOnUpdateConflict))

def fieldNames : List String :=
  ["accessTokenSecret", "envs", "envRefs", "envSecrets", "backend", "stack", "config",
    "configRefs", "secrets", "secretsRef", "secretsProvider", "projectRepo", "gitAuth",
    "gitAuthSecret", "repoDir", "commit", "branch", "refresh", "expectNoRefreshChanges",
    "destroyOnFinalize", "retryOnUpdateConflict"]

def decode : Decoder Spec :=
  record "StackSpec" fieldNames <|
    Spec.mk <$> optional "accessTokenSecret" text
      <*> defaulted "envs" (listOf text) []
      <*> defaulted "envRefs" (dictOf Reference.decode) ∅
      <*> defaulted "envSecrets" (listOf text) []
      <*> optional "backend" text
      <*> required "StackSpec" "stack" text
      <*> defaulted "config" (dictOf text) ∅
      <*> defaulted "configRefs" (dictOf Reference.decode) ∅
      <*> defaulted "secrets" (dictOf text) ∅
      <*> defaulted "secretsRef" (dictOf Reference.decode) ∅
      <*> optional "secretsProvider" text
      <*> required "StackSpec" "projectRepo" text
      <*> optional "gitAuth" GitAuth.decode
      <*> optional "gitAuthSecret" text
      <*> optional "repoDir" text
      <*> optional "commit" text
      <*> optional "branch" text
      <*> defaulted "refresh" boolean false
      <*> defaulted "expectNoRefreshChanges" boolean false
      <*> defaulted "destroyOnFinalize" boolean false
      <*> defaulted "retryOnUpdateConflict" boolean false

end Stack.Spec

end StackKeeper

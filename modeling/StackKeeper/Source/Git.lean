import StackKeeper.Digest.Md5
import StackKeeper.Host
import StackKeeper.Path
import StackKeeper.Source
import StackKeeper.Text.Phrase
import StackKeeper.Url.Reader

/-!
# Sources from git

Every attempt gets a clone of its own, in a directory that no other attempt uses. Secrets reach git
in the URL of the remote, or in files for ssh that are gone when the last command has run. They are
taken out of every text that is shown.
-/

namespace StackKeeper

/-- Clones repositories below a directory. -/
structure GitSource where
  program : String
  workDirectory : String
  /-- How the domains of repositories are converted. -/
  [idna : Url.Idna]

namespace GitSource

/-! ## URLs -/

/-- The URL of a repository as it is shown: without user name and password. -/
def shownUrl (s : GitSource) (repo : String) : String :=
  match Url.ofText? s.idna repo with
  | some u => if u.hasUserInfo then u.withoutUserInfo.toText else repo
  | none => repo

def urlWithLogin (s : GitSource) (repo username password : String) : Except Error String :=
  let needsHttp := "token and basic auth need an http(s) repository URL, got "
  match Url.ofText? s.idna repo with
  | none => .error (.auth (needsHttp ++ s.shownUrl repo))
  | some u =>
    if u.scheme ≠ "http" ∧ u.scheme ≠ "https" then
      .error (.auth (needsHttp ++ "scheme " ++ u.scheme))
    else
      match u.withUserInfo? username password with
      | some u => .ok u.toText
      | none => .error (.auth "repository URL cannot carry credentials")

/-! ## Directories -/

/-- The directory of the project within the repository. It may not lead out of it. -/
def projectDirectory (directory : Option String) : Except Error String :=
  let text := (directory.map Text.trim).getD ""
  let names := (Path.parts text).filterMap fun
    | .normal name => some name
    | _ => none
  if (Path.parts text).any fun p => p == .root || p == .parent then
    .error (.config s!"repoDir {text} must be a relative path inside the repository")
  else .ok ("/".intercalate names)

def clonePath (s : GitSource) (repo id : String) : String :=
  Path.join s.workDirectory (Digest.Md5.hex repo ++ "-" ++ id)

/-- A directory has a project if a descriptor is there. -/
def ensureProject (directory : String) : List String → Host.Talk (Except Error Unit)
  | [] => pure (.error (.source s!"no Pulumi.yaml found in {directory}"))
  | name :: rest => do
    match ← Host.pathExists (Path.join directory name) with
    | .error f => return .error (.io f.message)
    | .ok true => return .ok ()
    | .ok false => ensureProject directory rest

def descriptorNames : List String := ["Pulumi.yaml", "Pulumi.yml"]

/-! ## Sessions -/

/-- What the git commands of one clone have in common. -/
structure Session where
  /-- The remote, with a login if it takes one. -/
  url : String
  environment : Dict String
  /-- What is not shown. -/
  secrets : List String
  /-- A directory that goes with the session. -/
  scratch : Option String
  deriving DecidableEq, Inhabited

def redacted : List Char := "[REDACTED]".toList

def Session.redact (s : Session) (text : String) : String :=
  String.ofList (s.secrets.foldl (fun cs secret => Text.replaceAll secret.toList redacted cs)
    text.toList)

def askpassScript : String := "#!/bin/sh\nprintf '%s\\n' \"$STACKOP_SSH_PASSPHRASE\"\n"

/-- A key ends in a line end. -/
def keyText (privateKey : String) : String :=
  if privateKey.toList.getLast? == some '\n' then privateKey else privateKey ++ "\n"

def sshCommand (keyPath : String) : String :=
  "ssh -i '" ++ keyPath ++ "' -o IdentitiesOnly=yes -o StrictHostKeyChecking=accept-new"

/-- Writes the files for ssh, and gives the variables that make git use them. -/
def writeSshFiles (directory privateKey : String) (passphrase : Option String) :
    Host.Talk (Except Host.Fault (Dict String)) := do
  let keyPath := Path.join directory "id_stackop"
  match ← Host.writeFile keyPath (Utf8.encode (keyText privateKey)) .ownerOnly with
  | .error f => return .error f
  | .ok () =>
    let key := Dict.singleton "GIT_SSH_COMMAND" (sshCommand keyPath)
    match passphrase with
    | none => return .ok key
    | some passphrase =>
      let askpass := Path.join directory "askpass.sh"
      match ← Host.writeFile askpass (Utf8.encode askpassScript) .ownerRuns with
      | .error f => return .error f
      | .ok () => return .ok (key.union (Dict.ofList
          [("SSH_ASKPASS", askpass), ("SSH_ASKPASS_REQUIRE", "force"), ("DISPLAY", ":0"),
            ("STACKOP_SSH_PASSPHRASE", passphrase)]))

def loginSession (s : GitSource) (repo username password : String) : Except Error Session := do
  let url ← s.urlWithLogin repo username password
  return ⟨url, ∅, [password].filter (!·.isEmpty), none⟩

def openSession (s : GitSource) (repo : String) :
    Option Credentials → Host.Talk (Except Error Session)
  | none => pure (.ok ⟨repo, ∅, [], none⟩)
  | some (.accessToken token) => pure (s.loginSession repo "git" token)
  | some (.basic username password) => pure (s.loginSession repo username password)
  | some (.sshKey privateKey passphrase) => do
    let secrets := (privateKey :: passphrase.toList).filter (!·.isEmpty)
    match ← Host.makeScratch with
    | .error f => return .error (.auth s!"creating ssh scratch dir: {f.message}")
    | .ok scratch =>
      match ← writeSshFiles scratch privateKey passphrase with
      | .error f =>
        let _ ← Host.removeTree scratch
        return .error (.auth s!"writing ssh key: {f.message}")
      | .ok environment => return .ok ⟨repo, environment, secrets, some scratch⟩

def closeSession (s : Session) : Host.Talk Unit := do
  match s.scratch with
  | none => return ()
  | some scratch =>
    let _ ← Host.removeTree scratch
    return ()

/-! ## Commands -/

/-- What git says when it may not read a repository. -/
def refusals : List String :=
  ["Authentication failed", "could not read Username", "could not read Password",
    "Permission denied (publickey", "Invalid username or password", "HTTP Basic: Access denied"]

def diagnose (step stderr : String) : Error :=
  let text := s!"git {step}: {stderr}"
  if refusals.any fun phrase => Text.hasPhrase phrase.toList stderr.toList then .auth text
  else .source text

/-- Runs git and gives what it prints, without the blanks around it. -/
def run (s : GitSource) (session : Session) (step : String) (args : List String)
    (directory : Option String) : Host.Talk (Except Error String) := do
  let environment := (Dict.singleton "GIT_TERMINAL_PROMPT" "0").union session.environment
  match ← Host.runProgram ⟨s.program, args, directory, environment⟩ with
  | .error f => return .error (.source s!"failed to run {s.program}: {f.message}")
  | .ok output =>
    if output.succeeded then return .ok (Text.trim (Utf8.decodeLossy output.stdout))
    else return .error (diagnose step (session.redact (Text.trim (Utf8.decodeLossy output.stderr))))

def revisionArgs : Revision → List String
  | .branch name => ["--depth", "1", "--single-branch", "--branch", name]
  | .defaultBranch => ["--depth", "1"]
  | .commit _ => ["--no-checkout"]

def cloneArgs (url target : String) (r : Revision) : List String :=
  ["clone"] ++ revisionArgs r ++ ["--", url, target]

def checkoutArgs (sha : String) : List String := ["checkout", "--detach", sha]

def headArgs : List String := ["rev-parse", "HEAD"]

def checkOut (s : GitSource) (session : Session) (target : String) :
    Revision → Host.Talk (Except Error Unit)
  | .commit sha => do
    return (← s.run session "checkout" (checkoutArgs sha) (some target)).map fun _ => ()
  | _ => pure (.ok ())

/-- The commands of a clone, which end with the commit that was checked out. -/
def cloneIn (s : GitSource) (session : Session) (r : Revision) (target : String) :
    Host.Talk (Except Error String) := do
  match ← s.run session "clone" (cloneArgs session.url target r) none with
  | .error e => return .error e
  | .ok _ =>
    match ← s.checkOut session target r with
    | .error e => return .error e
    | .ok () => s.run session "rev-parse" headArgs (some target)

def clone (s : GitSource) (request : SourceRequest) (target : String) :
    Host.Talk (Except Error String) := do
  match ← s.openSession request.repo request.credentials with
  | .error e => return .error e
  | .ok session =>
    let commit ← s.cloneIn session request.revision target
    closeSession session
    return commit

/-! ## Handing out and taking back -/

/-- Removes a clone. That it is gone already is no error. -/
def remove (root : String) : Host.Talk (Except Error Unit) := do
  match ← Host.removeTree root with
  | .ok () => return .ok ()
  | .error .notFound => return .ok ()
  | .error f => return .error (.io f.message)

/-- Clones and looks for the project. -/
def fetch (s : GitSource) (request : SourceRequest) (root directory : String) :
    Host.Talk (Except Error Checkout) := do
  match ← s.clone request root with
  | .error e => return .error e
  | .ok commit =>
    let project := Path.join root directory
    return (← ensureProject project descriptorNames).map fun () => ⟨root, project, commit⟩

/-- Hands out a clone. Of one that fails nothing is left. -/
def prepare (s : GitSource) (request : SourceRequest) : Host.Talk (Except Error Checkout) := do
  if Text.isAllBlank request.repo then return .error (.config "projectRepo must be set")
  match projectDirectory request.directory with
  | .error e => return .error e
  | .ok directory =>
    match ← Host.makeDirectories s.workDirectory with
    | .error f => return .error (.io f.message)
    | .ok () =>
      let root := s.clonePath request.repo (← Host.freshId)
      Host.tell (.preparing (s.shownUrl request.repo) request.revision.describe)
      match ← s.fetch request root directory with
      | .ok checkout => return .ok checkout
      | .error e =>
        let _ ← remove root
        return .error e

def release (c : Checkout) : Host.Talk (Except Error Unit) := remove c.root

end GitSource

end StackKeeper

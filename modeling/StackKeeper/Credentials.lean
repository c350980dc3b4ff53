import StackKeeper.Resolver
import StackKeeper.Stack.Spec

/-!
# Credentials for a repository

A spec leads to credentials by references, or by one secret that holds the parts of exactly one
method. Whatever fails on the way is an authentication error.
-/

namespace StackKeeper

inductive Credentials where
  | accessToken (token : String)
  | sshKey (privateKey : String) (passphrase : Option String)
  | basic (username password : String)
  deriving DecidableEq, Inhabited

namespace Credentials

open Lookup

def method : Credentials → String
  | accessToken _ => "access-token"
  | sshKey .. => "ssh-key"
  | basic .. => "basic"

def secrets : Credentials → List String
  | accessToken token => [token]
  | sshKey privateKey passphrase => privateKey :: passphrase.toList
  | basic _ password => [password]

def describe (c : Credentials) : String := "GitCredentials(" ++ c.method ++ ")"

def resolvePart (r : Resolver) (what : String) (reference : Reference) : Search String :=
  failingAs (fun e => .auth s!"resolving {what}: {e.message}") (r.resolve reference)

def ofReferences (a : GitAuth) (r : Resolver) : Search Credentials := do
  match a.validate with
  | .error e => fail (.auth e.message)
  | .ok () =>
    match a.accessToken, a.ssh, a.basic with
    | some token, _, _ => accessToken <$> resolvePart r "access token" token
    | none, some ssh, _ =>
      let privateKey ← resolvePart r "ssh private key" ssh.privateKey
      let passphrase ← ssh.password.mapM (resolvePart r "ssh key password")
      pure (sshKey privateKey passphrase)
    | none, none, some login =>
      let username ← resolvePart r "username" login.userName
      let password ← resolvePart r "password" login.password
      pure (basic username password)
    | none, none, none => fail (.auth "no git authentication method set")

/-- The value of a key that is there and not empty. -/
def part? (data : Dict String) (key : String) : Option String :=
  (data.get? key).filter (!·.isEmpty)

/-- The methods whose parts a secret holds, by name. -/
def usable (data : Dict String) : List (String × Credentials) :=
  ((part? data "accessToken").map fun token => ("accessToken", accessToken token)).toList ++
  ((part? data "sshPrivateKey").map fun key =>
    ("sshPrivateKey", sshKey key (part? data "password"))).toList ++
  (match part? data "username", part? data "password" with
    | some username, some password => [("username/password", basic username password)]
    | _, _ => [])

/-- The credentials of a secret that holds exactly one method. -/
def ofSecret (name : String) (data : Dict String) : Except Error Credentials :=
  match usable data with
  | [(_, c)] => .ok c
  | [] => .error (.auth s!"secret {name} holds no usable git authentication method")
  | many =>
    let methods := ", ".intercalate (many.map (·.1))
    .error (.auth s!"secret {name} holds more than one git authentication method: {methods}")

/-- The credentials that a spec asks for; none means that the repository is open to everyone. -/
def resolve (spec : Stack.Spec) (r : Resolver) (ns : String) : Search (Option Credentials) := do
  match spec.gitAuth, spec.gitAuthSecret with
  | some _, some _ => fail (.auth "gitAuth and gitAuthSecret are mutually exclusive")
  | some a, none => some <$> ofReferences a r
  | none, some name =>
    let data ← failingAs (fun e => .auth s!"reading git auth secret: {e.message}")
      (secret ⟨ns, name⟩)
    some <$> ExceptT.mk (pure (ofSecret name data))
  | none, none => pure none

end Credentials

end StackKeeper

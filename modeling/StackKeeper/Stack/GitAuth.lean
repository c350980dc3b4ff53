import StackKeeper.Reference

/-!
# Git authentication by references

A stack names its way to authenticate at the repository by references to the secret parts. Exactly
one of three methods has to be set.
-/

namespace StackKeeper

structure SshAuth where
  privateKey : Reference
  password : Option Reference
  deriving DecidableEq, Repr, Inhabited

structure BasicAuth where
  userName : Reference
  password : Reference
  deriving DecidableEq, Repr, Inhabited

structure GitAuth where
  accessToken : Option Reference
  ssh : Option SshAuth
  basic : Option BasicAuth
  deriving DecidableEq, Repr, Inhabited

namespace GitAuth

open Json Json.FieldReader

def methodCount (a : GitAuth) : Nat :=
  a.accessToken.toList.length + a.ssh.toList.length + a.basic.toList.length

/-- Every reference, in the order they are checked. -/
def references (a : GitAuth) : List Reference :=
  a.accessToken.toList ++
    (a.ssh.toList.flatMap fun s => s.privateKey :: s.password.toList) ++
    (a.basic.toList.flatMap fun b => [b.userName, b.password])

def validate (a : GitAuth) : Except Error Unit :=
  if a.methodCount ≠ 1 then
    .error (.config
      s!"gitAuth must set exactly one of accessToken, sshAuth, basicAuth (found {a.methodCount})")
  else a.references.forM Reference.validate

def encodeSsh (a : SshAuth) : Json :=
  .object (member "sshPrivateKey" a.privateKey.encode ++
    memberOf? "password" Reference.encode a.password)

def encodeBasic (a : BasicAuth) : Json :=
  .object (member "userName" a.userName.encode ++ member "password" a.password.encode)

def encode (a : GitAuth) : Json :=
  .object (memberOf? "accessToken" Reference.encode a.accessToken ++
    memberOf? "sshAuth" encodeSsh a.ssh ++ memberOf? "basicAuth" encodeBasic a.basic)

def decodeSsh : Decoder SshAuth :=
  record "SshAuthConfig" ["sshPrivateKey", "password"] <|
    SshAuth.mk <$> required "SshAuthConfig" "sshPrivateKey" Reference.decode
      <*> optional "password" Reference.decode

def decodeBasic : Decoder BasicAuth :=
  record "BasicAuthConfig" ["userName", "password"] <|
    BasicAuth.mk <$> required "BasicAuthConfig" "userName" Reference.decode
      <*> required "BasicAuthConfig" "password" Reference.decode

def decode : Decoder GitAuth :=
  record "GitAuthConfig" ["accessToken", "sshAuth", "basicAuth"] <|
    GitAuth.mk <$> optional "accessToken" Reference.decode
      <*> optional "sshAuth" decodeSsh
      <*> optional "basicAuth" decodeBasic

end GitAuth

end StackKeeper

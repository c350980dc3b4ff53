import StackKeeper.Url.Host

/-!
# URLs

A URL as its parts. Reading normalises: small letters in scheme and domain, no default port, no dots
in the path, and percent encoding where a part needs it. Writing a URL that was read gives its
normal form.
-/

namespace StackKeeper

inductive Url.Route where
  /-- Names behind slashes. -/
  | segments (names : List String)
  /-- A text without structure. -/
  | plain (text : String)
  deriving DecidableEq, Repr, Inhabited

/-- Where a URL leads: who asks, and whom. -/
structure Url.Authority where
  /-- In percent encoding, like the password. -/
  username : String
  password : String
  host : Url.Host
  port : Option Nat
  deriving DecidableEq, Repr, Inhabited

structure Url where
  scheme : String
  authority : Option Url.Authority
  route : Url.Route
  query : Option String
  fragment : Option String
  deriving DecidableEq, Repr, Inhabited

namespace Url

/-! ## Schemes -/

def defaultPorts : List (String × Nat) :=
  [("http", 80), ("https", 443), ("ws", 80), ("wss", 443), ("ftp", 21)]

def isSpecial (scheme : String) : Bool := scheme == "file" || (defaultPorts.lookup scheme).isSome

/-! ## Writing -/

def userInfoText (a : Authority) : String :=
  if a.username.isEmpty && a.password.isEmpty then ""
  else if a.password.isEmpty then a.username ++ "@"
  else a.username ++ ":" ++ a.password ++ "@"

def portText (port : Option Nat) : String :=
  match port with
  | some n => ":" ++ toString n
  | none => ""

def routeText : Route → String
  | .segments names => String.join (names.map ("/" ++ ·))
  | .plain text => text

def toText (u : Url) : String :=
  let authority := match u.authority with
    | some a => "//" ++ userInfoText a ++ a.host.toText ++ portText a.port
    | none => match u.route with
      | .segments ("" :: _ :: _) => "/."
      | _ => ""
  let query := match u.query with
    | some q => "?" ++ q
    | none => ""
  let fragment := match u.fragment with
    | some f => "#" ++ f
    | none => ""
  u.scheme ++ ":" ++ authority ++ routeText u.route ++ query ++ fragment

/-! ## Who asks -/

def hasUserInfo (u : Url) : Bool :=
  match u.authority with
  | some a => !a.username.isEmpty || !a.password.isEmpty
  | none => false

def withoutUserInfo (u : Url) : Url :=
  { u with authority := u.authority.map fun a => { a with username := "", password := "" } }

def encodeUserInfo (s : String) : String := String.ofList (encode inUserInfo s.toList)

/-- The URL with a user name and a password, if it leads to a host. -/
def withUserInfo? (u : Url) (username password : String) : Option Url :=
  u.authority.map fun a => { u with
    authority := some
      { a with username := encodeUserInfo username, password := encodeUserInfo password } }

end Url

end StackKeeper

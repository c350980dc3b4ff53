import StackKeeper.Url.Basic

/-!
# Reading URLs

Blanks around a URL, and tabs and line ends within, do not count. The scheme decides how the rest is
read: the common ones take backslashes for slashes and need a host.
-/

namespace StackKeeper.Url

def cleaned (s : String) : List Char :=
  let isEdge (c : Char) : Bool := c.toNat ≤ 0x20
  let inner := ((s.toList.dropWhile isEdge).reverse.dropWhile isEdge).reverse
  inner.filter fun c => !(c == '\t' || c == '\n' || c == '\r')

def isSchemeChar (c : Char) : Bool := c.isAlphanum || c == '+' || c == '-' || c == '.'

/-- The scheme in small letters, and what follows its colon. -/
def scheme? (cs : List Char) : Option (String × List Char) := do
  let first ← cs.head?
  guard first.isAlpha
  let name := cs.takeWhile isSchemeChar
  match cs.drop name.length with
  | ':' :: rest => some (String.ofList (name.map Char.toLower), rest)
  | _ => none

def isSlash (special : Bool) (c : Char) : Bool := c == '/' || (special && c == '\\')

def endsAuthority (special : Bool) (c : Char) : Bool := isSlash special c || c == '?' || c == '#'

def splitAtLast (c : Char) (cs : List Char) : Option (List Char × List Char) :=
  (Text.splitAtFirst c cs.reverse).map fun (a, b) => (b.reverse, a.reverse)

def userInfo (cs : List Char) : String × String :=
  let text (part : List Char) := String.ofList (encode inUserInfo part)
  match Text.splitAtFirst ':' cs with
  | some (username, password) => (text username, text password)
  | none => (text cs, "")

/-- The text of the host, and what follows it: a colon in brackets belongs to the host. -/
def splitHost (inBrackets : Bool) : List Char → List Char × List Char
  | [] => ([], [])
  | c :: rest =>
    if c == ':' && !inBrackets then ([], c :: rest)
    else
      let (host, after) :=
        splitHost (if c == '[' then true else if c == ']' then false else inBrackets) rest
      (c :: host, after)

/-- The port behind a colon. The default port counts as none. -/
def port? (scheme : String) (cs : List Char) : Option (Option Nat) :=
  if !cs.all Char.isDigit then none
  else
    let n := cs.foldl (fun n c => 10 * n + (c.toNat - '0'.toNat)) 0
    if 65535 < n then none
    else if cs.isEmpty || defaultPorts.lookup scheme == some n then some none
    else some (some n)

def authority? (idna : Idna) (scheme : String) (cs : List Char) : Option Authority := do
  let ((username, password), site) := match splitAtLast '@' cs with
    | some (who, site) => (userInfo who, site)
    | none => (("", ""), cs)
  let (name, rest) := splitHost false site
  guard (!(name.isEmpty && (!rest.isEmpty || isSpecial scheme || (splitAtLast '@' cs).isSome)))
  let host ← if isSpecial scheme then Host.ofDomain? idna name else Host.ofOpaque? name
  let port ← port? scheme (rest.drop 1)
  return ⟨username, password, host, port⟩

/-! ## Paths -/

def pieces (special : Bool) (cs : List Char) : List (List Char) :=
  Text.splitOnChar '/' (cs.map fun c => if isSlash special c then '/' else c)

/-- A piece in which encoded dots are plain. -/
def plainDots : List Char → List Char
  | '%' :: '2' :: 'e' :: rest => '.' :: plainDots rest
  | '%' :: '2' :: 'E' :: rest => '.' :: plainDots rest
  | c :: rest => c :: plainDots rest
  | [] => []

/-- The segments after one more piece. Two dots take back the last segment. A piece of dots at the
end leaves an empty segment. -/
def addPiece (done : List String) (piece : List Char) (isLast : Bool) : List String :=
  let atEnd := if isLast then [""] else []
  if plainDots piece == ['.', '.'] then done.dropLast ++ atEnd
  else if plainDots piece == ['.'] then done ++ atEnd
  else done ++ [String.ofList (encode inPath piece)]

def segments (done : List String) : List (List Char) → List String
  | [] => done
  | piece :: rest => segments (addPiece done piece rest.isEmpty) rest

def routeAfterHost (special : Bool) (cs : List Char) : Route :=
  match cs with
  | [] => if special then .segments [""] else .segments []
  | c :: rest =>
    .segments (segments [] (pieces special (if isSlash special c then rest else c :: rest)))

/-! ## URLs -/

/-- The parts before the query, the query and the fragment. -/
def splitTail (special : Bool) (cs : List Char) : List Char × Option String × Option String :=
  let (rest, fragment) := match Text.splitAtFirst '#' cs with
    | some (a, b) => (a, some (String.ofList (encode inFragment b)))
    | none => (cs, none)
  match Text.splitAtFirst '?' rest with
  | some (a, b) =>
    (a, some (String.ofList (encode (if special then inSpecialQuery else inQuery) b)), fragment)
  | none => (rest, none, fragment)

/-- The rest of a URL that starts with an authority. -/
def withHost? (idna : Idna) (scheme : String) (cs : List Char) (query fragment : Option String) :
    Option Url := do
  let special := isSpecial scheme
  let site := cs.takeWhile fun c => !endsAuthority special c
  let authority ← authority? idna scheme site
  return ⟨scheme, some authority, routeAfterHost special (cs.drop site.length), query, fragment⟩

/-- The rest of a URL of a file. Two slashes may lead to a host. -/
def ofFile? (idna : Idna) (cs : List Char) (query fragment : Option String) : Option Url := do
  let route (path : List Char) : Route :=
    .segments (segments [] (pieces true (path.dropWhile (isSlash true))))
  match cs with
  | a :: b :: rest =>
    if isSlash true a && isSlash true b then
      let site := rest.takeWhile fun c => !isSlash true c
      let host ← if site.isEmpty then some (Host.opaqueText "") else Host.ofDomain? idna site
      let host := if host == .domain "localhost" then Host.opaqueText "" else host
      return ⟨"file", some ⟨"", "", host, none⟩, route (rest.drop site.length), query, fragment⟩
    else return ⟨"file", some ⟨"", "", .opaqueText "", none⟩, route cs, query, fragment⟩
  | _ => return ⟨"file", some ⟨"", "", .opaqueText "", none⟩, route cs, query, fragment⟩

def ofText? (idna : Idna) (s : String) : Option Url := do
  let (scheme, rest) ← scheme? (cleaned s)
  let special := isSpecial scheme
  let (rest, query, fragment) := splitTail special rest
  if scheme == "file" then ofFile? idna rest query fragment
  else if special then withHost? idna scheme (rest.dropWhile (isSlash true)) query fragment
  else
    match rest with
    | '/' :: '/' :: site => withHost? idna scheme site query fragment
    | '/' :: path => return ⟨scheme, none, routeAfterHost false ('/' :: path), query, fragment⟩
    | path =>
      return ⟨scheme, none, .plain (String.ofList (encode inControls path)), query, fragment⟩

end StackKeeper.Url

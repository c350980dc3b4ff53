import StackKeeper.Url.Idna
import StackKeeper.Url.Percent

/-!
# Hosts

A host is a domain, an address of version 4 or one of version 6. Domains of the common schemes are
converted to ASCII; a domain whose last label is a number is an address. In other schemes a host is
an opaque text.
-/

namespace StackKeeper.Url

inductive Host where
  | domain (name : String)
  | opaqueText (text : String)
  | version4 (address : Nat)
  /-- Eight pieces of 16 bits. -/
  | version6 (pieces : List Nat)
  deriving DecidableEq, Repr, Inhabited

namespace Host

/-! ## Domains -/

def isForbiddenInDomain (c : Char) : Bool :=
  c.toNat ≤ 0x20 || c.toNat == 0x7F ||
    ['#', '%', '/', ':', '<', '>', '?', '@', '[', '\\', ']', '^', '|'].contains c

/-- The domain that a text stands for. -/
def domain? (idna : Idna) (cs : List Char) : Option (List Char) := do
  let text ← Utf8.decode? (decode cs)
  let name ← idna.toAscii text.toList
  if name.isEmpty || name.any isForbiddenInDomain then none else some name

/-! ## Version 4 -/

def number? (cs : List Char) : Option Nat :=
  let value (base : Nat) (ds : List Char) : Option Nat :=
    ds.foldlM (fun n c => (hexValue? c).bind fun d =>
      if d < base then some (base * n + d) else none) 0
  match cs with
  | [] => none
  | '0' :: 'x' :: ds => value 16 ds
  | '0' :: 'X' :: ds => value 16 ds
  | '0' :: d :: ds => value 8 (d :: ds)
  | ds => value 10 ds

def ownLabels (name : List Char) : List (List Char) :=
  let labels := Text.splitOnChar '.' name
  if labels.length > 1 ∧ labels.getLast? = some [] then labels.dropLast else labels

def endsInNumber (name : List Char) : Bool :=
  match (ownLabels name).getLast? with
  | some last => (!last.isEmpty && last.all Char.isDigit) || (number? last).isSome
  | none => false

/-- The address of numbers: each but the last is one byte, the last fills what is left. -/
def version4? (name : List Char) : Option Nat := do
  let numbers ← (ownLabels name).mapM number?
  let last ← numbers.getLast?
  let first := numbers.dropLast
  guard (numbers.length ≤ 4 ∧ first.all (· ≤ 255) ∧ last < Nat.pow 256 (5 - numbers.length))
  let bytes := first.zipIdx.map fun (n, i) => n * Nat.pow 256 (3 - i)
  return bytes.foldl (· + ·) last

def version4Text (address : Nat) : String :=
  ".".intercalate ([3, 2, 1, 0].map fun i => toString (address / Nat.pow 256 i % 256))

/-! ## Version 6 -/

def piece? (cs : List Char) : Option Nat :=
  if cs.isEmpty ∨ 4 < cs.length then none
  else cs.foldlM (fun n c => (hexValue? c).map (16 * n + ·)) 0

/-- A byte of an address of version 4 within one of version 6: no leading zeros. -/
def byte? (cs : List Char) : Option Nat :=
  match cs with
  | [] => none
  | '0' :: _ :: _ => none
  | _ =>
    if !cs.all Char.isDigit || 3 < cs.length then none
    else
      let n := cs.foldl (fun n c => 10 * n + (c.toNat - '0'.toNat)) 0
      if n ≤ 255 then some n else none

/-- The pieces of a run without `::`. The last one may be an address of version 4. -/
def pieces? (run : List Char) : Option (List Nat) :=
  if run.isEmpty then some []
  else
    let texts := Text.splitOnChar ':' run
    let last := texts.getLast?.getD []
    if last.contains '.' then do
      let first ← texts.dropLast.mapM piece?
      match ← (Text.splitOnChar '.' last).mapM byte? with
      | [a, b, c, d] => some (first ++ [256 * a + b, 256 * c + d])
      | _ => none
    else texts.mapM piece?

def splitAtGap : List Char → Option (List Char × List Char)
  | ':' :: ':' :: rest => some ([], rest)
  | c :: rest => (splitAtGap rest).map fun (a, b) => (c :: a, b)
  | [] => none

def version6? (cs : List Char) : Option (List Nat) := do
  match splitAtGap cs with
  | none =>
    let pieces ← pieces? cs
    if pieces.length = 8 then some pieces else none
  | some (before, after) =>
    guard (!before.contains '.')
    let before ← pieces? before
    let after ← pieces? after
    let given := before.length + after.length
    if given ≤ 7 then some (before ++ List.replicate (8 - given) 0 ++ after) else none

/-- The length of the run of zeros at each position. -/
def zeroRuns : List Nat → List Nat
  | [] => []
  | p :: rest =>
    let runs := zeroRuns rest
    (if p = 0 then runs.headD 0 + 1 else 0) :: runs

/-- The first of the longest runs of two or more zeros: where it starts and how long it is. -/
def longestRun (pieces : List Nat) : Option (Nat × Nat) :=
  let runs := zeroRuns pieces
  let longest := runs.foldl max 0
  if longest < 2 then none else some (runs.findIdx (· == longest), longest)

def hexText (n : Nat) : String := String.ofList (Nat.toDigits 16 n)

def version6Text (pieces : List Nat) : String :=
  let join (l : List Nat) := ":".intercalate (l.map hexText)
  match longestRun pieces with
  | none => join pieces
  | some (start, length) =>
    join (pieces.take start) ++ "::" ++ join (pieces.drop (start + length))

/-! ## Hosts -/

def isForbiddenInOpaque (c : Char) : Bool :=
  ['\x00', '\t', '\n', '\r', ' ', '#', '/', ':', '<', '>', '?', '@', '[', '\\', ']', '^',
    '|'].contains c

def bracketed? (cs : List Char) : Option (Option Host) :=
  match cs with
  | '[' :: rest =>
    if rest.getLast? == some ']' then some ((version6? rest.dropLast).map .version6) else some none
  | _ => none

/-- The host of a scheme that is not one of the common ones. -/
def ofOpaque? (cs : List Char) : Option Host :=
  match bracketed? cs with
  | some h => h
  | none =>
    if cs.any isForbiddenInOpaque then none
    else some (.opaqueText (String.ofList (encode inControls cs)))

/-- The host of a common scheme. -/
def ofDomain? (idna : Idna) (cs : List Char) : Option Host :=
  match bracketed? cs with
  | some h => h
  | none => do
    let name ← domain? idna cs
    if endsInNumber name then return .version4 (← version4? name)
    else return .domain (String.ofList name)

def toText : Host → String
  | domain name => name
  | opaqueText text => text
  | version4 address => version4Text address
  | version6 pieces => "[" ++ version6Text pieces ++ "]"

end Host

end StackKeeper.Url

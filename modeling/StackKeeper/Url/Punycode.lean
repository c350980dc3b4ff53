import StackKeeper.Text.Blank

/-!
# Punycode

A label with characters beyond ASCII is written in ASCII: first its ASCII characters, then the other
ones in ascending order, each as the distance from the one before in a number with digits of base
36. The last digit of a number is one below a threshold, which follows the numbers written so far.
-/

namespace StackKeeper.Url.Punycode

def digitChar (d : Nat) : Char :=
  if d < 26 then Char.ofNat ('a'.toNat + d) else Char.ofNat ('0'.toNat + (d - 26))

/-- Below this a digit is the last one. -/
def threshold (position bias : Nat) : Nat := min 26 (max 1 (position - bias))

theorem threshold_pos (position bias : Nat) : 1 ≤ threshold position bias := by
  unfold threshold; omega

def digits (bias position q : Nat) : List Char :=
  let t := threshold position bias
  if q < t then [digitChar q]
  else digitChar (t + (q - t) % (36 - t)) :: digits bias (position + 36) ((q - t) / (36 - t))
termination_by q
decreasing_by
  have h := threshold_pos position bias
  have hdiv := Nat.div_le_self (q - threshold position bias) (36 - threshold position bias)
  omega

/-- How often a number has to be divided by 35 to be small, and what it is then. -/
def shrink (delta : Nat) : Nat × Nat :=
  if 455 < delta then
    let (count, rest) := shrink (delta / 35)
    (count + 1, rest)
  else (0, delta)
termination_by delta

/-- The bias after a number. -/
def adapt (delta handled : Nat) (first : Bool) : Nat :=
  let damped := if first then delta / 700 else delta / 2
  let (count, rest) := shrink (damped + damped / handled)
  36 * count + 36 * rest / (rest + 38)

structure State where
  written : List Char
  delta : Nat
  bias : Nat
  handled : Nat

/-- Passes one character of the label while the characters `m` are being written. -/
def pass (basic m : Nat) (s : State) (c : Char) : State :=
  if c.toNat < m then { s with delta := s.delta + 1 }
  else if c.toNat = m then
    ⟨s.written ++ digits s.bias 36 s.delta, 0, adapt s.delta (s.handled + 1) (s.handled == basic),
      s.handled + 1⟩
  else s

/-- Writes the characters with the given numbers, which ascend from `n` on. -/
def write (label : List Char) (basic : Nat) : List Nat → Nat → State → State
  | [], _, s => s
  | m :: rest, n, s =>
    let s := { s with delta := s.delta + (m - n) * (s.handled + 1) }
    let s := label.foldl (pass basic m) s
    write label basic rest (m + 1) { s with delta := s.delta + 1 }

/-- The numbers of the characters beyond ASCII, ascending and each once. -/
def extended (label : List Char) : List Nat :=
  let numbers := (label.map Char.toNat).filter (128 ≤ ·)
  (numbers.mergeSort (· ≤ ·)).eraseDups

def encode (label : List Char) : List Char :=
  let basic := label.filter fun c => c.toNat < 128
  let s := write label basic.length (extended label) 128 ⟨[], 0, 72, basic.length⟩
  basic ++ (if basic.isEmpty then [] else ['-']) ++ s.written

/-! ## Reading -/

def digit? (c : Char) : Option Nat :=
  if 'a' ≤ c ∧ c ≤ 'z' then some (c.toNat - 'a'.toNat)
  else if c.isDigit then some (c.toNat - '0'.toNat + 26)
  else none

/-- A label that is being read, somewhere in a number. -/
structure Reading where
  found : List Char
  /-- The last character that was found. -/
  last : Nat
  bias : Nat
  /-- Where the number started to count, and how far it has come. -/
  start : Nat
  value : Nat
  weight : Nat
  position : Nat

/-- Reads the digit that ends a number, and puts the character in its place. -/
def Reading.close (r : Reading) (value : Nat) : Option Reading :=
  let length := r.found.length + 1
  let m := r.last + value / length
  let place := value % length
  if m.isValidChar then
    some ⟨r.found.insertIdx place (Char.ofNat m), m, adapt (value - r.start) length (r.start == 0),
      place + 1, place + 1, 1, 36⟩
  else none

def readNumbers (r : Reading) : List Char → Option (List Char)
  | [] => if r.position = 36 then some r.found else none
  | c :: rest => do
    let d ← digit? c
    let t := threshold r.position r.bias
    let value := r.value + d * r.weight
    let r ← if d < t then r.close value
      else some { r with value, weight := r.weight * (36 - t), position := r.position + 36 }
    readNumbers r rest

def decode? (cs : List Char) : Option (List Char) :=
  let (basic, numbers) := match Text.splitAtFirst '-' cs.reverse with
    | some (after, before) => (before.reverse, after.reverse)
    | none => ([], cs)
  readNumbers ⟨basic, 128, 72, 0, 0, 1, 36⟩ numbers

end StackKeeper.Url.Punycode

/-!
# A place in a YAML text

A cursor knows what is still to be read and in which line and column that starts. Besides line feed
and carriage return, three Unicode separators end a line.
-/

namespace StackKeeper.Yaml

inductive Fault where
  | character (c : Char)
  | tokenStart
  | tabIndentation
  | simpleKey
  | notAllowedHere (what : String)
  | unterminated (what : String)
  | escape
  | anchor
  | tag
  | directive
  | blockHeader
  | expected (what : String)
  | unknownAlias (name : String)
  | severalDocuments
  | unsupported (what : String)
  deriving DecidableEq, Repr

def Fault.message : Fault → String
  | .character c => s!"character {c.toNat} is not allowed"
  | .tokenStart => "a character that cannot start anything"
  | .tabIndentation => "a tab where the indentation matters"
  | .simpleKey => "a key without its value in the same line"
  | .notAllowedHere what => s!"{what} is not allowed here"
  | .unterminated what => s!"unterminated {what}"
  | .escape => "unknown escape"
  | .anchor => "malformed anchor"
  | .tag => "malformed tag"
  | .directive => "malformed directive"
  | .blockHeader => "malformed header of a block"
  | .expected what => s!"{what} is missing"
  | .unknownAlias name => s!"unknown anchor {name}"
  | .severalDocuments => "more than one document"
  | .unsupported what => s!"{what} has no meaning here"

structure Cursor where
  rest : List Char
  line : Nat
  column : Nat
  index : Nat
  deriving Inhabited

def isBreak (c : Char) : Bool :=
  c == '\n' || c == '\r' || c == '\u0085' || c == '\u2028' || c == '\u2029'

def isBlank (c : Char) : Bool := c == ' ' || c == '\t'

namespace Cursor

def atEnd (c : Cursor) : Bool := c.rest.isEmpty

def peek (c : Cursor) : Option Char := c.rest.head?

def peekAt (c : Cursor) (n : Nat) : Option Char := c.rest[n]?

def looksAt (c : Cursor) (ch : Char) : Bool := c.peek == some ch

def atBreak (c : Cursor) : Bool :=
  match c.rest with
  | [] => true
  | ch :: _ => isBreak ch

def atBlank (c : Cursor) : Bool :=
  match c.rest with
  | [] => false
  | ch :: _ => isBlank ch

/-- Whether a blank, a break or the end comes after `n` characters. -/
def spaceAt (c : Cursor) (n : Nat) : Bool :=
  match c.rest[n]? with
  | none => true
  | some ch => isBlank ch || isBreak ch

def skip (c : Cursor) : Cursor :=
  match c.rest with
  | [] => c
  | _ :: rest => ⟨rest, c.line, c.column + 1, c.index + 1⟩

def skipMany (c : Cursor) : Nat → Cursor
  | 0 => c
  | n + 1 => c.skip.skipMany n

/-- The break that is next, as it counts in a scalar, and the cursor after it. -/
def takeBreak (c : Cursor) : List Char × Cursor :=
  match c.rest with
  | '\r' :: '\n' :: rest => (['\n'], ⟨rest, c.line + 1, 0, c.index + 2⟩)
  | ch :: rest =>
    let counts := if ch == '\u2028' || ch == '\u2029' then ch else '\n'
    ([counts], ⟨rest, c.line + 1, 0, c.index + 1⟩)
  | [] => ([], c)

def skipBreak (c : Cursor) : Cursor := c.takeBreak.2

/-- What comes before the next character that fails a test. -/
def takeWhile (p : Char → Bool) (c : Cursor) : List Char × Cursor :=
  let taken := c.rest.takeWhile p
  (taken, ⟨c.rest.dropWhile p, c.line, c.column + taken.length, c.index + taken.length⟩)

def skipWhile (p : Char → Bool) (c : Cursor) : Cursor := (c.takeWhile p).2

/-- Whether three given characters and a space stand at the start of the line. -/
def atMarker (c : Cursor) (mark : Char) : Bool :=
  c.column == 0 && c.peek == some mark && c.peekAt 1 == some mark && c.peekAt 2 == some mark &&
    c.spaceAt 3

def atDocumentMarker (c : Cursor) : Bool := c.atMarker '-' || c.atMarker '.'

end Cursor

def isAllowed (c : Char) : Bool :=
  let n := c.toNat
  n == 9 || n == 10 || n == 13 || (0x20 ≤ n && n ≤ 0x7E) || n == 0x85 || (0xA0 ≤ n && n ≤ 0xD7FF) ||
    (0xE000 ≤ n && n ≤ 0xFFFD) || 0x10000 ≤ n

/-- The start of a text, after a byte order mark. -/
def Cursor.ofText (s : String) : Except Fault Cursor :=
  let cs := match s.toList with
    | '\ufeff' :: rest => rest
    | cs => cs
  match cs.find? fun c => !isAllowed c with
  | some c => .error (.character c)
  | none => .ok ⟨cs, 0, 0, 0⟩

end StackKeeper.Yaml

import StackKeeper.Yaml.ScalarText

/-!
# Tokens of a YAML text

Indentation becomes tokens: a collection in block notation starts where a line is indented deeper
than the collection around it, and ends where a line is not. That something is a key shows only at
the colon after it, so the place of a possible key is remembered, and the key's token is put there
when the colon comes in the same line.
-/

namespace StackKeeper.Yaml

inductive Style where
  | plain
  | quoted
  | block
  deriving DecidableEq, Repr, Inhabited

inductive Token where
  | streamEnd
  /-- A directive that names a handle for tags. -/
  | tagDirective (handle start : String)
  | versionDirective
  | documentStart
  | documentEnd
  | blockSequenceStart
  | blockMappingStart
  | blockEnd
  | flowSequenceStart
  | flowSequenceEnd
  | flowMappingStart
  | flowMappingEnd
  | blockEntry
  | flowEntry
  | key
  | value
  | alias (name : String)
  | anchor (name : String)
  | tag (handle suffix : String)
  | scalar (text : String) (style : Style)
  deriving DecidableEq, Repr, Inhabited

/-- A place where a key may have started. -/
structure KeyPlace where
  /-- Tokens before the key. -/
  tokens : Nat
  /-- Whether nothing but a key can stand there. -/
  required : Bool
  line : Nat
  column : Nat
  index : Nat

structure Scanner where
  cursor : Cursor
  tokens : Array Token
  /-- Columns of the open block collections, the innermost first. -/
  indents : List Nat
  /-- Possible keys: one place for each open flow collection, and one below. -/
  keys : List (Option KeyPlace)
  keyAllowed : Bool

namespace Scanner

def isFlow (s : Scanner) : Bool := 1 < s.keys.length

def emit (s : Scanner) (t : Token) : Scanner := { s with tokens := s.tokens.push t }

def moveTo (s : Scanner) (c : Cursor) : Scanner := { s with cursor := c }

def allowKey (s : Scanner) (allowed : Bool) : Scanner := { s with keyAllowed := allowed }

def indented (s : Scanner) (column : Nat) : Bool :=
  match s.indents with
  | [] => true
  | indent :: _ => indent < column

def insertToken (s : Scanner) (i : Nat) (t : Token) : Scanner :=
  { s with tokens := s.tokens.extract 0 i ++ #[t] ++ s.tokens.extract i s.tokens.size }

/-- Opens a block collection at a column that lies deeper than the one around it. -/
def openBlock (s : Scanner) (column : Nat) (place : Nat) (t : Token) : Scanner :=
  if s.isFlow || !s.indented column then s
  else { s.insertToken place t with indents := column :: s.indents }

/-- Closes the block collections that lie deeper than a column. -/
def closeBlocks (s : Scanner) (column : Option Nat) : List Nat → Scanner
  | [] => { s with indents := [] }
  | indent :: rest =>
    let deeper := match column with
      | none => true
      | some column => column < indent
    if deeper then (s.emit .blockEnd).closeBlocks column rest
    else { s with indents := indent :: rest }

def unroll (s : Scanner) (column : Option Nat) : Scanner :=
  if s.isFlow then s else s.closeBlocks column s.indents

def dropKey (s : Scanner) : Except Fault Scanner :=
  match s.keys with
  | some place :: rest =>
    if place.required then .error .simpleKey else .ok { s with keys := none :: rest }
  | _ => .ok s

def markKey (s : Scanner) : Except Fault Scanner := do
  if !s.keyAllowed then return s
  let s ← s.dropKey
  let c := s.cursor
  let place : KeyPlace :=
    { tokens := s.tokens.size, required := !s.isFlow && s.indents.head? == some c.column
      line := c.line, column := c.column, index := c.index }
  return { s with keys := some place :: s.keys.tail }

/-- Gives up places that lie in another line or too far back. -/
def dropStale (s : Scanner) : Except Fault Scanner := do
  let keys ← s.keys.mapM fun
    | none => Except.ok none
    | some place =>
      if place.line < s.cursor.line || place.index + 1024 < s.cursor.index then
        if place.required then .error .simpleKey else .ok none
      else .ok (some place)
  return { s with keys }

def toNextToken (fuel : Nat) (s : Scanner) : Scanner :=
  match fuel with
  | 0 => s
  | fuel + 1 =>
    let tabs := s.isFlow || !s.keyAllowed
    let c := s.cursor.skipWhile fun ch => ch == ' ' || (tabs && ch == '\t')
    let c := if c.looksAt '#' then c.skipWhile fun ch => !isBreak ch else c
    if !c.atEnd && c.atBreak then
      let s := s.moveTo c.skipBreak
      (if s.isFlow then s else s.allowKey true).toNextToken fuel
    else s.moveTo c

/-! ## Tags, anchors, directives -/

def isWordChar (c : Char) : Bool := c.isAlphanum || c == '_' || c == '-'

def takeAnchor (c : Cursor) : Except Fault (String × Cursor) :=
  let (name, c) := c.takeWhile isWordChar
  let ends := c.spaceAt 0 || (c.peek.any fun ch => "?:,]\x7d%@`".toList.contains ch)
  if name.isEmpty || !ends then .error .anchor else .ok (String.ofList name, c)

def isUriChar (full : Bool) (c : Char) : Bool :=
  isWordChar c || ";/?:@&=+$.!~*'()%".toList.contains c ||
    (full && (c == ',' || c == '[' || c == ']'))

/-- Bytes written as percent escapes, as text. -/
def unescapeUri : List Char → Except Fault (List UInt8)
  | [] => .ok []
  | '%' :: a :: b :: rest =>
    match hexValue? a, hexValue? b with
    | some a, some b => do return UInt8.ofNat (a * 16 + b) :: (← unescapeUri rest)
    | _, _ => .error .tag
  | '%' :: _ => .error .tag
  | c :: rest => do return (String.singleton c).toUTF8.toList ++ (← unescapeUri rest)

def takeUri (full : Bool) (c : Cursor) : Except Fault (String × Cursor) := do
  let (uri, c) := c.takeWhile (isUriChar full)
  let bytes ← unescapeUri uri
  match String.fromUTF8? bytes.toByteArray with
  | some s => .ok (s, c)
  | none => .error .tag

def takeTag (c : Cursor) : Except Fault (Token × Cursor) := do
  let (token, c) ←
    if c.looksAt '<' then
      let (uri, c) ← takeUri true c.skip
      if uri.isEmpty || !c.looksAt '>' then Except.error Fault.tag
      else Except.ok (Token.tag "" uri, c.skip)
    else
      let (word, after) := c.takeWhile isWordChar
      if after.looksAt '!' then
        let (suffix, c) ← takeUri false after.skip
        if suffix.isEmpty then Except.error Fault.tag
        else Except.ok (Token.tag ("!" ++ String.ofList word ++ "!") suffix, c)
      else
        let (suffix, c) ← takeUri false c
        Except.ok (if suffix.isEmpty then Token.tag "" "!" else Token.tag "!" suffix, c)
  if c.spaceAt 0 || c.looksAt ',' then .ok (token, c) else .error .tag

def takeDirective (c : Cursor) : Except Fault (Token × Cursor) := do
  let (name, c) := c.takeWhile isWordChar
  let c := c.skipWhile isBlank
  let (token, c) ←
    if name == "YAML".toList then
      let (version, c) := c.takeWhile fun ch => ch.isDigit || ch == '.'
      if version == "1.1".toList || version == "1.2".toList then
        Except.ok (Token.versionDirective, c)
      else Except.error Fault.directive
    else if name == "TAG".toList then
      let (handle, c) := c.takeWhile fun ch => isWordChar ch || ch == '!'
      let (start, c) ← takeUri true (c.skipWhile isBlank)
      if handle.head? == some '!' && handle.getLast? == some '!' && !start.isEmpty then
        Except.ok (Token.tagDirective (String.ofList handle) start, c)
      else Except.error Fault.directive
    else Except.error Fault.directive
  let c := c.skipWhile isBlank
  let c := if c.looksAt '#' then c.skipWhile fun ch => !isBreak ch else c
  if c.atBreak then .ok (token, c.skipBreak) else .error .directive

/-! ## Single tokens -/

def openFlow (s : Scanner) (t : Token) : Except Fault Scanner := do
  let s ← s.markKey
  let s := { s with keys := none :: s.keys, keyAllowed := true }
  return (s.emit t).moveTo s.cursor.skip

def closeFlow (s : Scanner) (t : Token) : Except Fault Scanner := do
  let s ← s.dropKey
  let s := { s with keys := if s.isFlow then s.keys.tail else s.keys, keyAllowed := false }
  return (s.emit t).moveTo s.cursor.skip

def documentMarker (s : Scanner) (t : Token) : Except Fault Scanner := do
  let s ← (s.unroll none).dropKey
  return ((s.allowKey false).emit t).moveTo (s.cursor.skipMany 3)

def entry (s : Scanner) : Except Fault Scanner := do
  if !s.isFlow && !s.keyAllowed then throw (.notAllowedHere "a sequence entry")
  let s := s.openBlock s.cursor.column s.tokens.size .blockSequenceStart
  let s ← s.dropKey
  return ((s.allowKey true).emit .blockEntry).moveTo s.cursor.skip

def explicitKey (s : Scanner) : Except Fault Scanner := do
  if !s.isFlow && !s.keyAllowed then throw (.notAllowedHere "a mapping key")
  let s := s.openBlock s.cursor.column s.tokens.size .blockMappingStart
  let s ← s.dropKey
  return ((s.allowKey !s.isFlow).emit .key).moveTo s.cursor.skip

def colon (s : Scanner) : Except Fault Scanner := do
  match s.keys with
  | some place :: rest =>
    let s := s.insertToken place.tokens .key
    let s := s.openBlock place.column place.tokens .blockMappingStart
    return ({ s with keys := none :: rest, keyAllowed := false }.emit .value).moveTo s.cursor.skip
  | _ =>
    if !s.isFlow && !s.keyAllowed then throw (.notAllowedHere "a mapping value")
    let s := s.openBlock s.cursor.column s.tokens.size .blockMappingStart
    return ((s.allowKey !s.isFlow).emit .value).moveTo s.cursor.skip

def isIndicator (c : Char) : Bool := "-?:,[]\x7b\x7d#&*!|>'\"%@`".toList.contains c

def startsPlain (s : Scanner) (ch : Char) : Bool :=
  !isIndicator ch || (ch == '-' && !(s.cursor.peekAt 1).any isBlank) ||
    (!s.isFlow && (ch == '?' || ch == ':') && !s.cursor.spaceAt 1)

def next (s : Scanner) : Except Fault (Scanner × Bool) := do
  let s := s.toNextToken (s.cursor.rest.length + 1)
  let s ← s.dropStale
  let c := s.cursor
  match c.peek with
  | none =>
    let s ← (s.unroll none).dropKey
    return ((s.allowKey false).emit .streamEnd, false)
  | some ch =>
    let s := s.unroll (some c.column)
    let continued (s : Except Fault Scanner) : Except Fault (Scanner × Bool) := s.map (·, true)
    if c.column == 0 && ch == '%' then
      let s ← (s.unroll none).dropKey
      let (t, c) ← takeDirective c.skip
      return (((s.allowKey false).emit t).moveTo c, true)
    else if c.atMarker '-' then continued (s.documentMarker .documentStart)
    else if c.atMarker '.' then continued (s.documentMarker .documentEnd)
    else if ch == '[' then continued (s.openFlow .flowSequenceStart)
    else if ch == '\x7b' then continued (s.openFlow .flowMappingStart)
    else if ch == ']' then continued (s.closeFlow .flowSequenceEnd)
    else if ch == '\x7d' then continued (s.closeFlow .flowMappingEnd)
    else if ch == ',' then
      let s ← s.dropKey
      return (((s.allowKey true).emit .flowEntry).moveTo c.skip, true)
    else if ch == '-' && c.spaceAt 1 then continued s.entry
    else if ch == '?' && (s.isFlow || c.spaceAt 1) then continued s.explicitKey
    else if ch == ':' && (s.isFlow || c.spaceAt 1) then continued s.colon
    else if ch == '*' then
      let s ← s.markKey
      let (name, c) ← takeAnchor c.skip
      return (((s.allowKey false).emit (.alias name)).moveTo c, true)
    else if ch == '&' then
      let s ← s.markKey
      let (name, c) ← takeAnchor c.skip
      return (((s.allowKey false).emit (.anchor name)).moveTo c, true)
    else if ch == '!' then
      let s ← s.markKey
      let (t, c) ← takeTag c.skip
      return (((s.allowKey false).emit t).moveTo c, true)
    else if (ch == '|' || ch == '>') && !s.isFlow then
      let s ← s.dropKey
      let (text, c) ← takeBlock (ch == '|') s.indents.head? c
      return (((s.allowKey true).emit (.scalar text .block)).moveTo c, true)
    else if ch == '\'' || ch == '"' then
      let s ← s.markKey
      let (text, c) ← takeQuoted c
      return (((s.allowKey false).emit (.scalar text .quoted)).moveTo c, true)
    else if s.startsPlain ch then
      let s ← s.markKey
      let indent := match s.indents with
        | [] => 0
        | n :: _ => n + 1
      let (text, broken, c) ← takePlain s.isFlow indent c
      return (((s.allowKey broken).emit (.scalar text .plain)).moveTo c, true)
    else throw .tokenStart

def all (fuel : Nat) (s : Scanner) : Except Fault (List Token) :=
  match fuel with
  | 0 => .ok s.tokens.toList
  | fuel + 1 => do
    let (s, more) ← s.next
    if more then s.all fuel else .ok s.tokens.toList

end Scanner

def tokens (s : String) : Except Fault (List Token) := do
  let c ← Cursor.ofText s
  Scanner.all (c.rest.length + 2) ⟨c, #[], [], [none], true⟩

end StackKeeper.Yaml

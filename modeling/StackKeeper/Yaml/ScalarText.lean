import StackKeeper.Yaml.Cursor

/-!
# Scalars in a YAML text

Three notations write a text: plain, between quotes, and as an indented block. A line break inside a
plain or quoted scalar counts as one space, and each empty line after it as a line feed.
-/

namespace StackKeeper.Yaml

/-- White space between two parts of a scalar: blanks in a line, or breaks. -/
structure Gap where
  /-- Blanks, reversed. -/
  blanks : List Char
  /-- The first break, if there was one. -/
  first : List Char
  /-- Further breaks. -/
  more : List Char
  /-- Whether a line ended in the gap. -/
  folded : Bool

def Gap.none : Gap := ⟨[], [], [], false⟩

/-- What the gap counts as within the scalar. -/
def Gap.text (g : Gap) : List Char :=
  if g.folded then
    match g.first with
    | '\n' :: _ => if g.more.isEmpty then [' '] else g.more
    | first => first ++ g.more
  else g.blanks.reverse

def takeGap (fuel : Nat) (g : Gap) (c : Cursor) : Gap × Cursor :=
  match fuel with
  | 0 => (g, c)
  | fuel + 1 =>
    match c.rest with
    | [] => (g, c)
    | ch :: _ =>
      if isBlank ch then
        takeGap fuel (if g.folded then g else { g with blanks := ch :: g.blanks }) c.skip
      else if isBreak ch then
        let (text, c) := c.takeBreak
        if g.folded then takeGap fuel { g with more := g.more ++ text } c
        else takeGap fuel ⟨[], text, [], true⟩ c
      else (g, c)

/-! ## Quoted scalars -/

def hexValue? (c : Char) : Option Nat :=
  if '0' ≤ c ∧ c ≤ '9' then some (c.toNat - 48)
  else if 'a' ≤ c ∧ c ≤ 'f' then some (c.toNat - 87)
  else if 'A' ≤ c ∧ c ≤ 'F' then some (c.toNat - 55)
  else none

/-- The character of an escape that gives its number in `digits` hexadecimal digits. -/
def numberEscape (digits : Nat) (c : Cursor) : Except Fault (Char × Cursor) :=
  match (c.rest.take digits).mapM hexValue? with
  | none => .error .escape
  | some values =>
    let n := values.foldl (fun n d => n * 16 + d) 0
    if values.length < digits ∨ (0xD800 ≤ n ∧ n ≤ 0xDFFF) ∨ 0x10FFFF < n then .error .escape
    else .ok (Char.ofNat n, c.skipMany digits)

def letterEscape? : Char → Option Char
  | '0' => some '\x00'
  | 'a' => some '\x07'
  | 'b' => some '\x08'
  | 't' => some '\t'
  | '\t' => some '\t'
  | 'n' => some '\n'
  | 'v' => some '\x0b'
  | 'f' => some '\x0c'
  | 'r' => some '\r'
  | 'e' => some '\x1b'
  | ' ' => some ' '
  | '"' => some '"'
  | '/' => some '/'
  | '\\' => some '\\'
  | 'N' => some '\u0085'
  | '_' => some '\u00a0'
  | 'L' => some '\u2028'
  | 'P' => some '\u2029'
  | _ => none

def takeEscape (c : Cursor) : Except Fault (Char × Cursor) :=
  match c.peek with
  | none => .error (.unterminated "quoted scalar")
  | some ch =>
    if ch == 'x' then numberEscape 2 c.skip
    else if ch == 'u' then numberEscape 4 c.skip
    else if ch == 'U' then numberEscape 8 c.skip
    else match letterEscape? ch with
      | some ch => .ok (ch, c.skip)
      | none => .error .escape

/-- The rest of a quoted scalar; `text` holds what was read of it, reversed. -/
def quotedTail (fuel : Nat) (single : Bool) (text : List Char) (c : Cursor) :
    Except Fault (String × Cursor) :=
  match fuel with
  | 0 => .error (.unterminated "quoted scalar")
  | fuel + 1 =>
    if c.atDocumentMarker then .error (.notAllowedHere "a document marker")
    else match c.rest with
      | [] => .error (.unterminated "quoted scalar")
      | ch :: rest =>
        if isBlank ch || isBreak ch then
          let (gap, c) := takeGap fuel .none c
          quotedTail fuel single (gap.text.reverse ++ text) c
        else if single then
          if ch == '\'' then
            if rest.head? == some '\'' then quotedTail fuel single ('\'' :: text) c.skip.skip
            else .ok (String.ofList text.reverse, c.skip)
          else quotedTail fuel single (ch :: text) c.skip
        else if ch == '"' then .ok (String.ofList text.reverse, c.skip)
        else if ch == '\\' then
          if !rest.isEmpty && c.skip.atBreak then
            -- An escaped break counts as nothing, and so do the blanks after it.
            let (gap, c) := takeGap fuel ⟨[], [], [], true⟩ c.skip.skipBreak
            quotedTail fuel single (gap.text.reverse ++ text) c
          else do
            let (ch, c) ← takeEscape c.skip
            quotedTail fuel single (ch :: text) c
        else quotedTail fuel single (ch :: text) c.skip

def takeQuoted (c : Cursor) : Except Fault (String × Cursor) :=
  quotedTail (c.rest.length + 1) (c.looksAt '\'') [] c.skip

/-! ## Plain scalars -/

def isFlowMark (c : Char) : Bool := c == ',' || c == '[' || c == ']' || c == '\x7b' || c == '\x7d'

/-- The part of a plain scalar up to a space or to what ends it, reversed. -/
def plainRun (fuel : Nat) (flow : Bool) (text : List Char) (c : Cursor) :
    Except Fault (List Char × Cursor × Bool) :=
  match fuel with
  | 0 => .ok (text, c, true)
  | fuel + 1 =>
    match c.rest with
    | [] => .ok (text, c, true)
    | ch :: rest =>
      if isBlank ch || isBreak ch then .ok (text, c, false)
      else if flow && ch == ':' && (rest.head?.any fun d => isFlowMark d || d == '?') then
        .error (.notAllowedHere "a colon")
      else if (ch == ':' && c.spaceAt 1) || (flow && isFlowMark ch) then .ok (text, c, true)
      else plainRun fuel flow (ch :: text) c.skip

/-- The rest of a plain scalar, which has to be indented by `indent` columns outside of flow
collections. Tells whether the scalar was followed by a break. -/
def plainTail (fuel : Nat) (flow : Bool) (indent : Nat) (text : List Char) (gap : Gap)
    (c : Cursor) : Except Fault (List Char × Bool × Cursor) :=
  match fuel with
  | 0 => .ok (text, gap.folded, c)
  | fuel + 1 =>
    if c.atDocumentMarker || c.looksAt '#' then .ok (text, gap.folded, c)
    else do
      let (run, c', ended) ← plainRun (c.rest.length + 1) flow [] c
      let (text, gap) :=
        if run.isEmpty then (text, gap) else (run ++ gap.text.reverse ++ text, .none)
      if ended then .ok (text, gap.folded, c')
      else
        let (gap, c'') := takeGap (c'.rest.length + 1) gap c'
        if gap.folded && tabBefore indent c' c'' then .error .tabIndentation
        else if !flow && c''.column < indent then .ok (text, gap.folded, c'')
        else plainTail fuel flow indent text gap c''
where
  /-- Whether a tab stands left of the indentation in a line after the first. -/
  tabBefore (indent : Nat) (c c' : Cursor) : Bool :=
    let gap := c.rest.take (c'.index - c.index)
    let step (state : Option Nat × Bool) (ch : Char) : Option Nat × Bool :=
      match state with
      | (some column, found) =>
        if isBreak ch then (some 0, found)
        else (some (column + 1), found || (ch == '\t' && column < indent))
      | (none, found) => if isBreak ch then (some 0, found) else (none, found)
    (gap.foldl step (none, false)).2

def takePlain (flow : Bool) (indent : Nat) (c : Cursor) :
    Except Fault (String × Bool × Cursor) := do
  let (text, broken, c) ← plainTail (c.rest.length + 1) flow indent [] .none c
  .ok (String.ofList text.reverse, broken, c)

/-! ## Block scalars -/

/-- What becomes of the breaks at the end of a block. -/
inductive Chomping where
  | strip
  | clip
  | keep
  deriving DecidableEq

/-- The header of a block after its mark: chomping, and indentation if given. -/
def takeHeader (c : Cursor) : Except Fault (Chomping × Option Nat × Cursor) :=
  let chomping? (c : Cursor) : Option Chomping × Cursor :=
    if c.looksAt '+' then (some .keep, c.skip)
    else if c.looksAt '-' then (some .strip, c.skip)
    else (none, c)
  let indent? (c : Cursor) : Except Fault (Option Nat × Cursor) :=
    match c.peek with
    | some ch =>
      if ch == '0' then .error .blockHeader
      else if '1' ≤ ch ∧ ch ≤ '9' then .ok (some (ch.toNat - 48), c.skip)
      else .ok (none, c)
    | none => .ok (none, c)
  do
    let (before, c) := chomping? c
    let (indent, c) ← indent? c
    let (after, c) := if before.isNone && indent.isSome then chomping? c else (before, c)
    let c := c.skipWhile isBlank
    let c := if c.looksAt '#' then c.skipWhile fun ch => !isBreak ch else c
    if c.atBreak then .ok (after.getD .clip, indent, c.skipBreak) else .error .blockHeader

/-- Takes in empty lines and the indentation of the next line. Without a given indentation the
deepest seen so far is kept in `deepest`. -/
def takeBreaks (fuel : Nat) (indent : Option Nat) (deepest : Nat) (breaks : List Char)
    (c : Cursor) : Except Fault (List Char × Nat × Cursor) :=
  match fuel with
  | 0 => .ok (breaks, deepest, c)
  | fuel + 1 =>
    let spaces := c.rest.takeWhile (· == ' ')
    let most := match indent with
      | some n => n - c.column
      | none => spaces.length
    let c := c.skipMany (min spaces.length most)
    let deepest := max deepest c.column
    let within := match indent with
      | some n => decide (c.column < n)
      | none => true
    if within && c.looksAt '\t' then .error .tabIndentation
    else if !c.atEnd && c.atBreak then
      let (text, c) := c.takeBreak
      takeBreaks fuel indent deepest (breaks ++ text) c
    else .ok (breaks, deepest, c)

def blockLines (fuel : Nat) (literal : Bool) (indent : Nat) (text leading trailing : List Char)
    (leadingBlank : Bool) (c : Cursor) :
    Except Fault (List Char × List Char × List Char × Cursor) :=
  match fuel with
  | 0 => .ok (text, leading, trailing, c)
  | fuel + 1 =>
    if c.column != indent || c.atEnd then .ok (text, leading, trailing, c)
    else do
      let blank := c.atBlank
      let joint :=
        if !literal && leading.head? == some '\n' && !leadingBlank && !blank then
          if trailing.isEmpty then [' '] else trailing
        else leading ++ trailing
      let (line, c) := c.takeWhile fun ch => !isBreak ch
      let (leading, c) := c.takeBreak
      let (trailing, _, c) ← takeBreaks (c.rest.length + 1) (some indent) 0 [] c
      blockLines fuel literal indent (text ++ joint ++ line) leading trailing blank c

/-- A block scalar inside a collection that is indented by `parent` columns, if there is one. -/
def takeBlock (literal : Bool) (parent : Option Nat) (c : Cursor) :
    Except Fault (String × Cursor) := do
  let (chomping, given, c) ← takeHeader c.skip
  let fixed := given.map fun n => (parent.getD 0) + n
  let (trailing, deepest, c) ← takeBreaks (c.rest.length + 1) fixed 0 [] c
  let least := match parent with
    | some n => n + 1
    | none => 1
  let indent := fixed.getD (max deepest (max least 1))
  let (text, leading, trailing, c) ←
    blockLines (c.rest.length + 1) literal indent [] [] trailing false c
  let ending := match chomping with
    | .strip => []
    | .clip => leading
    | .keep => leading ++ trailing
  .ok (String.ofList (text ++ ending), c)

end StackKeeper.Yaml

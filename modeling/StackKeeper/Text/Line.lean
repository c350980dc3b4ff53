import StackKeeper.Text.Utf8

/-!
# Lines

A line ends at a line feed, and a carriage return in front of that belongs to the end. What follows
the last line feed is a line too, if there is anything.
-/

namespace StackKeeper.Text

def dropReturn (line : List Char) : List Char :=
  match line.getLast? with
  | some '\r' => line.dropLast
  | _ => line

/-- The lines of a text; `line` holds the characters of the current one, reversed. -/
def linesFrom (line : List Char) : List Char → List (List Char)
  | [] => if line.isEmpty then [] else [line.reverse]
  | c :: rest =>
    if c = '\n' then dropReturn line.reverse :: linesFrom [] rest else linesFrom (c :: line) rest

def lines (cs : List Char) : List (List Char) := linesFrom [] cs

def joinLines (ls : List (List Char)) : List Char := ['\n'].intercalate ls

def lastLines (n : Nat) (cs : List Char) : List Char :=
  let ls := lines cs
  joinLines (ls.drop (ls.length - n))

/-- The lines of some bytes, split before they are read as text. -/
def byteLinesFrom (line : Bytes) : Bytes → List Bytes
  | [] => if line.isEmpty then [] else [line.reverse]
  | b :: rest =>
    if b == 10 then
      (match line with
        | 13 :: before => before.reverse
        | line => line.reverse) :: byteLinesFrom [] rest
    else byteLinesFrom (b :: line) rest

/-- The lines of some bytes up to the first that is not UTF-8. -/
def readableLines (bytes : Bytes) : List String :=
  let rec go : List Bytes → List String
    | [] => []
    | line :: rest =>
      match Utf8.decode? line with
      | some s => s :: go rest
      | none => []
  go (byteLinesFrom [] bytes)

end StackKeeper.Text

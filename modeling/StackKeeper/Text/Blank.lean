/-!
# White space

The characters with the Unicode property White_Space, and trimming by them. The set is larger than
that of `Char.isWhitespace`, which knows ASCII only.
-/

namespace StackKeeper.Text

/-- Whether a character has the Unicode property White_Space. -/
def isBlank (c : Char) : Bool :=
  let n := c.toNat
  (0x9 ≤ n && n ≤ 0xD) || n == 0x20 || n == 0x85 || n == 0xA0 || n == 0x1680 ||
    (0x2000 ≤ n && n ≤ 0x200A) || n == 0x2028 || n == 0x2029 || n == 0x202F ||
    n == 0x205F || n == 0x3000

def trimEnd (cs : List Char) : List Char := (cs.reverse.dropWhile isBlank).reverse

def trimChars (cs : List Char) : List Char := trimEnd (cs.dropWhile isBlank)

def trim (s : String) : String := String.ofList (trimChars s.toList)

def isAllBlank (s : String) : Bool := s.toList.all isBlank

/-- The text after a given opening, if it opens so. -/
def afterOpening (opening cs : List Char) : Option (List Char) :=
  match opening, cs with
  | [], rest => some rest
  | _ :: _, [] => none
  | a :: as, b :: bs => if a = b then afterOpening as bs else none

def splitAtFirst (c : Char) : List Char → Option (List Char × List Char)
  | [] => none
  | d :: rest =>
    if d = c then some ([], rest)
    else (splitAtFirst c rest).map fun (l, r) => (d :: l, r)

/-- The pieces of a text between occurrences of a character; one more than the occurrences. -/
def splitOnChar (c : Char) : List Char → List (List Char)
  | [] => [[]]
  | d :: rest =>
    if d = c then [] :: splitOnChar c rest
    else match splitOnChar c rest with
      | [] => [[d]]
      | piece :: more => (d :: piece) :: more

end StackKeeper.Text

/-!
# Finding phrases

A phrase occurs in a text where one of the text's tails opens with it. Without regard to case, a
character equals another if both fold to the same small letter; besides the ASCII capitals the
Kelvin sign and the long s fold to ASCII letters.
-/

namespace StackKeeper.Text

/-- The small letter that stands for a character when case does not count. -/
def foldCase (c : Char) : Char :=
  if c = '\u212a' then 'k' else if c = '\u017f' then 's' else c.toLower

def hasPhrase (phrase : List Char) : List Char → Bool
  | [] => phrase.isEmpty
  | c :: rest => phrase.isPrefixOf (c :: rest) || hasPhrase phrase rest

/-- Whether a phrase in small letters occurs in a text, in any case. -/
def hasPhraseFolded (phrase : String) (cs : List Char) : Bool :=
  hasPhrase phrase.toList (cs.map foldCase)

/-- The text with every occurrence of a non-empty phrase replaced, from left to right. -/
def replacePhrase (phrase replacement : List Char) : Nat → List Char → List Char
  | 0, cs => cs
  | _ + 1, [] => []
  | fuel + 1, c :: rest =>
    if phrase.isPrefixOf (c :: rest) then
      replacement ++ replacePhrase phrase replacement fuel ((c :: rest).drop phrase.length)
    else c :: replacePhrase phrase replacement fuel rest

/-- The text with every occurrence of a phrase replaced; an empty phrase occurs nowhere. -/
def replaceAll (phrase replacement cs : List Char) : List Char :=
  if phrase.isEmpty then cs else replacePhrase phrase replacement (cs.length + 1) cs

end StackKeeper.Text

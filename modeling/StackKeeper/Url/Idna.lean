import StackKeeper.Text.Blank

/-!
# Domains in ASCII

A domain may be written in any alphabet, but a host is known by a name in ASCII. How the one becomes
the other is laid down in tables of all characters there are. These tables are no part of what
follows: who reads URLs brings a conversion along, and two things are asked of it.
-/

namespace StackKeeper.Url

/-- Small letters, digits and hyphens between dots, where no label stands for another one. -/
def isPlainDomain (cs : List Char) : Bool :=
  (cs.all fun c => c.isLower || c.isDigit || c == '-' || c == '.') &&
    (Text.splitOnChar '.' cs).all (!"xn--".toList.isPrefixOf ·)

/-- A conversion of domains to ASCII, which refuses what is no domain. -/
class Idna where
  toAscii : List Char → Option (List Char)
  /-- A domain that was converted stays as it is. -/
  toAscii_again {cs name : List Char} : toAscii cs = some name → toAscii name = some name
  toAscii_plain {cs : List Char} : isPlainDomain cs = true → toAscii cs = some cs

end StackKeeper.Url

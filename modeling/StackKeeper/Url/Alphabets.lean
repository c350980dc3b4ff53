import StackKeeper.Url.Idna
import StackKeeper.Url.Punycode

/-!
# Domains in common alphabets

A conversion of domains that goes without large tables, and so is an approximation. It knows the
large and small letters of Europe and the full-width forms of ASCII. All other characters are taken
as they are: they are neither composed nor taken apart, and few of them are refused.
-/

namespace StackKeeper.Url.Alphabets

/-- The small letter of a large one, in the alphabets of Europe, and plain forms of full-width
characters. -/
def foldChar (c : Char) : Char :=
  let n := c.toNat
  if 'A' ≤ c ∧ c ≤ 'Z' then c.toLower
  else if 0xC0 ≤ n ∧ n ≤ 0xDE ∧ n ≠ 0xD7 then Char.ofNat (n + 32)
  else if (0x100 ≤ n ∧ n ≤ 0x12F) ∨ (0x132 ≤ n ∧ n ≤ 0x137) ∨ (0x14A ≤ n ∧ n ≤ 0x177) then
    Char.ofNat (n + (n + 1) % 2)
  else if (0x139 ≤ n ∧ n ≤ 0x148) ∨ (0x179 ≤ n ∧ n ≤ 0x17E) then Char.ofNat (n + n % 2)
  else if n = 0x178 then Char.ofNat 0xFF
  else if 0x391 ≤ n ∧ n ≤ 0x3A9 then Char.ofNat (n + 32)
  else if 0x410 ≤ n ∧ n ≤ 0x42F then Char.ofNat (n + 32)
  else if 0x400 ≤ n ∧ n ≤ 0x40F then Char.ofNat (n + 80)
  else if n = 0x3002 ∨ n = 0xFF61 then '.'
  else if 0xFF21 ≤ n ∧ n ≤ 0xFF3A then Char.ofNat (n - 0xFEE0 + 32)
  else if 0xFF01 ≤ n ∧ n ≤ 0xFF5E then Char.ofNat (n - 0xFEE0)
  else c

def isIgnored (c : Char) : Bool :=
  let n := c.toNat
  n == 0xAD || n == 0x200B || n == 0x2060 || n == 0xFEFF || (0xFE00 ≤ n && n ≤ 0xFE0F)

def isRefused (c : Char) : Bool :=
  let n := c.toNat
  (0x80 ≤ n && n ≤ 0xA0) || (0x2000 ≤ n && n ≤ 0x200F) || (0x2028 ≤ n && n ≤ 0x202F) ||
    n == 0x205F || n == 0x3000 || (0xE000 ≤ n && n ≤ 0xF8FF) || 0xFFF0 ≤ n && n ≤ 0xFFFF ||
    0xE0000 ≤ n

def isAscii (label : List Char) : Bool := label.all (·.toNat < 128)

/-- A label in ASCII. One that is in Punycode has to stand for a label that could be given. -/
def label? (label : List Char) : Option (List Char) :=
  if label.any isRefused then none
  else if "xn--".toList.isPrefixOf label then do
    let own ← Punycode.decode? (label.drop 4)
    let isGiven := own.all fun c => foldChar c == c && !isIgnored c && !isRefused c
    guard (isGiven && !isAscii own && "xn--".toList ++ Punycode.encode own == label)
    return label
  else if isAscii label then some label
  else some ("xn--".toList ++ Punycode.encode label)

def convert? (cs : List Char) : Option (List Char) :=
  if isPlainDomain cs then some cs
  else do
    let folded := (cs.filter (!isIgnored ·)).map foldChar
    return ['.'].intercalate (← (Text.splitOnChar '.' folded).mapM label?)

/-- A domain in ASCII, unless it would not be read back as it is. -/
def toAscii (cs : List Char) : Option (List Char) :=
  (convert? cs).filter fun name => convert? name == some name

theorem toAscii_eq_some_iff {cs name : List Char} :
    toAscii cs = some name ↔ convert? cs = some name ∧ convert? name = some name := by
  rw [toAscii, Option.filter_eq_some_iff, beq_iff_eq]

instance : Idna where
  toAscii := toAscii
  toAscii_again h := toAscii_eq_some_iff.2 ⟨(toAscii_eq_some_iff.1 h).2, (toAscii_eq_some_iff.1 h).2⟩
  toAscii_plain h := toAscii_eq_some_iff.2 ⟨if_pos h, if_pos h⟩

end StackKeeper.Url.Alphabets

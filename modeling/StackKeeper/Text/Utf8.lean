/-!
# UTF-8

Bytes as text, strictly or with replacements. Where bytes are no UTF-8, the longest run that could
still have become a character counts as one fault and is replaced by one U+FFFD.
-/

namespace StackKeeper

abbrev Bytes := List UInt8

namespace Utf8

def isContinuation (b : UInt8) : Bool := 0x80 ≤ b && b ≤ 0xBF

/-- Whether a second byte may follow a first one of three or four. -/
def secondFits (first second : UInt8) : Bool :=
  if first == 0xE0 then 0xA0 ≤ second && second ≤ 0xBF
  else if first == 0xED then 0x80 ≤ second && second ≤ 0x9F
  else if first == 0xF0 then 0x90 ≤ second && second ≤ 0xBF
  else if first == 0xF4 then 0x80 ≤ second && second ≤ 0x8F
  else isContinuation second

def charOf (n : Nat) : Char := Char.ofNat n

def low6 (b : UInt8) : Nat := b.toNat % 64

/-- The first character of some bytes and how many more bytes it takes, or no character and how many
more bytes belong to the fault. -/
def next (first : UInt8) (rest : Bytes) : Option Char × Nat :=
  if first < 0x80 then (some (charOf first.toNat), 0)
  else if 0xC2 ≤ first && first ≤ 0xDF then
    match rest with
    | b :: _ =>
      if isContinuation b then (some (charOf (first.toNat % 32 * 64 + low6 b)), 1) else (none, 0)
    | [] => (none, 0)
  else if 0xE0 ≤ first && first ≤ 0xEF then
    match rest with
    | b :: rest =>
      if secondFits first b then
        match rest with
        | c :: _ =>
          if isContinuation c then
            (some (charOf ((first.toNat % 16 * 64 + low6 b) * 64 + low6 c)), 2)
          else (none, 1)
        | [] => (none, 1)
      else (none, 0)
    | [] => (none, 0)
  else if 0xF0 ≤ first && first ≤ 0xF4 then
    match rest with
    | b :: rest =>
      if secondFits first b then
        match rest with
        | c :: rest =>
          if isContinuation c then
            match rest with
            | d :: _ =>
              if isContinuation d then
                (some (charOf (((first.toNat % 8 * 64 + low6 b) * 64 + low6 c) * 64 + low6 d)), 3)
              else (none, 2)
            | [] => (none, 2)
          else (none, 1)
        | [] => (none, 1)
      else (none, 0)
    | [] => (none, 0)
  else (none, 0)

/-- The characters of some bytes, none for each fault. -/
def scan : Bytes → List (Option Char)
  | [] => []
  | first :: rest =>
    let (c, more) := next first rest
    c :: scan (rest.drop more)
termination_by bytes => bytes.length
decreasing_by simp only [List.length_drop, List.length_cons]; omega

/-- The text of bytes that are UTF-8 throughout. -/
def decode? (bytes : Bytes) : Option String :=
  ((scan bytes).mapM id).map String.ofList

/-- The text of any bytes. -/
def decodeLossy (bytes : Bytes) : String :=
  String.ofList ((scan bytes).map fun c => c.getD '\ufffd')

def encode (s : String) : Bytes := s.toUTF8.toList

end Utf8

end StackKeeper

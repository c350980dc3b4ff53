import StackKeeper.Text.Utf8

/-!
# Base64

Three bytes are written as four of 64 characters. Padding fills up the last group; the bits that it
leaves over are zero, so each list of bytes has one written form.
-/

namespace StackKeeper.Text.Base64

def digit? (c : Char) : Option Nat :=
  if 'A' ≤ c ∧ c ≤ 'Z' then some (c.toNat - 'A'.toNat)
  else if 'a' ≤ c ∧ c ≤ 'z' then some (c.toNat - 'a'.toNat + 26)
  else if '0' ≤ c ∧ c ≤ '9' then some (c.toNat - '0'.toNat + 52)
  else if c = '+' then some 62
  else if c = '/' then some 63
  else none

def byte (n : Nat) : UInt8 := UInt8.ofNat (n % 256)

/-- The bytes of a text, if it is the written form of any. -/
def decode? : List Char → Option Bytes
  | [] => some []
  | [a, b, '=', '='] => do
    let a ← digit? a
    let b ← digit? b
    if b % 16 = 0 then some [byte (a * 4 + b / 16)] else none
  | [a, b, c, '='] => do
    let a ← digit? a
    let b ← digit? b
    let c ← digit? c
    if c % 4 = 0 then some [byte (a * 4 + b / 16), byte (b * 16 + c / 4)] else none
  | a :: b :: c :: d :: rest => do
    let a ← digit? a
    let b ← digit? b
    let c ← digit? c
    let d ← digit? d
    let more ← decode? rest
    some (byte (a * 4 + b / 16) :: byte (b * 16 + c / 4) :: byte (c * 64 + d) :: more)
  | _ => none

end StackKeeper.Text.Base64

import StackKeeper.Console.Arguments
import StackKeeper.Error
import StackKeeper.Text.Blank

/-!
# How a command ends

A command prints lines, and it may fail. A failure is shown with the causes that led to it, the
nearest one first.
-/

namespace StackKeeper.Console

inductive Cause where
  | told (text : String)
  /-- A text could not be read; the detail says where and why. -/
  | unreadable (detail : String)
  deriving DecidableEq, Repr, Inhabited

def Cause.text : Cause → String
  | told text => text
  | unreadable detail => detail

structure Failure where
  headline : String
  causes : List Cause
  deriving DecidableEq, Repr, Inhabited

namespace Failure

def plain (headline : String) : Failure := ⟨headline, []⟩

def ofError (e : Error) : Failure := plain e.message

/-- A text whose first line stands behind a mark, and whose other lines are moved in as far. -/
def indented (mark : String) (text : String) : String :=
  let margin := String.ofList (List.replicate mark.length ' ')
  let lines := (Text.splitOnChar '\n' text.toList).map String.ofList
  mark ++ ("\n" ++ margin).intercalate lines

def numberMark (n : Nat) : String :=
  let digits := toString n
  String.ofList (List.replicate (5 - digits.length) ' ') ++ digits ++ ": "

/-- The causes below each other; several ones are numbered. -/
def causeLines : List Cause → List String
  | [] => []
  | [c] => [indented "    " c.text]
  | causes => causes.zipIdx.map fun (c, n) => indented (numberMark n) c.text

def text (f : Failure) : String :=
  let causes := if f.causes.isEmpty then [] else ["", "Caused by:"] ++ causeLines f.causes
  "\n".intercalate (("Error: " ++ f.headline) :: causes)

end Failure

inductive Ending where
  | misused (m : Misuse)
  | finished (lines : List String) (failure : Option Failure)
  deriving Inhabited

namespace Ending

def failed (f : Failure) : Ending := finished [] (some f)

def exitCode : Ending → Nat
  | misused _ => 2
  | finished _ none => 0
  | finished _ (some _) => 1

def output : Ending → String
  | misused _ => ""
  | finished lines _ => String.join (lines.map (· ++ "\n"))

def errors : Ending → String
  | misused m => "error: " ++ m.message ++ "\n"
  | finished _ none => ""
  | finished _ (some f) => f.text ++ "\n"

end Ending

end StackKeeper.Console

import StackKeeper.Error
import StackKeeper.Text.Blank
import StackKeeper.Text.Line
import StackKeeper.Text.Phrase

/-!
# What the engine's output says

The output of a failed run tells by fixed phrases what kind of failure it was. Only the engine's own
phrases count: other services print status codes too. The output also carries a link to the page of
the run.
-/

namespace StackKeeper.Engine

def driftPhrases : List String :=
  ["no changes were expected but changes occurred",
    "no changes were expected but changes were proposed"]

def conflictPhrases : List String :=
  ["error: [409] conflict", "another update is currently in progress"]

def pendingPhrases : List String := ["pending operations", "pending_operations"]

def notFoundPhrases : List String := ["error: [404] not found", "no stack named"]

/-- Whether one of the phrases stands in the output, in any case. -/
def hasAny (phrases : List String) (output : List Char) : Bool :=
  phrases.any fun phrase => Text.hasPhraseFolded phrase output

def excerpt (output : List Char) : List Char := Text.lastLines 20 (Text.trimChars output)

/-- The error of a failed run. A phrase of drift outweighs one of conflict, that one of unfinished
operations, and that one of a missing stack. -/
def diagnose (operation output : String) : Error :=
  let text := operation ++ ": " ++ String.ofList (excerpt output.toList)
  if hasAny driftPhrases output.toList then .refreshDrift text
  else if hasAny conflictPhrases output.toList then .engineConflict text
  else if hasAny pendingPhrases output.toList then .enginePendingOperations text
  else if hasAny notFoundPhrases output.toList then .notFound text
  else .engineFailed text

/-! ## Links -/

def linkLabels : List (List Char) := ["View Live:".toList, "Permalink:".toList]

/-- The text after the first of the openings that it has. -/
def afterOneOf (openings : List (List Char)) (cs : List Char) : Option (List Char) :=
  openings.findSome? fun opening => Text.afterOpening opening cs

/-- The link of a text that opens, blanks aside, with a label, a link and the end of the line. -/
def linkAt (cs : List Char) : Option (List Char) := do
  let afterLabel ← afterOneOf linkLabels (cs.dropWhile Text.isBlank)
  let url := afterLabel.dropWhile Text.isBlank
  let afterScheme ← afterOneOf ["https://".toList, "http://".toList] url
  let site := afterScheme.takeWhile fun c => !Text.isBlank c
  let rest := afterScheme.dropWhile fun c => !Text.isBlank c
  let blanks := rest.takeWhile Text.isBlank
  if site.isEmpty then none
  else if blanks.contains '\n' || blanks.length = rest.length then
    some (url.take (url.length - rest.length))
  else none

/-- The tails of a text that start a line. -/
def lineStarts : List Char → List (List Char)
  | cs => cs :: go cs
where
  go : List Char → List (List Char)
    | [] => []
    | c :: rest => if c = '\n' then rest :: go rest else go rest

def permalink? (output : String) : Option String :=
  ((lineStarts output.toList).filterMap linkAt).getLast?.map String.ofList

end StackKeeper.Engine

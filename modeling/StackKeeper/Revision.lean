import StackKeeper.Error
import StackKeeper.Json.Basic
import StackKeeper.Text.Blank

/-!
# Revisions

What of a repository is to be checked out: the head of the default branch, of a named branch, or one
commit.
-/

namespace StackKeeper

inductive Revision where
  | defaultBranch
  /-- A branch, without `refs/heads/` in front. -/
  | branch (name : String)
  | commit (sha : String)
  deriving DecidableEq, Repr, Inhabited

namespace Revision

def branchOpening : List Char := "refs/heads/".toList

/-- The trimmed text, if anything is left of it. -/
def trimmed? (s : Option String) : Option String :=
  (s.map Text.trim).filter (!·.isEmpty)

/-- A branch name without one `refs/heads/` in front. -/
def shortBranch (name : String) : String :=
  match Text.afterOpening branchOpening name.toList with
  | some rest => String.ofList rest
  | none => name

/-- The revision of a branch and a commit, at most one of which may hold more than blanks. -/
def ofParts (branch commit : Option String) : Except Error Revision :=
  match trimmed? branch, trimmed? commit with
  | some _, some _ => .error (.config "branch and commit are mutually exclusive")
  | some name, none => .ok (.branch (shortBranch name))
  | none, some sha => .ok (.commit sha)
  | none, none => .ok .defaultBranch

def pinnedCommit? : Revision → Option String
  | .commit sha => some sha
  | _ => none

def describe : Revision → String
  | .defaultBranch => "default branch"
  | .branch name => "branch " ++ name
  | .commit sha => "commit " ++ sha

def encode : Revision → Json
  | .defaultBranch => .string "DefaultBranch"
  | .branch name => .object [("Branch", .string name)]
  | .commit sha => .object [("Commit", .string sha)]

end Revision

end StackKeeper

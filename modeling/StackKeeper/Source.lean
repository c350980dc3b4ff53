import StackKeeper.Credentials
import StackKeeper.Revision

/-!
# Project sources

What is asked of whoever provides a project's source, and what is handed out: a directory with the
repository at one commit.
-/

namespace StackKeeper

structure SourceRequest where
  repo : String
  revision : Revision
  /-- Directory of the project within the repository. -/
  directory : Option String
  credentials : Option Credentials
  deriving DecidableEq, Inhabited

/-- A source that was handed out. It is given back at the end of the attempt. -/
structure Checkout where
  root : String
  /-- The directory of the project. -/
  directory : String
  commit : String
  deriving DecidableEq, Repr, Inhabited

end StackKeeper

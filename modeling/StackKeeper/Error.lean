/-!
# Errors

Everything that can go wrong while a stack is kept converged falls into one of twelve kinds. The
kind decides what happens next, the text tells a person what happened.
-/

namespace StackKeeper

inductive Error where
  | config (text : String)
  | notFound (text : String)
  | accessDenied (text : String)
  | io (text : String)
  | auth (text : String)
  | source (text : String)
  | refreshDrift (text : String)
  | engineConflict (text : String)
  | enginePendingOperations (text : String)
  | engineFailed (text : String)
  | cancelled
  | internal (text : String)
  deriving DecidableEq, Repr, Inhabited

namespace Error

/-- The stable name of the kind. -/
def kind : Error → String
  | config _ => "ConfigError"
  | notFound _ => "NotFound"
  | accessDenied _ => "AccessDenied"
  | io _ => "IOError"
  | auth _ => "AuthError"
  | source _ => "SourceError"
  | refreshDrift _ => "RefreshDrift"
  | engineConflict _ => "EngineConflict"
  | enginePendingOperations _ => "EnginePendingOperations"
  | engineFailed _ => "EngineFailed"
  | cancelled => "Cancelled"
  | internal _ => "Internal"

def ofKind? (kind text : String) : Option Error :=
  match kind with
  | "ConfigError" => some (config text)
  | "NotFound" => some (notFound text)
  | "AccessDenied" => some (accessDenied text)
  | "IOError" => some (io text)
  | "AuthError" => some (auth text)
  | "SourceError" => some (source text)
  | "RefreshDrift" => some (refreshDrift text)
  | "EngineConflict" => some (engineConflict text)
  | "EnginePendingOperations" => some (enginePendingOperations text)
  | "EngineFailed" => some (engineFailed text)
  | "Cancelled" => some cancelled
  | "Internal" => some (internal text)
  | _ => none

/-- The full message, which opens with the kind in words. -/
def message : Error → String
  | config text => "config error: " ++ text
  | notFound text => "not found: " ++ text
  | accessDenied text => "access denied: " ++ text
  | io text => "io error: " ++ text
  | auth text => "auth error: " ++ text
  | source text => "source error: " ++ text
  | refreshDrift text => "refresh drift: " ++ text
  | engineConflict text => "engine conflict: " ++ text
  | enginePendingOperations text => "engine pending operations: " ++ text
  | engineFailed text => "engine failed: " ++ text
  | cancelled => "cancelled"
  | internal text => "internal error: " ++ text

/-- The error of reading one named source: the name stands before the text of errors that are
about the source, all others pass unchanged. -/
def within (name : String) : Error → Error
  | notFound text => notFound (name ++ ": " ++ text)
  | accessDenied text => accessDenied (name ++ ": " ++ text)
  | io text => io (name ++ ": " ++ text)
  | config text => config (name ++ ": " ++ text)
  | e => e

end Error

end StackKeeper

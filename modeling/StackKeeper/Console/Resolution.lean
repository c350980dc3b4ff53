import StackKeeper.Console.Secrets
import StackKeeper.Resolver
import StackKeeper.Settings

/-!
# Resolving a reference

A reference is given in its manifest form, and its value is printed.
-/

namespace StackKeeper.Console

def referenceOf (text : String) : Except Failure Reference := do
  let refuse (c : Cause) : Failure := ⟨"Reference must be a JSON resource reference", [c]⟩
  let value ← (Json.read text).mapError fun f => refuse (.unreadable f.message)
  let written ← (Reference.decodeWritten value).mapError fun m => refuse (.unreadable m.message)
  let reference ← (Reference.ofWritten written).mapError fun e => refuse (.told e.message)
  reference.validate.mapError .ofError
  return reference

def resolverFor (s : Settings) (environment : Dict String) : Resolver := ⟨s.namespace, environment⟩

def resolve (resolver : Resolver) (values : Values) (text : String) : Host.Talk Ending := do
  match referenceOf text with
  | .error f => return .failed f
  | .ok reference =>
    match ← (resolver.resolve reference).run.relay values with
    | .ok value => return .finished [value] none
    | .error e => return .failed ⟨"Failed to resolve " ++ reference.describe, [.told e.message]⟩

end StackKeeper.Console

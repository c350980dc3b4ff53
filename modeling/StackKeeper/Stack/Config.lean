import StackKeeper.Json.Decode
import StackKeeper.Json.Encode

/-!
# The configuration of a stack

An attempt lays four layers over the configuration that the project brings along. A key takes value
and secrecy from the highest layer that has it. Only what differs from the project's own entries is
written back.
-/

namespace StackKeeper

structure ConfigValue where
  value : String
  secret : Bool
  deriving DecidableEq, Repr, Inhabited

abbrev Config := Dict ConfigValue

namespace Config

open Json Json.FieldReader

/-- What goes into the configuration of a stack, lowest precedence first. -/
structure Layers where
  /-- What the project brings along. -/
  checkedIn : Config
  config : Dict String
  secrets : Dict String
  resolvedConfig : Dict String
  resolvedSecrets : Dict String

/-- A layer of values that are all secret or all plain. -/
def ofLayer (secret : Bool) (layer : Dict String) : Config := layer.map fun v => ⟨v, secret⟩

/-- The layers above the project's own configuration, lowest first. -/
def Layers.overrides (l : Layers) : List Config :=
  [ofLayer false l.config, ofLayer true l.secrets, ofLayer false l.resolvedConfig,
    ofLayer true l.resolvedSecrets]

/-- Every key with the entry of its highest layer. -/
def merge (l : Layers) : Config := l.overrides.foldl Dict.union l.checkedIn

/-- The entries of `merged` that the project does not have already. -/
def updates (checkedIn merged : Config) : Config :=
  merged.filter fun k v => checkedIn.get? k != some v

def encodeValue (v : ConfigValue) : Json :=
  .object [("value", .string v.value), ("secret", .bool v.secret)]

def encode (c : Config) : Json := ofDict encodeValue c

def decodeValue : Decoder ConfigValue :=
  record "ConfigValue" ["value", "secret"] <|
    ConfigValue.mk <$> required "ConfigValue" "value" text <*> defaulted "secret" boolean false

def decode : Decoder Config := dictOf decodeValue

end Config

end StackKeeper

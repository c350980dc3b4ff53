import StackKeeper.Dict
import StackKeeper.Json.Basic
import StackKeeper.Text.Quoted

/-!
# Decoding JSON into records

A decoder maps a value to what it stands for, or to a fault that names what was found and what was
expected. A record is given as an object, or as an array of its fields in declaration order.

Faults of a record come in a fixed order: first the earliest member that does not decode, then the
first declared field that is missing. Object members are visited in the order they stand in, which
for a canonical value is key order.
-/

namespace StackKeeper.Json

inductive Mismatch where
  | missingField (name : String)
  | unknownField (name : String) (known : List String)
  | unknownVariant (name : String) (known : List String)
  | invalidType (found expected : String)
  | invalidValue (found expected : String)
  | invalidLength (length : Nat) (expected : String)
  /-- A value of the right form that its type refuses. -/
  | refused (text : String)
  deriving DecidableEq, Repr, Inhabited

/-- Names between backquotes: one, two joined by "or", or a list. -/
def oneOf (names : List String) : String :=
  match names.map (fun name => "`" ++ name ++ "`") with
  | [] => "nothing"
  | [a] => a
  | [a, b] => a ++ " or " ++ b
  | names => "one of " ++ ", ".intercalate names

def Mismatch.message : Mismatch → String
  | missingField name => s!"missing field `{name}`"
  | unknownField name [] => s!"unknown field `{name}`, there are no fields"
  | unknownField name known => s!"unknown field `{name}`, expected {oneOf known}"
  | unknownVariant name [] => s!"unknown variant `{name}`, there are no variants"
  | unknownVariant name known => s!"unknown variant `{name}`, expected {oneOf known}"
  | invalidType found expected => s!"invalid type: {found}, expected {expected}"
  | invalidValue found expected => s!"invalid value: {found}, expected {expected}"
  | invalidLength length expected => s!"invalid length {length}, expected {expected}"
  | refused text => text

/-- How a value is called in a message. -/
def found : Json → String
  | .null => "null"
  | .bool true => "boolean `true`"
  | .bool false => "boolean `false`"
  | .number (.integer i) => s!"integer `{i}`"
  | .number (.float x) => s!"floating point `{Decimal.spelled x}`"
  | .string s => "string " ++ Text.quoted s
  | .array _ => "sequence"
  | .object _ => "map"

abbrev Decoder (α : Type) := Json → Except Mismatch α

def wrongType {α : Type} (v : Json) (expected : String) : Except Mismatch α :=
  .error (.invalidType v.found expected)

variable {α β : Type}

def anything : Decoder Json := .ok

def text : Decoder String
  | .string s => .ok s
  | v => wrongType v "a string"

def boolean : Decoder Bool
  | .bool b => .ok b
  | v => wrongType v "a boolean"

/-- A whole number that fits into 64 bits with sign. -/
def int64 : Decoder Int
  | v@(.number (.integer i)) =>
    if -(Nat.pow 2 63 : Int) ≤ i ∧ i < Nat.pow 2 63 then .ok i
    else .error (.invalidValue v.found "i64")
  | v => wrongType v "i64"

def nullable (d : Decoder α) : Decoder (Option α)
  | .null => .ok none
  | v => (d v).map some

def listOf (d : Decoder α) : Decoder (List α)
  | .array items => items.mapM d
  | v => wrongType v "a sequence"

def dictEntries (d : Decoder α) (members : List (String × Json)) :
    Except Mismatch (List (String × α)) :=
  members.mapM fun m => (d m.2).map (m.1, ·)

def dictOf (d : Decoder α) : Decoder (Dict α)
  | .object members => (dictEntries d members).map Dict.ofList
  | v => wrongType v "a map"

/-- One of several names, given as a text, or as the only member of an object with null in it. -/
def variant (options : List (String × α)) : Decoder α
  | .string s => pick s
  | .object [(k, v)] => do
    let a ← pick k
    match v with
    | .null => .ok a
    | v => wrongType v "unit"
  | v@(.object _) => .error (.invalidValue v.found "map with a single key")
  | v => wrongType v "string or map"
where
  pick (s : String) : Except Mismatch α :=
    match options.lookup s with
    | some a => .ok a
    | none => .error (.unknownVariant s (options.map (·.1)))

/-! ## Records -/

/-- The members of a record in visiting order. -/
structure Fields where
  names : List String
  members : List (String × Json)
  /-- Whether the record was given as an array. -/
  byPosition : Bool

/-- The fault of one member, or of a field that is not there. -/
inductive Fields.Failure where
  | at (index : Nat) (fault : Mismatch)
  | absent (fault : Mismatch)

/-- Of two faults of one record the one to report. -/
def Fields.Failure.first : Failure → Failure → Failure
  | .at i f, .at j g => if j < i then .at j g else .at i f
  | .at i f, .absent _ => .at i f
  | .absent _, .at j g => .at j g
  | .absent f, .absent _ => .absent f

def Fields.Failure.fault : Failure → Mismatch
  | .at _ f => f
  | .absent f => f

structure FieldReader (α : Type) where
  run : Fields → Except Fields.Failure α

namespace FieldReader

/-- Reads both; of two faults the earlier is reported. -/
def both (f : FieldReader (α → β)) (a : FieldReader α) : FieldReader β where
  run fields :=
    match f.run fields, a.run fields with
    | .ok f, .ok a => .ok (f a)
    | .error e, .ok _ => .error e
    | .ok _, .error e => .error e
    | .error e, .error e' => .error (e.first e')

instance : Applicative FieldReader where
  pure a := ⟨fun _ => .ok a⟩
  seq f a := f.both (a ())

/-- A field, with what stands for it when it is absent. -/
def field (name : String) (d : Decoder α) (absent : Fields → Except Mismatch α) :
    FieldReader α where
  run fields :=
    match fields.members.findIdx? (·.1 == name) with
    | none => (absent fields).mapError .absent
    | some i =>
      match fields.members[i]? with
      | none => (absent fields).mapError .absent
      | some (_, v) => (d v).mapError (.at i)

def tooShort (type name : String) (fields : Fields) : Mismatch :=
  .invalidLength (fields.names.findIdx (· == name))
    s!"struct {type} with {fields.names.length} elements"

def required (type name : String) (d : Decoder α) : FieldReader α :=
  field name d fun fields =>
    .error (if fields.byPosition then tooShort type name fields else .missingField name)

/-- A field that may be null, and may be left out of an object but not out of an array. -/
def nullableField (type name : String) (d : Decoder α) : FieldReader (Option α) :=
  field name (nullable d) fun fields =>
    if fields.byPosition then .error (tooShort type name fields) else .ok none

def defaulted (name : String) (d : Decoder α) (default : α) : FieldReader α :=
  field name d fun _ => .ok default

/-- A field that may be left out or null. -/
def optional (name : String) (d : Decoder α) : FieldReader (Option α) :=
  defaulted name (nullable d) none

def noOthers : FieldReader Unit where
  run fields :=
    match fields.members.findIdx? (fun m => !fields.names.contains m.1) with
    | none => .ok ()
    | some i =>
      .error (.at i (.unknownField ((fields.members[i]?.map (·.1)).getD "") fields.names))

end FieldReader

def record (type : String) (names : List String) (r : FieldReader α) : Decoder α
  | .object members => (r.run ⟨names, members, false⟩).mapError (·.fault)
  | .array items => do
    let a ← (r.run ⟨names, names.zip items, true⟩).mapError (·.fault)
    if names.length < items.length then
      .error (.invalidLength items.length "fewer elements in array")
    else .ok a
  | v => wrongType v s!"struct {type}"

/-- Refuses objects in which one of the named members stands twice. -/
def withoutRepeats (names : List String) (d : Decoder α) : Decoder α
  | .object members =>
    match names.find? fun name => 1 < (members.filter (·.1 == name)).length with
    | some name => .error (.refused s!"duplicate field `{name}`")
    | none => d (.object members)
  | v => d v

/-- An object of which the reader takes what it knows; called `expected` where there is none. -/
def openRecord (expected : String) (r : FieldReader α) : Decoder α
  | .object members => (r.run ⟨[], members, false⟩).mapError (·.fault)
  | v => wrongType v expected

end StackKeeper.Json

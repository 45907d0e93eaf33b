import RandomCodes.Configuration.Writer
import RandomCodes.Json.Reader
import RandomCodes.Json.Writer
import RandomCodes.Text.Quoted
/-!
# Reading configurations

A configuration is an object whose member `kind` says which fields the others are, or an array that
begins with the kind. The text is read from the left. A kind that cannot be used stops reading where
it stands; the other members are kept until the object ends, for the kind may come last. Text behind
the value is looked at last.

A configuration is put together from values for its fields, given by name in any order or one after
the other. Every value is checked when it is given; what is missing shows at the end.
-/

namespace RandomCodes.Configuration

inductive Found where
  | integer (value : Int)
  | fractional (value : Float)
  | string (text : Text)
  | boolean (value : Bool)
  | null
  | sequence
  | map

def Found.ofValue : Json.Value → Found
  | .null => null
  | .boolean value => boolean value
  | .number (.whole value) => integer value
  | .number (.fractional value) => fractional value
  | .string text => string text
  | .array _ => sequence
  | .object _ => map

def Found.toText : Found → String
  | integer value => s!"integer `{value}`"
  | fractional value => s!"floating point `{String.ofList (Json.fractionText value)}`"
  | string text => s!"string {String.ofList text.quoted}"
  | boolean value => s!"boolean `{value}`"
  | null => "null"
  | sequence => "sequence"
  | map => "map"

inductive Expected where
  | unsigned
  | boolean
  | string
  | kindName
  | nameOrMap
  | oneMember
  | nothing
  | configuration
  | fieldsOf (kind : Kind)
  | items (count : Nat)
deriving DecidableEq, Repr

def elementCount (count : Nat) : String :=
  if count = 1 then "1 element" else s!"{count} elements"

def Expected.toText : Expected → String
  | unsigned => "usize"
  | boolean => "a boolean"
  | string => "a string"
  | kindName => "variant identifier"
  | nameOrMap => "string or map"
  | oneMember => "map with a single key"
  | nothing => "unit"
  | configuration => "internally tagged enum GeneratorConfig"
  | fieldsOf kind =>
      s!"struct variant GeneratorConfig::{kind.title} with {elementCount kind.fields.length}"
  | items count => s!"{elementCount count} in sequence"

inductive Misfit where
  | missingField (name : String)
  | duplicateField (name : String)
  | unknownField (name : Text) (known : List String)
  | unknownChoice (name : Text) (known : List String)
  | wrongType (found : Found) (expected : Expected)
  | wrongValue (found : Found) (expected : Expected)
  | wrongLength (length : Nat) (expected : Expected)

def oneOf (names : List String) : String :=
  let quoted := names.map fun name => s!"`{name}`"
  match quoted with
  | [only] => only
  | [first, second] => s!"{first} or {second}"
  | _ => "one of " ++ ", ".intercalate quoted

def Misfit.message : Misfit → String
  | missingField name => s!"missing field `{name}`"
  | duplicateField name => s!"duplicate field `{name}`"
  | unknownField name known =>
      s!"unknown field `{String.ofList name}`, expected {oneOf known}"
  | unknownChoice name known =>
      s!"unknown variant `{String.ofList name}`, expected {oneOf known}"
  | wrongType found expected => s!"invalid type: {found.toText}, expected {expected.toText}"
  | wrongValue found expected => s!"invalid value: {found.toText}, expected {expected.toText}"
  | wrongLength length expected => s!"invalid length {length}, expected {expected.toText}"

def refuse {α : Type} (value : Json.Value) (expected : Expected) : Except Misfit α :=
  .error (.wrongType (.ofValue value) expected)

def lengthOf : Json.Value → Except Misfit UInt64
  | .number (.whole value) =>
      if value < 0 then .error (.wrongValue (.integer value) .unsigned)
      else .ok (UInt64.ofNat value.toNat)
  | other => refuse other .unsigned

def boolOf : Json.Value → Except Misfit Bool
  | .boolean value => .ok value
  | other => refuse other .boolean

def textOf : Json.Value → Except Misfit Text
  | .string text => .ok text
  | other => refuse other .string

def letterCaseNamed (name : Text) : Except Misfit LetterCase :=
  match LetterCase.ofName? (String.ofList name) with
  | some letterCase => .ok letterCase
  | none => .error (.unknownChoice name (LetterCase.all.map LetterCase.name))

/-- A value that says nothing: the absent value, or an object without members. -/
def nothingOf : Json.Value → Except Misfit Unit
  | .null => .ok ()
  | .object [] => .ok ()
  | other => refuse other .nothing

/-- A letter case: its name, or an object whose one member has that name and says nothing. -/
def letterCaseOf : Json.Value → Except Misfit LetterCase
  | .string name => letterCaseNamed name
  | .object [(name, content)] => do
      let letterCase ← letterCaseNamed name
      nothingOf content
      return letterCase
  | .object _ => .error (.wrongValue .map .oneMember)
  | other => refuse other .nameOrMap

/-- The values given so far. -/
structure Settings where
  length : Option UInt64 := none
  noLeadingZero : Option Bool := none
  letterCase : Option LetterCase := none
  characters : Option Text := none
  pattern : Option Text := none
deriving DecidableEq, Repr

namespace Settings

/-- Whether a field has been given a value. -/
def has (settings : Settings) : Field → Bool
  | .length => settings.length.isSome
  | .noLeadingZero => settings.noLeadingZero.isSome
  | .letterCase => settings.letterCase.isSome
  | .characters => settings.characters.isSome
  | .pattern => settings.pattern.isSome

def give (settings : Settings) (field : Field) (value : Json.Value) : Except Misfit Settings :=
  match field with
  | .length => return { settings with length := some (← lengthOf value) }
  | .noLeadingZero => return { settings with noLeadingZero := some (← boolOf value) }
  | .letterCase => return { settings with letterCase := some (← letterCaseOf value) }
  | .characters => return { settings with characters := some (← textOf value) }
  | .pattern => return { settings with pattern := some (← textOf value) }

/-- Takes a member of an object, which has to be a field of the kind and new. -/
def giveMember (kind : Kind) (settings : Settings) (member : Text × Json.Value) :
    Except Misfit Settings :=
  match kind.field? (String.ofList member.1) with
  | none => .error (.unknownField member.1 (kind.fields.map Field.name))
  | some field =>
      if settings.has field then .error (.duplicateField field.name)
      else settings.give field member.2

/-- The value of a field that has none of its own accord. -/
def required {α : Type} (missing : Field → Misfit) (field : Field) (value : Option α) :
    Except Misfit α :=
  match value with
  | some value => .ok value
  | none => .error (missing field)

/-- The configuration of a kind with these settings. Zeros may lead and letters have both cases
unless something else was said. -/
def complete (settings : Settings) (missing : Field → Misfit) :
    Kind → Except Misfit Configuration
  | .digits =>
      return .digits (← required missing .length settings.length)
        (settings.noLeadingZero.getD false)
  | .letters =>
      return .letters (← required missing .length settings.length)
        (settings.letterCase.getD .mixed)
  | .word => return .word (← required missing .length settings.length)
  | .charset =>
      return .charset (← required missing .length settings.length)
        (← required missing .characters settings.characters)
  | .pattern => return .pattern (← required missing .pattern settings.pattern)

end Settings

/-- The configuration of a kind whose fields are given as members. -/
def ofMembers (kind : Kind) (members : List (Text × Json.Value)) :
    Except Misfit Configuration := do
  let settings ← members.foldlM (Settings.giveMember kind) {}
  settings.complete (fun field => .missingField field.name) kind

/-- The configuration of a kind whose fields are given one after the other. -/
def ofItems (kind : Kind) (items : List Json.Value) : Except Misfit Configuration := do
  let settings ← (kind.fields.zip items).foldlM
    (fun settings (field, value) => settings.give field value) ({} : Settings)
  let configuration ←
    settings.complete (fun _ => .wrongLength items.length (.fieldsOf kind)) kind
  if kind.fields.length < items.length then
    .error (.wrongLength items.length (.items kind.fields.length))
  return configuration

/-- Why a text could not be read. -/
abbrev ReadError := Json.Failure Misfit

abbrev Reader := Json.Reader Misfit

namespace Reader

open Json.Reader

/-- Stops because a value does not fit. -/
def unfit {α : Type} (misfit : Misfit) : Reader α :=
  throw (.unfit misfit)

/-- Goes on with what fits. -/
def fitting {α : Type} : Except Misfit α → Reader α
  | .ok value => pure value
  | .error misfit => unfit misfit

/-- The nesting that is left for a value inside the outermost brackets. -/
def innerDepth : Nat := Json.greatestDepth - 1

/-- The name of a kind. Of an array or object nothing is read but its opening bracket. -/
def kind : Reader Kind := do
  match ← peek? with
  | some '[' => unfit (.wrongType .sequence .kindName)
  | some '{' => unfit (.wrongType .map .kindName)
  | _ =>
      match ← value 0 with
      | .string name =>
          match Kind.ofName? (String.ofList name) with
          | some kind => return kind
          | none => unfit (.unknownChoice name (Kind.all.map Kind.name))
      | other => unfit (.wrongType (.ofValue other) .kindName)

/-- The members of an object read so far. -/
structure Members where
  kind : Option Kind := none
  latestFirst : List (Text × Json.Value) := []

/-- One more member. A second kind is refused before its value is read. -/
def member (members : Members) : Reader Members := do
  let name ← memberName
  if String.ofList name = kindName then
    if members.kind.isSome then unfit (.duplicateField kindName)
    colon
    return { members with kind := some (← kind) }
  else
    colon
    return { members with latestFirst := (name, ← value innerDepth) :: members.latestFirst }

def object : Reader Configuration := do
  expect '{'
  let members ← entries '}' member {}
  match members.kind with
  | none => unfit (.missingField kindName)
  | some kind => fitting (ofMembers kind members.latestFirst.reverse)

/-- The items of an array read so far. -/
structure Items where
  kind : Option Kind := none
  latestFirst : List Json.Value := []

/-- One more item. -/
def item (items : Items) : Reader Items := do
  match items.kind with
  | none => return { items with kind := some (← kind) }
  | some _ => return { items with latestFirst := (← value innerDepth) :: items.latestFirst }

def array : Reader Configuration := do
  expect '['
  let items ← entries ']' item {}
  match items.kind with
  | none => unfit (.missingField kindName)
  | some kind => fitting (ofItems kind items.latestFirst.reverse)

def configuration : Reader Configuration := do
  match ← peek? with
  | some '{' => object
  | some '[' => array
  | _ => unfit (.wrongType (.ofValue (← value 0)) .configuration)

end Reader

def ofJson (text : Text) : Except ReadError Configuration := do
  let (configuration, rest) ← Reader.configuration.run text
  let ((), _) ← (Json.Reader.atEnd : Reader Unit).run rest
  return configuration

/-- The reason for which a value did not fit, in words; nothing is said of text that is not JSON. -/
def ReadError.message? : ReadError → Option String
  | .malformed => none
  | .unfit misfit => some misfit.message

end RandomCodes.Configuration

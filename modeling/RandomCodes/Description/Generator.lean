import RandomCodes.Configuration.Writer
import RandomCodes.Text.Quoted
/-!
# Descriptions of generators and configurations

A description shows on one line how a value is put together: a name with its fields, a list, a text
in quotes or a plain word. Parts that are not shown are hinted at by two dots.
-/

namespace RandomCodes

/-- How a value is put together. -/
inductive Description where
  | word (text : String)
  | quoted (text : Text)
  | list (items : List Description)
  | record (name : String) (fields : List (String × Description))
  | partialRecord (name : String) (fields : List (String × Description))

namespace Description

/-- Parts between braces, if there are any. -/
def braced (name : String) (parts : List String) : String :=
  if parts.isEmpty then name
  else
    name ++ String.ofList [' ', '{', ' '] ++ ", ".intercalate parts ++ String.ofList [' ', '}']

mutual

/-- A description on one line. -/
def render : Description → String
  | word text => text
  | quoted text => String.ofList text.quoted
  | list items => "[" ++ ", ".intercalate (renderItems items) ++ "]"
  | record name fields => braced name (renderFields fields)
  | partialRecord name fields => braced name (renderFields fields ++ [".."])

def renderItems : List Description → List String
  | [] => []
  | item :: items => item.render :: renderItems items

/-- The fields of a record, each with its name. -/
def renderFields : List (String × Description) → List String
  | [] => []
  | (name, value) :: fields => (name ++ ": " ++ value.render) :: renderFields fields

end

def number (value : Nat) : Description :=
  word (toString value)

def truth (value : Bool) : Description :=
  word (toString value)

end Description

namespace Pattern

def describeStages : Description :=
  .list (Stage.all.map fun stage => .quoted stage.name.toList)

/-- An expander of patterns: its stages, without the source it draws from. -/
def describeExpander : Description :=
  .partialRecord "Expander" [("pipeline", describeStages)]

end Pattern

namespace Congruential

/-- A source shared by all threads, which shows nothing of its state. -/
def describeShared : Description :=
  .partialRecord "SharedRandom" []

def describeThread : Description :=
  .record "ThreadRandom" []

end Congruential

def LetterCase.describe : LetterCase → Description
  | upper => .word "Upper"
  | lower => .word "Lower"
  | mixed => .word "Mixed"

def describeFixedLength (length : Nat) (alphabet : Alphabet) : Description :=
  .record "CharsetGenerator"
    [("len", .number length), ("charset", .quoted alphabet.characters)]

/-- How a generator is put together. -/
def Generator.describe : Generator → Description
  | digits length noLeadingZero =>
      .record "DigitGenerator"
        [("inner", describeFixedLength length .digits),
          ("no_leading_zero", .truth noLeadingZero)]
  | letters length letterCase =>
      .record "LetterGenerator"
        [("inner", describeFixedLength length letterCase.alphabet),
          ("case", letterCase.describe)]
  | word length =>
      .record "WordGenerator" [("inner", describeFixedLength length .wordCharacters)]
  | charset length alphabet => describeFixedLength length alphabet
  | pattern text =>
      .record "PatternGenerator"
        [("pattern", .quoted text), ("expander", Pattern.describeExpander)]

namespace Configuration

def fieldDescriptions : Configuration → List (Field × Description)
  | digits length noLeadingZero =>
      [(.length, .number length.toNat), (.noLeadingZero, .truth noLeadingZero)]
  | letters length letterCase =>
      [(.length, .number length.toNat), (.letterCase, letterCase.describe)]
  | word length => [(.length, .number length.toNat)]
  | charset length characters =>
      [(.length, .number length.toNat), (.characters, .quoted characters)]
  | pattern text => [(.pattern, .quoted text)]

/-- How a configuration is put together. -/
def describe (configuration : Configuration) : Description :=
  .record configuration.kind.title
    (configuration.fieldDescriptions.map fun (field, value) => (field.name, value))

end Configuration

end RandomCodes

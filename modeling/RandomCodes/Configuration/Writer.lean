import RandomCodes.Json.Writer
import RandomCodes.Pattern.Stage
import RandomCodes.Text.Basic
/-!
# Generators and configurations

A generator makes one code after the other. A code has a fixed length and is drawn from an
alphabet, or it is an expansion of a pattern.

A configuration names a kind of generator and its settings. It may come from anywhere, so its
alphabet may turn out to be empty when a generator is built from it. It is written as an object: its
kind first and then all its fields, also those that could be left out.
-/

namespace RandomCodes

/-- A way to make codes. -/
inductive Generator where
  /-- Decimal digits, the first one drawn again where a zero may not lead. -/
  | digits (length : Nat) (noLeadingZero : Bool)
  | letters (length : Nat) (letterCase : LetterCase)
  | word (length : Nat)
  | charset (length : Nat) (alphabet : Alphabet)
  | pattern (text : Text)
deriving DecidableEq, Repr

namespace Generator

def fixedLength (length : Nat) (alphabet : Alphabet) : Draws Text :=
  Draws.collect length alphabet.draw

/-- Replaces a zero in front by another digit and leaves everything else alone. -/
def redrawLeadingZero : Text → Draws Text
  | '0' :: rest => return (← Alphabet.nonzeroDigits.draw) :: rest
  | code => return code

def generate : Generator → Draws Text
  | digits length noLeadingZero => do
      let code ← fixedLength length .digits
      if noLeadingZero then redrawLeadingZero code else return code
  | letters length letterCase => fixedLength length letterCase.alphabet
  | word length => fixedLength length .wordCharacters
  | charset length alphabet => fixedLength length alphabet
  | pattern text => Pattern.expand text

end Generator

/-- A kind of generator and its settings. Lengths are machine words. -/
inductive Configuration where
  | digits (length : UInt64) (noLeadingZero : Bool)
  | letters (length : UInt64) (letterCase : LetterCase)
  | word (length : UInt64)
  | charset (length : UInt64) (characters : Text)
  | pattern (text : Text)
deriving DecidableEq, Repr

/-- Why no generator can be built. -/
inductive BuildError where
  | emptyAlphabet
deriving DecidableEq, Repr

def BuildError.message : BuildError → String
  | emptyAlphabet => "alphabet must contain at least one character"

def Configuration.build : Configuration → Except BuildError Generator
  | digits length noLeadingZero => .ok (.digits length.toNat noLeadingZero)
  | letters length letterCase => .ok (.letters length.toNat letterCase)
  | word length => .ok (.word length.toNat)
  | charset length characters =>
      match Alphabet.ofList? characters with
      | some alphabet => .ok (.charset length.toNat alphabet)
      | none => .error .emptyAlphabet
  | pattern text => .ok (.pattern text)

namespace Configuration

/-- A setting of a generator. -/
inductive Field where
  | length
  | noLeadingZero
  | letterCase
  | characters
  | pattern
deriving DecidableEq, Repr

def Field.name : Field → String
  | length => "length"
  | noLeadingZero => "no_leading_zero"
  | letterCase => "case"
  | characters => "charset"
  | pattern => "pattern"

/-- A kind of generator. -/
inductive Kind where
  | digits
  | letters
  | word
  | charset
  | pattern
deriving DecidableEq, Repr

namespace Kind

def all : List Kind := [digits, letters, word, charset, pattern]

def name : Kind → String
  | digits => "digits"
  | letters => "letters"
  | word => "word"
  | charset => "charset"
  | pattern => "pattern"

def title : Kind → String
  | digits => "Digits"
  | letters => "Letters"
  | word => "Word"
  | charset => "Charset"
  | pattern => "Pattern"

def ofName? (name : String) : Option Kind :=
  all.find? fun kind => kind.name == name

/-- The fields of a kind, in order. -/
def fields : Kind → List Field
  | digits => [.length, .noLeadingZero]
  | letters => [.length, .letterCase]
  | word => [.length]
  | charset => [.length, .characters]
  | pattern => [.pattern]

def field? (kind : Kind) (name : String) : Option Field :=
  kind.fields.find? fun field => field.name == name

end Kind

/-- The name of the member that says which kind a configuration is of. -/
def kindName : String := "kind"

def kind : Configuration → Kind
  | digits _ _ => .digits
  | letters _ _ => .letters
  | word _ => .word
  | charset _ _ => .charset
  | pattern _ => .pattern

def fieldText (field : Field) (value : Text) : Text × Text :=
  (field.name.toList, value)

def lengthText (length : UInt64) : Text × Text :=
  fieldText .length (Text.decimal length.toNat)

/-- The fields of a configuration with their values written. -/
def fieldTexts : Configuration → List (Text × Text)
  | digits length noLeadingZero =>
      [lengthText length, fieldText .noLeadingZero (Json.boolText noLeadingZero)]
  | letters length letterCase =>
      [lengthText length, fieldText .letterCase (Json.quote letterCase.name.toList)]
  | word length => [lengthText length]
  | charset length characters =>
      [lengthText length, fieldText .characters (Json.quote characters)]
  | pattern text => [fieldText .pattern (Json.quote text)]

def toJson (configuration : Configuration) : Text :=
  Json.objectText
    ((kindName.toList, Json.quote configuration.kind.name.toList) :: configuration.fieldTexts)

end Configuration

end RandomCodes

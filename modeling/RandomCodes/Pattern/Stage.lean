import RandomCodes.Draws.Basic
import RandomCodes.Pattern.Quantifier
import RandomCodes.Pattern.Scanning
import RandomCodes.Text.Basic
/-!
# Expansion in stages

A pattern becomes a text in ten stages. Each stage goes over the whole text and removes one kind of
construct; whatever no stage recognises stays in the text as it is.

Parentheses hold branches, one of which is chosen. An alternation ends at the nearest `)` on its
line. Alternations do not nest: a second `(` inside is read as `)`. Square brackets hold the
characters of which one is chosen, written one by one or as ranges. Ranges are spelled out over the
whole text before any class is resolved. A backslash with `w` stands for a lower-case letter, one
with `d` for a digit, and a dot that is not escaped for a printable character.
-/

namespace RandomCodes.Pattern

namespace Alternation

/-- The characters at which the search for the end of an alternation stops. -/
def stops : List Char := [')', '\n']

/-- The text between `(` and the nearest `)` on the same line, which may be empty. -/
def body : Bracketed Text where
  opening := '('
  accept start stop :=
    if stop.symbol = ')' then
      some (start.rest.take (stop.position - start.position), stop.next)
    else none

def branches (body : Text) : List Text :=
  Text.split '|' (body.map fun symbol => if symbol = '(' then ')' else symbol)

def choose (body : Text) : Draws Text := do
  return (← Draws.sample? (branches body)).getD []

def pieces (text : Text) : List (Piece Text) :=
  body.pieces stops text

end Alternation

/-- Replaces every alternation by one of its branches. -/
def resolveAlternation (text : Text) : Draws Text :=
  render Alternation.choose (Alternation.pieces text)

namespace CharacterClass

inductive Element where
  | literal (symbol : Char)
  /-- All characters from `low` to `high`. -/
  | range (low high : Char)
deriving DecidableEq, Repr

/-- All characters from `low` to `high` in code order; none if they are reversed. Code points that
are no characters are passed over. -/
def charactersBetween (low high : Char) : List Char :=
  (List.range' low.toNat (high.toNat + 1 - low.toNat)).filterMap fun code =>
    if valid : code.isValidChar then some (Char.ofNatAux code valid) else none

def Element.members : Element → List Char
  | .literal symbol => [symbol]
  | .range low high => charactersBetween low high

/-- The letters, digits and the underscore, which can bound a range. -/
def isWord (symbol : Char) : Bool :=
  symbol.isAlphanum || symbol == '_'

/-- Two word characters with a dash between them, or else any one character. -/
def element : Recogniser Element := fun cursor =>
  match cursor.rest with
  | [] => none
  | low :: '-' :: high :: _ =>
      if isWord low && isWord high then some (.range low high, cursor.advance 3)
      else some (.literal low, cursor.advance 1)
  | symbol :: _ => some (.literal symbol, cursor.advance 1)

/-- The entries of a body, read greedily from the left. -/
def elements (body : Text) : List Element :=
  (element.pieces body).filterMap Piece.value?

/-- The characters at which a class ends. -/
def stops : List Char := [']']

/-- The text between the brackets of a class, which is never empty. -/
def body : Bracketed Text where
  opening := '['
  accept start stop :=
    if stop.position = start.position then none
    else some (start.rest.take (stop.position - start.position), stop.next)

def pieces (text : Text) : List (Piece Text) :=
  body.pieces stops text

def spellOut (body : Text) : Text :=
  '[' :: (elements body).flatMap Element.members ++ [']']

def choose (body : Text) : Draws Text := do
  return (← Draws.sample? body).toList

end CharacterClass

def expandClassRanges (text : Text) : Text :=
  Id.run (render (fun body => pure (CharacterClass.spellOut body)) (CharacterClass.pieces text))

/-- Replaces every class by one of its characters. -/
def resolveClasses (text : Text) : Draws Text :=
  render CharacterClass.choose (CharacterClass.pieces text)

/-- A character that stands, behind a backslash, for any member of an alphabet. -/
inductive Shorthand where
  | letter
  | digit
deriving DecidableEq, Repr

namespace Shorthand

/-- The shorthands in the order in which they are resolved. -/
def all : List Shorthand := [letter, digit]

/-- The character behind the backslash. -/
def symbol : Shorthand → Char
  | letter => 'w'
  | digit => 'd'

def alphabet : Shorthand → Alphabet
  | letter => .lowercase
  | digit => .digits

/-- A backslash with a given character behind it. -/
def recogniser (symbol : Char) : Recogniser Unit := do
  Recogniser.char '\\'
  Recogniser.char symbol

def pieces (shorthand : Shorthand) (text : Text) : List (Piece Unit) :=
  (recogniser shorthand.symbol).pieces text

def resolve (shorthand : Shorthand) (text : Text) : Draws Text :=
  render (fun _ => return [← shorthand.alphabet.draw]) (shorthand.pieces text)

end Shorthand

/-- Replaces all shorthands, one kind after the other. -/
def resolveShorthands (text : Text) : Draws Text :=
  Shorthand.all.foldlM (fun text shorthand => shorthand.resolve text) text

namespace Wildcard

/-- The first character that a wildcard can stand for. -/
def first : Char := '!'

/-- The last character that a wildcard can stand for. -/
def last : Char := '~'

/-- Draws a printable character other than the backslash: the codes from that of the backslash on
are moved up by one. -/
def draw : Draws Char := do
  let code := first.toNat + (← Draws.index (last.toNat - first.toNat))
  return Char.ofNat (if code < '\\'.toNat then code else code + 1)

end Wildcard

/-- Replaces every dot that is not escaped. -/
def resolveWildcards (text : Text) : Draws Text :=
  replaceUnescaped '.' (return [← Wildcard.draw]) text

/-- Drops the delimiters of a pattern: a slash and then a caret in front, a slash and then a dollar
sign at the end. -/
def stripDelimiters (text : Text) : Text :=
  let text := Text.dropFirst '^' (Text.dropFirst '/' text)
  Text.dropLast '$' (Text.dropLast '/' text)

inductive Stage where
  | stripDelimiters
  | normalizeFixedCounts
  | expandMarkers
  | repeatQuantified
  | resolveAlternation
  | expandClassRanges
  | resolveClasses
  | resolveShorthands
  | resolveWildcards
  | stripEscapes
deriving DecidableEq, Repr

namespace Stage

/-- The stages in the order in which they run. -/
def all : List Stage :=
  [stripDelimiters, normalizeFixedCounts, expandMarkers, repeatQuantified, resolveAlternation,
    expandClassRanges, resolveClasses, resolveShorthands, resolveWildcards, stripEscapes]

/-- The name under which a stage is known. -/
def name : Stage → String
  | stripDelimiters => "strip-delimiters"
  | normalizeFixedCounts => "normalize-fixed-counts"
  | expandMarkers => "expand-markers"
  | repeatQuantified => "repeat-quantified"
  | resolveAlternation => "resolve-alternation"
  | expandClassRanges => "expand-class-ranges"
  | resolveClasses => "resolve-classes"
  | resolveShorthands => "resolve-shorthands"
  | resolveWildcards => "resolve-wildcards"
  | stripEscapes => "strip-escapes"

def ofName? (name : String) : Option Stage :=
  all.find? fun stage => stage.name == name

def apply : Stage → Text → Draws Text
  | stripDelimiters, text => pure (Pattern.stripDelimiters text)
  | normalizeFixedCounts, text => pure (Pattern.normalizeFixedCounts text)
  | expandMarkers, text => Pattern.expandMarkers text
  | repeatQuantified, text => Pattern.repeatQuantified text
  | resolveAlternation, text => Pattern.resolveAlternation text
  | expandClassRanges, text => pure (Pattern.expandClassRanges text)
  | resolveClasses, text => Pattern.resolveClasses text
  | resolveShorthands, text => Pattern.resolveShorthands text
  | resolveWildcards, text => Pattern.resolveWildcards text
  | stripEscapes, text => pure (Pattern.stripEscapes text)

end Stage

/-- One text for a pattern: the stages, one after the other. -/
def expand (pattern : Text) : Draws Text :=
  Stage.all.foldlM (fun text stage => stage.apply text) pattern

end RandomCodes.Pattern

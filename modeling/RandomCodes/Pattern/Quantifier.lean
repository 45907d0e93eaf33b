import RandomCodes.Draws.Basic
import RandomCodes.Pattern.Scanning
/-!
# Quantifiers and repetition

A quantifier bounds how often an atom is repeated. It is written out in full as two numbers in
braces, as one number in braces where both are equal, or as one of three markers. Two of the markers
set no upper bound; each occurrence of those gets one drawn for it, which then holds for all copies
of the text around it. A marker counts as one unless it is escaped: a backslash takes the meaning
from the character behind it, and a backslash that is itself escaped takes none.

An atom with a quantifier right behind it is replaced by a drawn number of copies of its text. A
group or class ends at its first closing bracket and has at least one character inside. Groups are
repeated before classes and classes before single characters, so that no closing bracket is taken
for a character to repeat.
-/

namespace RandomCodes.Pattern

/-- How often something is repeated: any number of times from `least` to `most`. -/
structure Quantifier where
  least : Nat
  most : Nat
deriving DecidableEq, Repr

namespace Quantifier

/-- Counts above this one are cut down to it. -/
def greatestCount : Nat := 1000

/-- From `first` to `second` copies; reversed bounds make no quantifier. -/
def between? (first second : Nat) : Option Quantifier :=
  if first ≤ second then
    some { least := min first greatestCount, most := min second greatestCount }
  else none

/-- Exactly `count` copies. -/
def exactly (count : Nat) : Quantifier :=
  { least := min count greatestCount, most := min count greatestCount }

def toText (quantifier : Quantifier) : Text :=
  '{' :: Text.decimal quantifier.least ++ ',' :: Text.decimal quantifier.most ++ ['}']

/-- Draws a number of copies. -/
def pick (quantifier : Quantifier) : Draws Nat :=
  Draws.between quantifier.least quantifier.most

/-- A quantifier written out in full. -/
def recogniser : Recogniser Quantifier := do
  Recogniser.char '{'
  let first ← Recogniser.number
  Recogniser.char ','
  let second ← Recogniser.number
  Recogniser.char '}'
  between? first second

end Quantifier

/-- A single number in braces. -/
def fixedCount : Recogniser Nat := do
  Recogniser.char '{'
  let count ← Recogniser.number
  Recogniser.char '}'
  return count

/-- Writes every fixed count out as a quantifier with two equal bounds. -/
def normalizeFixedCounts (text : Text) : Text :=
  Id.run (render (fun count => pure (Quantifier.exactly count).toText) (fixedCount.pieces text))

/-- The pieces of a text when every occurrence of `marker` that is not escaped is set aside. -/
def unescapedPieces (marker : Char) (text : Text) : List (Piece Unit) :=
  go false [] text
where
  /-- Goes on after a character that has or has not escaped the next one. -/
  go (escaped : Bool) (latestFirst : List (Piece Unit)) : Text → List (Piece Unit)
    | [] => latestFirst.reverse
    | symbol :: rest =>
        if symbol == marker && !escaped then
          go false (.found [symbol] () :: latestFirst) rest
        else
          go (symbol == '\\' && !escaped) (.copied symbol :: latestFirst) rest

/-- Replaces every occurrence of `marker` that is not escaped. -/
def replaceUnescaped {m : Type → Type} [Monad m]
    (marker : Char) (replacement : m Text) (text : Text) : m Text :=
  render (fun _ => replacement) (unescapedPieces marker text)

def stripEscapes (text : Text) : Text :=
  text.filter (· != '\\')

/-- A quantifier of one character. -/
inductive Marker where
  | optional
  | zeroOrMore
  | oneOrMore
deriving DecidableEq, Repr

namespace Marker

/-- The markers in the order in which they are expanded. -/
def all : List Marker := [optional, zeroOrMore, oneOrMore]

def symbol : Marker → Char
  | optional => '?'
  | zeroOrMore => '*'
  | oneOrMore => '+'

/-- The greatest bound that is drawn where a marker sets none. -/
def greatestDrawnBound : Nat := 9

/-- The quantifier that a marker stands for, with a bound drawn if it sets none. -/
def quantifier : Marker → Draws Quantifier
  | optional => return { least := 0, most := 1 }
  | zeroOrMore => return { least := 0, most := ← Draws.between 1 greatestDrawnBound }
  | oneOrMore => return { least := 1, most := ← Draws.between 1 greatestDrawnBound }

/-- Writes every occurrence of one marker that is not escaped out as a quantifier. -/
def expand (marker : Marker) (text : Text) : Draws Text :=
  replaceUnescaped marker.symbol (Quantifier.toText <$> marker.quantifier) text

end Marker

/-- Writes all markers out as quantifiers, one kind of marker after the other. -/
def expandMarkers (text : Text) : Draws Text :=
  Marker.all.foldlM (fun text marker => marker.expand text) text

/-- From `(` to the next stop, with something in between. -/
def group : Bracketed Text where
  opening := '('
  accept body stop :=
    if stop.position = body.position then none
    else some ('(' :: body.textTo stop.next, stop.next)

/-- From `[` to the next stop, with something in between. -/
def characterClass : Bracketed Text where
  opening := '['
  accept body stop :=
    if stop.position = body.position then none
    else some ('[' :: body.textTo stop.next, stop.next)

/-- What a quantifier can stand behind. -/
inductive AtomKind where
  | group
  | characterClass
  /-- One character, with or without a backslash before it. -/
  | single
deriving DecidableEq, Repr

/-- An atom and how often it is repeated. -/
structure Repetition where
  kind : AtomKind
  /-- The text of the atom, with its brackets or its backslash. -/
  atom : Text
  quantifier : Quantifier
deriving DecidableEq, Repr

/-- The text of the copies, their number drawn. -/
def Repetition.copies (repetition : Repetition) : Draws Text := do
  let count ← repetition.quantifier.pick
  return (List.replicate count repetition.atom).flatten

/-- A span with a quantifier right behind it. The quantifier is read first, so that no text is
taken apart for a span that has none. -/
def Bracketed.repeated (bracketed : Bracketed Text) (kind : AtomKind) : Bracketed Repetition where
  opening := bracketed.opening
  accept body stop := do
    let (quantifier, behind) ← Quantifier.recogniser stop.next
    let (atom, _) ← bracketed.accept body stop
    return ({ kind, atom, quantifier }, behind)

def repeatedGroup : Bracketed Repetition := group.repeated .group

def repeatedClass : Bracketed Repetition := characterClass.repeated .characterClass

/-- A backslash and the character behind it, on one line. -/
def escapedChar : Recogniser Text := do
  Recogniser.char '\\'
  let symbol ← Recogniser.anyChar
  guard (symbol ≠ '\n')
  return ['\\', symbol]

/-- One character that does not end the line. -/
def plainChar : Recogniser Text := do
  let symbol ← Recogniser.anyChar
  guard (symbol ≠ '\n')
  return [symbol]

/-- What one recogniser for a single atom reads, with a quantifier behind it. -/
def repeatedAtom (atom : Recogniser Text) : Recogniser Repetition := do
  let atom ← atom
  let quantifier ← Quantifier.recogniser
  return { kind := .single, atom, quantifier }

/-- A single character with a quantifier. The form with a backslash is tried first, so that a
quantifier behind an escaped character repeats both. -/
def repeatedSingle : Recogniser Repetition :=
  repeatedAtom escapedChar <|> repeatedAtom plainChar

namespace AtomKind

/-- The kinds in the order in which they are repeated. -/
def all : List AtomKind := [group, characterClass, single]

/-- The characters at which a span of this kind may end. -/
def stops : AtomKind → List Char
  | group => [')']
  | characterClass => [']']
  | single => []

/-- Reads an atom of this kind with a quantifier behind it. -/
def attempt : AtomKind → Attempt StopFinder Repetition
  | group => repeatedGroup.attempt
  | characterClass => repeatedClass.attempt
  | single => fun cursor finder => (repeatedSingle cursor, finder)

/-- The pieces of a text for the atoms of this kind. -/
def pieces (kind : AtomKind) (text : Text) : List (Piece Repetition) :=
  Pattern.pieces kind.attempt { stops := kind.stops } text

/-- Repeats all atoms of this kind that have a quantifier. -/
def repeatAll (kind : AtomKind) (text : Text) : Draws Text :=
  render Repetition.copies (kind.pieces text)

end AtomKind

/-- Repeats all atoms that have a quantifier, one kind after the other. -/
def repeatQuantified (text : Text) : Draws Text :=
  AtomKind.all.foldlM (fun text kind => kind.repeatAll text) text

end RandomCodes.Pattern

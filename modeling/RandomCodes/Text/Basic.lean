import RandomCodes.Draws.Basic
/-!
# Texts and alphabets

Patterns, codes and configuration files are worked on as lists of characters. An alphabet is a list
of characters to draw from, and it is never empty. A character that is listed twice is drawn twice
as often.
-/

namespace RandomCodes

/-- A text, one character (Unicode scalar value) at a time. -/
abbrev Text := List Char

namespace Text

/-- A number in decimal notation, without leading zeros. -/
def decimal (number : Nat) : Text :=
  Nat.toDigits 10 number

/-- The number that a run of decimal digits stands for. -/
def digitsValue (digits : Text) : Nat :=
  digits.foldl (fun value digit => 10 * value + (digit.toNat - '0'.toNat)) 0

/-- The text without its first character, if that is `symbol`. -/
def dropFirst (symbol : Char) : Text → Text
  | [] => []
  | first :: rest => if first = symbol then rest else first :: rest

/-- The text without its last character, if that is `symbol`. -/
def dropLast (symbol : Char) (text : Text) : Text :=
  (dropFirst symbol text.reverse).reverse

/-- The machine word that a text stands for: decimal digits, at least one, with or without a plus
sign, and a value that fits 64 bits. -/
def toUInt64? (text : Text) : Option UInt64 :=
  let digits := dropFirst '+' text
  let value := digitsValue digits
  if !digits.isEmpty && digits.all Char.isDigit && value < UInt64.size then
    some (UInt64.ofNat value)
  else none

/-- The parts between the occurrences of `separator`; there is one part more than there are
separators. -/
def split (separator : Char) (text : Text) : List Text :=
  text.foldr extend [[]]
where
  /-- Puts one more character in front of the parts. -/
  extend (symbol : Char) : List Text → List Text
    | [] => [[symbol]]
    | part :: parts =>
        if symbol = separator then [] :: part :: parts
        else (symbol :: part) :: parts

end Text

/-- A list of characters with at least one member. -/
structure Alphabet where
  characters : List Char
  ne_nil : characters ≠ []
deriving DecidableEq, Repr

namespace Alphabet

/-- The alphabet of the characters of a text, unless there are none. -/
def ofList? (characters : List Char) : Option Alphabet :=
  if nonempty : characters ≠ [] then some { characters, ne_nil := nonempty } else none

def size (alphabet : Alphabet) : Nat :=
  alphabet.characters.length

def draw (alphabet : Alphabet) : Draws Char := do
  let position ← Draws.index alphabet.size
  return alphabet.characters.getD position (alphabet.characters.head alphabet.ne_nil)

def digits : Alphabet where
  characters := "0123456789".toList
  ne_nil := by decide

/-- The decimal digits that may stand first in a number. -/
def nonzeroDigits : Alphabet where
  characters := "123456789".toList
  ne_nil := by decide

def lowercase : Alphabet where
  characters := "abcdefghijklmnopqrstuvwxyz".toList
  ne_nil := by decide

def uppercase : Alphabet where
  characters := "ABCDEFGHIJKLMNOPQRSTUVWXYZ".toList
  ne_nil := by decide

/-- The letters of both cases, the lower ones first. -/
def letters : Alphabet where
  characters := lowercase.characters ++ uppercase.characters
  ne_nil := by decide

def wordCharacters : Alphabet where
  characters := letters.characters ++ digits.characters
  ne_nil := by decide

end Alphabet

/-- A choice of letters. -/
inductive LetterCase where
  | upper
  | lower
  | mixed
deriving DecidableEq, Repr

namespace LetterCase

def all : List LetterCase := [upper, lower, mixed]

def name : LetterCase → String
  | upper => "upper"
  | lower => "lower"
  | mixed => "mixed"

def ofName? (name : String) : Option LetterCase :=
  all.find? fun letterCase => letterCase.name == name

/-- The choice that two flags make: the upper one wins, and neither means both cases. -/
def ofFlags (upperOnly lowerOnly : Bool) : LetterCase :=
  if upperOnly then upper else if lowerOnly then lower else mixed

def alphabet : LetterCase → Alphabet
  | upper => .uppercase
  | lower => .lowercase
  | mixed => .letters

end LetterCase

end RandomCodes

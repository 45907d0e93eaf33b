import Mathlib.Data.List.Basic
import RandomCodes.Json.Reader
import RandomCodes.Json.Writer
import RandomCodes.Proofs.Pattern.QuantifierReading
/-!
# The texts that are JSON

What a JSON text can look like, said without a reader. A tree holds what a text says: strings with
their escapes undone, numbers as they are written, the members of an object in order. A tree can be
written in many ways, with blanks between the tokens and with any spelling of the characters of a
string.

What is written is JSON: quoted texts spell the characters they quote, decimal numbers are literals
without leading zeros, and members put between braces are an object.
-/

namespace RandomCodes.Json

open Pattern (Numeral)

/-- The characters that may stand between tokens. -/
def blanks : List Char := [' ', '\n', '\t', '\r']

def Blank (text : Text) : Prop :=
  ∀ symbol ∈ text, symbol ∈ blanks

/-- The hexadecimal digits, those above nine in either case, with their values. -/
def hexDigits : List (Char × Nat) :=
  "0123456789abcdef".toList.zipIdx ++ "ABCDEF".toList.zipIdx 10

/-- Four hexadecimal digits stand for a number below `2 ^ 16`. -/
inductive HexWord : Text → Nat → Prop
  | digits {first second third fourth : Char × Nat} :
      first ∈ hexDigits → second ∈ hexDigits → third ∈ hexDigits → fourth ∈ hexDigits →
      HexWord [first.1, second.1, third.1, fourth.1]
        (((first.2 * 16 + second.2) * 16 + third.2) * 16 + fourth.2)

/-- What can stand behind a backslash, and the characters it stands for there. -/
def shortEscapes : List (Char × Char) :=
  [('"', '"'), ('\\', '\\'), ('/', '/'), ('b', '\x08'), ('f', '\x0c'), ('n', '\n'), ('r', '\r'),
    ('t', '\t')]

/-- The spellings of a character inside a string. -/
inductive SpelledChar : Char → Text → Prop
  | plain {symbol : Char} :
      ' ' ≤ symbol → symbol ≠ '"' → symbol ≠ '\\' → SpelledChar symbol [symbol]
  | short {letter symbol : Char} :
      (letter, symbol) ∈ shortEscapes → SpelledChar symbol ['\\', letter]
  | code {symbol : Char} {word : Text} :
      HexWord word symbol.toNat → SpelledChar symbol ('\\' :: 'u' :: word)
  /-- A character whose code does not fit one word is written as two surrogates. -/
  | surrogates {symbol : Char} {leading trailing : Text} {high low : Nat} :
      high < 0x400 → low < 0x400 → symbol.toNat = 0x10000 + high * 0x400 + low →
      HexWord leading (0xD800 + high) → HexWord trailing (0xDC00 + low) →
      SpelledChar symbol ('\\' :: 'u' :: (leading ++ '\\' :: 'u' :: trailing))

/-- The spellings of the characters of a string, one after the other. -/
inductive SpelledText : Text → Text → Prop
  | nil : SpelledText [] []
  | cons {symbol : Char} {text front back : Text} :
      SpelledChar symbol front → SpelledText text back →
      SpelledText (symbol :: text) (front ++ back)

def stringText (spelling : Text) : Text :=
  '"' :: (spelling ++ ['"'])

/-- A power of ten behind a number. -/
structure Exponent where
  mark : Char
  sign : Option Char
  places : Numeral
  mark_mem : mark ∈ ['e', 'E']
  sign_mem : ∀ symbol ∈ sign, symbol ∈ ['+', '-']

def Exponent.text (exponent : Exponent) : Text :=
  exponent.mark :: (exponent.sign.toList ++ exponent.places.digits)

/-- A number as it is written. -/
structure NumberLiteral where
  negative : Bool
  whole : Numeral
  fraction : Option Numeral
  exponent : Option Exponent
  /-- Nothing follows a zero that stands first. -/
  noLeadingZero : whole.digits.head? = some '0' → whole.digits = ['0']

namespace NumberLiteral

def signText (literal : NumberLiteral) : Text :=
  if literal.negative then ['-'] else []

def fractionText (literal : NumberLiteral) : Text :=
  match literal.fraction with
  | some places => '.' :: places.digits
  | none => []

def exponentText (literal : NumberLiteral) : Text :=
  match literal.exponent with
  | some exponent => exponent.text
  | none => []

def text (literal : NumberLiteral) : Text :=
  literal.signText ++ (literal.whole.digits ++ (literal.fractionText ++ literal.exponentText))

/-- A whole number without sign, fraction and exponent that fits a machine word. -/
structure IsWord (literal : NumberLiteral) (word : UInt64) : Prop where
  unsigned : literal.negative = false
  noFraction : literal.fraction = none
  noExponent : literal.exponent = none
  value : literal.whole.value = word.toNat

end NumberLiteral

/-- What a JSON text says. -/
inductive Tree where
  | null
  | boolean (value : Bool)
  | number (literal : NumberLiteral)
  | string (text : Text)
  | array (items : List Tree)
  | object (members : List (Text × Tree))

/-- A value with its text and the blanks around it. -/
structure Item where
  before : Text
  tree : Tree
  text : Text
  after : Text

namespace Item

def Blank (item : Item) : Prop :=
  Json.Blank item.before ∧ Json.Blank item.after

def spelling (item : Item) : Text :=
  item.before ++ (item.text ++ item.after)

end Item

/-- A name with its spelling and the blanks around it, and the value behind the colon. -/
structure Member where
  before : Text
  name : Text
  nameSpelling : Text
  between : Text
  item : Item

namespace Member

def Blank (member : Member) : Prop :=
  Json.Blank member.before ∧ Json.Blank member.between ∧ member.item.Blank

def spelling (member : Member) : Text :=
  member.before ++
    (stringText member.nameSpelling ++ (member.between ++ ':' :: member.item.spelling))

/-- The name with what stands behind the colon. -/
def entry (member : Member) : Text × Tree :=
  (member.name, member.item.tree)

end Member

/-- What stands between two brackets, commas between the entries. Blanks may stand there alone. -/
def enclosedText (opening closing : Char) (blanks : Text) (entries : List Text) : Text :=
  opening :: (blanks ++ ([','].intercalate entries ++ [closing]))

/-- The texts of a tree. -/
inductive Written : Tree → Text → Prop
  | null : Written .null ['n', 'u', 'l', 'l']
  | true : Written (.boolean true) ['t', 'r', 'u', 'e']
  | false : Written (.boolean false) ['f', 'a', 'l', 's', 'e']
  | number (literal : NumberLiteral) : Written (.number literal) literal.text
  | string {text spelling : Text} :
      SpelledText text spelling → Written (.string text) (stringText spelling)
  | array {blanks : Text} {items : List Item} :
      Blank blanks → (∀ item ∈ items, item.Blank) →
      (∀ item ∈ items, Written item.tree item.text) →
      Written (.array (items.map Item.tree))
        (enclosedText '[' ']' blanks (items.map Item.spelling))
  | object {blanks : Text} {members : List Member} :
      Blank blanks → (∀ member ∈ members, member.Blank) →
      (∀ member ∈ members, SpelledText member.name member.nameSpelling) →
      (∀ member ∈ members, Written member.item.tree member.item.text) →
      Written (.object (members.map Member.entry))
        (enclosedText '{' '}' blanks (members.map Member.spelling))

/-- A whole text that says what a tree holds: nothing but blanks stands around the value. -/
inductive Document (tree : Tree) : Text → Prop
  | intro {before text after : Text} :
      Blank before → Written tree text → Blank after → Document tree (before ++ (text ++ after))

theorem hexDigit_mem {value : Nat} (small : value < 16) : (hexDigit value, value) ∈ hexDigits := by
  have table : ∀ value < 16, (hexDigit value, value) ∈ hexDigits := by decide
  exact table value small

theorem hexWord_of_lt {value : Nat} (small : value < 256) :
    HexWord ['0', '0', hexDigit (value / 16), hexDigit (value % 16)] value := by
  have word := HexWord.digits (hexDigit_mem (show 0 < 16 by decide))
    (hexDigit_mem (show 0 < 16 by decide)) (hexDigit_mem (show value / 16 < 16 by omega))
    (hexDigit_mem (Nat.mod_lt value (by decide)))
  have same : ((0 * 16 + 0) * 16 + value / 16) * 16 + value % 16 = value := by omega
  rw [same] at word
  exact word

theorem spelledChar_escapedChar (symbol : Char) : SpelledChar symbol (escapedChar symbol) := by
  unfold escapedChar
  split
  case h_8 noQuote noBackslash _ _ _ _ _ =>
    split
    · rename_i control
      have small : symbol.toNat < 256 := Nat.lt_trans (Char.lt_def.mp control) (by decide)
      exact .code (hexWord_of_lt small)
    · rename_i visible
      exact .plain (Char.not_lt.mp visible) noQuote noBackslash
  all_goals exact .short (by decide)

theorem spelledText_flatMap_escapedChar (text : Text) :
    SpelledText text (text.flatMap escapedChar) := by
  induction text with
  | nil => exact .nil
  | cons symbol text inductionHypothesis =>
      exact .cons (spelledChar_escapedChar symbol) inductionHypothesis

theorem written_quote (text : Text) : Written (.string text) (quote text) :=
  .string (spelledText_flatMap_escapedChar text)

theorem written_boolText (value : Bool) : Written (.boolean value) (boolText value) := by
  cases value with
  | true => exact .true
  | false => exact .false

theorem head?_decimal (number : Nat) (positive : number ≠ 0) :
    (Text.decimal number).head? ≠ some '0' := by
  induction number using Nat.strongRecOn with
  | ind number inductionHypothesis =>
      by_cases single : number < 10
      · have nonzero : ∀ digit < 10, digit ≠ 0 → [Nat.digitChar digit].head? ≠ some '0' := by
          decide
        rw [Text.decimal, Nat.toDigits_of_lt_base single]
        exact nonzero number single positive
      · have front := inductionHypothesis (number / 10) (by omega) (by omega)
        rw [Text.decimal, Nat.toDigits_of_base_le (by decide) (Nat.le_of_not_lt single),
          List.head?_append_of_ne_nil _ Nat.toDigits_ne_nil]
        exact front

/-- A number written out without sign, fraction and exponent. -/
def NumberLiteral.ofNat (number : Nat) : NumberLiteral where
  negative := false
  whole := .ofNat number
  fraction := none
  exponent := none
  noLeadingZero zero := by
    by_cases positive : number = 0
    · subst positive
      rfl
    · exact absurd zero (head?_decimal number positive)

theorem NumberLiteral.isWord_ofNat (word : UInt64) :
    (NumberLiteral.ofNat word.toNat).IsWord word where
  unsigned := rfl
  noFraction := rfl
  noExponent := rfl
  value := Numeral.value_ofNat word.toNat

theorem written_decimal (number : Nat) :
    Written (.number (.ofNat number)) (Text.decimal number) := by
  have text : (NumberLiteral.ofNat number).text = Text.decimal number :=
    List.append_nil _
  exact text ▸ .number (.ofNat number)

/-- A name and a tree with its text. -/
structure WrittenEntry where
  name : Text
  tree : Tree
  text : Text
  written : Written tree text

namespace WrittenEntry

/-- The entry as a member without blanks, its name quoted. -/
def member (entry : WrittenEntry) : Member where
  before := []
  name := entry.name
  nameSpelling := entry.name.flatMap escapedChar
  between := []
  item := { before := [], tree := entry.tree, text := entry.text, after := [] }

theorem spelling_member (entry : WrittenEntry) :
    entry.member.spelling = memberText (entry.name, entry.text) := by
  simp [member, Member.spelling, Item.spelling, stringText, memberText, quote]

theorem blank_member (entry : WrittenEntry) : entry.member.Blank := by
  simp [Member.Blank, Item.Blank, Blank, member]

end WrittenEntry

theorem document_objectText (entries : List WrittenEntry) :
    Document (.object (entries.map fun entry => (entry.name, entry.tree)))
      (objectText (entries.map fun entry => (entry.name, entry.text))) := by
  have blank : Blank [] := by simp [Blank]
  have members (member : Member) (place : member ∈ entries.map WrittenEntry.member) :
      ∃ entry : WrittenEntry, entry.member = member :=
    (List.mem_map.mp place).imp fun _ => And.right
  have written : Written (.object ((entries.map WrittenEntry.member).map Member.entry))
      (enclosedText '{' '}' []
        ((entries.map WrittenEntry.member).map Member.spelling)) := by
    refine .object blank ?_ ?_ ?_ <;> intro member place
    all_goals obtain ⟨entry, rfl⟩ := members member place
    · exact entry.blank_member
    · exact spelledText_flatMap_escapedChar entry.name
    · exact entry.written
  have text : objectText (entries.map fun entry => (entry.name, entry.text)) =
      [] ++ (enclosedText '{' '}' []
        ((entries.map WrittenEntry.member).map Member.spelling) ++ []) := by
    simp only [objectText, enclosedText, List.map_map, Function.comp_def,
      WrittenEntry.spelling_member, List.nil_append, List.append_nil, List.cons_append]
  rw [text]
  rw [List.map_map] at written
  exact .intro blank written blank

end RandomCodes.Json

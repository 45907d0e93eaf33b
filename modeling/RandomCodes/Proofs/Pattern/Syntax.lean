import Mathlib.Computability.Language
import RandomCodes.Pattern.Stage
import RandomCodes.Proofs.Pattern.QuantifierReading
/-!
# Patterns as trees, and the texts that they stand for

A supported pattern is a list of parts: an atom or a group of branches, each with or without a
quantifier behind it. An atom is a single character, a character class, or something that stands for
one character. Every tree has a text, which is how the pattern is written, and a language, which is
what it stands for as a regular expression.

The kinds of tree that occur while a pattern is expanded share most of their constructors. What a
pass has removed for good is named in the type: a quantifier in terms of the abbreviations that are
still pending, a single character in terms of the shorthands that are.

A backslash in front of every character that it can take the meaning from makes a text stand for
itself. The backslashes fall between the other characters: a run of characters that are not escaped
is found in the escaped text exactly where it is in the text.
-/

namespace RandomCodes.Pattern

/-- Something that is written as a text and stands for a set of texts. -/
class Construct (ι : Type) where
  text : ι → Text
  language : ι → Language Char

/-- One construct after the other. -/
instance {ι : Type} [Construct ι] : Construct (List ι) where
  text constructs := constructs.flatMap Construct.text
  language constructs := (constructs.map Construct.language).prod

instance {ι κ : Type} [Construct ι] [Construct κ] : Construct (ι ⊕ κ) where
  text := Sum.elim Construct.text Construct.text
  language := Sum.elim Construct.language Construct.language

/-- A way to write a quantifier other than by two bounds. -/
inductive Abbreviation where
  | fixed
  | marker (kind : Marker)

namespace Abbreviation

/-- The abbreviations in the order in which they are removed. -/
def all : List Abbreviation :=
  [.fixed, .marker .optional, .marker .zeroOrMore, .marker .oneOrMore]

end Abbreviation

/-- What stands behind an atom or a group: a quantifier, written out or in one of the abbreviations
that are still pending, or nothing. -/
inductive Mark (pending : List Abbreviation) where
  | absent
  | bounds (limits : Bounds)
  | fixed (count : Numeral) (small : count.value ≤ 1000) (allowed : .fixed ∈ pending)
  | marker (kind : Marker) (allowed : .marker kind ∈ pending)

namespace Marker

/-- A marker as it is written. -/
def spelling : Marker → Text
  | optional => ['?']
  | zeroOrMore => ['*']
  | oneOrMore => ['+']

theorem spelling_eq (kind : Marker) : kind.spelling = [kind.symbol] := by
  cases kind <;> rfl

/-- The numbers of copies that a marker stands for. -/
def Allows : Marker → Nat → Prop
  | optional, count => count ≤ 1
  | zeroOrMore, count => count ≤ 9
  | oneOrMore, count => 1 ≤ count ∧ count ≤ 9

end Marker

namespace Mark

variable {pending : List Abbreviation}

def text : Mark pending → Text
  | absent => []
  | bounds limits => limits.text
  | fixed count _ _ => fixedText count
  | marker kind _ => kind.spelling

theorem text_marker {kind : Marker} (allowed : .marker kind ∈ pending) :
    (marker kind allowed).text = [kind.symbol] :=
  kind.spelling_eq

/-- The numbers of copies that a quantifier stands for; without one there is a single copy. -/
def Allows : Mark pending → Nat → Prop
  | absent, count => count = 1
  | bounds limits, count =>
      limits.least.value ≤ count ∧ count ≤ min limits.most.value 1000
  | fixed number _ _, count => count = number.value
  | marker kind _, count => kind.Allows count

end Mark

/-- A construct with a quantifier behind it, or with none. -/
structure Marked (pending : List Abbreviation) (ι : Type) where
  base : ι
  mark : Mark pending

instance {pending : List Abbreviation} {ι : Type} [Construct ι] :
    Construct (Marked pending ι) where
  text marked := Construct.text marked.base ++ marked.mark.text
  language marked :=
    {word | ∃ count, marked.mark.Allows count ∧ word ∈ Construct.language marked.base ^ count}

/-- The characters that mean something in a pattern, and the end of a line. -/
def specialCharacters : List Char :=
  "\n\\?*+.()[]{|}^$".toList

/-- The characters whose special meaning a backslash takes away. -/
def escapableCharacters : List Char :=
  "?*+.".toList

/-- What stands for a single character; `pending` are the shorthands that may occur. -/
inductive Single (pending : List Shorthand) where
  | plain (symbol : Char) (isPlain : symbol ∉ specialCharacters)
  | escaped (symbol : Char) (escapable : symbol ∈ escapableCharacters)
  | shorthand (kind : Shorthand) (allowed : kind ∈ pending)
  | wildcard

/-- The characters that a dot stands for. -/
def Wildcard.Allows (symbol : Char) : Prop :=
  '!' ≤ symbol ∧ symbol ≤ '~' ∧ symbol ≠ '\\'

namespace Shorthand

/-- A shorthand as it is written. -/
def spelling : Shorthand → Text
  | letter => ['\\', 'w']
  | digit => ['\\', 'd']

theorem spelling_eq (kind : Shorthand) : kind.spelling = ['\\', kind.symbol] := by
  cases kind <;> rfl

/-- The characters that a shorthand stands for. -/
def Allows : Shorthand → Char → Prop
  | letter, symbol => symbol ∈ "abcdefghijklmnopqrstuvwxyz".toList
  | digit, symbol => symbol ∈ "0123456789".toList

theorem allows_iff (kind : Shorthand) (symbol : Char) :
    kind.Allows symbol ↔ symbol ∈ kind.alphabet.characters := by
  cases kind <;> rfl

end Shorthand

namespace Single

variable {pending : List Shorthand}

/-- The characters that a single character stands for. -/
def Allows : Single pending → Char → Prop
  | plain symbol _, result => result = symbol
  | escaped symbol _, result => result = symbol
  | shorthand kind _, result => kind.Allows result
  | wildcard, result => Wildcard.Allows result

instance : Construct (Single pending) where
  text
    | plain symbol _ => [symbol]
    | escaped symbol _ => ['\\', symbol]
    | shorthand kind _ => kind.spelling
    | wildcard => ['.']
  language single := {word | ∃ result, single.Allows result ∧ word = [result]}

theorem text_shorthand {kind : Shorthand} (allowed : kind ∈ pending) :
    Construct.text (shorthand kind allowed) = ['\\', kind.symbol] :=
  kind.spelling_eq

end Single

namespace CharacterClass.Element

def text : Element → Text
  | literal symbol => [symbol]
  | range low high => [low, '-', high]

def Allows : Element → Char → Prop
  | literal symbol, member => member = symbol
  | range low high, member => low ≤ member ∧ member ≤ high

/-- A character that stands for itself and is no dash, or a range within the digits, the lower-case
or the upper-case letters that is not reversed. -/
def Supported : Element → Prop
  | literal symbol => symbol ∉ specialCharacters ∧ symbol ≠ '-'
  | range low high => low ≤ high ∧
      (low.isDigit ∧ high.isDigit ∨ low.isLower ∧ high.isLower ∨ low.isUpper ∧ high.isUpper)

end CharacterClass.Element

/-- The entries of a supported class. -/
structure ClassEntries where
  elements : List CharacterClass.Element
  ne_nil : elements ≠ []
  supported : ∀ element ∈ elements, element.Supported

instance : Construct ClassEntries where
  text entries := '[' :: entries.elements.flatMap CharacterClass.Element.text ++ [']']
  language entries :=
    {word | ∃ member, (∃ element ∈ entries.elements, element.Allows member) ∧ word = [member]}

/-- Branches in parentheses; there is at least one. -/
structure Group (ι : Type) where
  first : List ι
  others : List (List ι)

namespace Group

variable {ι : Type}

def branches (group : Group ι) : List (List ι) :=
  group.first :: group.others

/-- Something is written between the parentheses. -/
def Nonblank (group : Group ι) : Prop :=
  group.first ≠ [] ∨ group.others ≠ []

def inner [Construct ι] (group : Group ι) : Text :=
  Construct.text group.first ++ group.others.flatMap fun branch => '|' :: Construct.text branch

instance [Construct ι] : Construct (Group ι) where
  text group := '(' :: group.inner ++ [')']
  language group := {word | ∃ branch ∈ group.branches, word ∈ Construct.language branch}

end Group

/-- A class or a single character. -/
abbrev Atom := ClassEntries ⊕ Single [.letter, .digit]

/-- A part of a pattern: an atom or a group, each with its quantifier. -/
inductive Part (pending : List Abbreviation) where
  | atom (atom : Marked pending Atom)
  /-- A group of branches without further groups. -/
  | group (group : Marked pending (Group (Marked pending Atom))) (nonblank : group.base.Nonblank)

instance {pending : List Abbreviation} : Construct (Part pending) where
  text
    | .atom atom => Construct.text atom
    | .group group _ => Construct.text group
  language
    | .atom atom => Construct.language atom
    | .group group _ => Construct.language group

/-- A supported pattern. -/
abbrev Body := List (Part Abbreviation.all)

/-- A pattern between a caret and a dollar sign. -/
def anchored (text : Text) : Text :=
  '^' :: text ++ ['$']

/-- A pattern between a caret and a dollar sign, and these between slashes. -/
def delimited (text : Text) : Text :=
  '/' :: anchored text ++ ['/']

/-- A character, behind a backslash if that takes a meaning from it. -/
def escapeCharacter (symbol : Char) : Text :=
  if symbol ∈ escapableCharacters then ['\\', symbol] else [symbol]

/-- The text with every character escaped that can be. -/
def escape (text : Text) : Text :=
  text.flatMap escapeCharacter

theorem escape_nil : escape [] = [] := rfl

theorem escape_cons_of_mem
    {symbol : Char} (escapable : symbol ∈ escapableCharacters) (rest : Text) :
    escape (symbol :: rest) = '\\' :: symbol :: escape rest := by
  rw [escape, List.flatMap_cons, escapeCharacter, if_pos escapable]
  rfl

theorem escape_cons_of_not_mem
    {symbol : Char} (unescaped : symbol ∉ escapableCharacters) (rest : Text) :
    escape (symbol :: rest) = symbol :: escape rest := by
  rw [escape, List.flatMap_cons, escapeCharacter, if_neg unescaped]
  rfl

theorem mem_escape_of_mem {symbol : Char} {text : Text} (member : symbol ∈ text) :
    symbol ∈ escape text := by
  refine List.mem_flatMap.mpr ⟨symbol, member, ?_⟩
  rw [escapeCharacter]
  split <;> simp

theorem ne_of_mem_escapable {symbol : Char} (escapable : symbol ∈ escapableCharacters)
    {other : Char} (unescaped : other ∉ escapableCharacters) : symbol ≠ other := by
  intro same
  exact unescaped (same ▸ escapable)

/-- Dropping all backslashes undoes the escaping of a text that has none itself. -/
theorem stripEscapes_escape {text : Text} (noEscape : '\\' ∉ text) :
    stripEscapes (escape text) = text := by
  induction text with
  | nil => rfl
  | cons symbol rest inductionHypothesis =>
      have other : symbol ≠ '\\' := fun same => noEscape (by simp [same])
      have behind : stripEscapes (escape rest) = rest :=
        inductionHypothesis fun member => noEscape (List.mem_cons_of_mem symbol member)
      rw [stripEscapes] at behind
      by_cases escapable : symbol ∈ escapableCharacters
      · rw [escape_cons_of_mem escapable, stripEscapes]
        simp [other, behind]
      · rw [escape_cons_of_not_mem escapable, stripEscapes]
        simp [other, behind]

/-- A run of characters that are not escaped begins an escaped text only where it begins the text. -/
theorem of_escape_eq_append
    {run : Text} (unescaped : ∀ symbol ∈ run, symbol ≠ '\\' ∧ symbol ∉ escapableCharacters)
    {text behind : Text} (equality : escape text = run ++ behind) :
    ∃ rest, text = run ++ rest ∧ behind = escape rest := by
  induction run generalizing text with
  | nil => exact ⟨text, rfl, equality.symm⟩
  | cons symbol run inductionHypothesis =>
      have first := unescaped symbol List.mem_cons_self
      cases text with
      | nil => cases equality
      | cons head tail =>
          by_cases escapable : head ∈ escapableCharacters
          · rw [escape_cons_of_mem escapable] at equality
            exact absurd (List.cons.inj equality).1.symm first.1
          · rw [escape_cons_of_not_mem escapable] at equality
            obtain ⟨rfl, later⟩ := List.cons.inj equality
            obtain ⟨rest, rfl, after⟩ := inductionHypothesis
              (fun member inside => unescaped member (List.mem_cons_of_mem head inside)) later
            exact ⟨rest, rfl, after⟩

/-- A character that is not escaped cuts an escaped text where it cuts the text. -/
theorem of_escape_eq_append_cons
    {symbol : Char} (noEscape : symbol ≠ '\\') (unescaped : symbol ∉ escapableCharacters)
    {text run behind : Text} (equality : escape text = run ++ symbol :: behind) :
    ∃ inner rest, text = inner ++ symbol :: rest ∧ run = escape inner ∧ behind = escape rest := by
  induction text generalizing run with
  | nil => simp [escape_nil] at equality
  | cons head tail inductionHypothesis =>
      by_cases escapable : head ∈ escapableCharacters
      · rw [escape_cons_of_mem escapable] at equality
        -- The character that cuts is neither half of an escape, so the cut is not inside one.
        match run with
        | [] => exact absurd (List.cons.inj equality).1.symm noEscape
        | [first] =>
            have second := (List.cons.inj (List.cons.inj equality).2).1
            exact absurd (second ▸ escapable) unescaped
        | first :: second :: later =>
            obtain ⟨backslash, tailEquality⟩ := List.cons.inj equality
            obtain ⟨same, laterEquality⟩ := List.cons.inj tailEquality
            obtain ⟨inner, rest, rfl, written, after⟩ := inductionHypothesis laterEquality
            refine ⟨head :: inner, rest, rfl, ?_, after⟩
            rw [escape_cons_of_mem escapable, ← written, backslash, same]
      · rw [escape_cons_of_not_mem escapable] at equality
        cases run with
        | nil =>
            obtain ⟨rfl, after⟩ := List.cons.inj equality
            exact ⟨[], tail, rfl, rfl, after.symm⟩
        | cons first later =>
            obtain ⟨same, laterEquality⟩ := List.cons.inj equality
            obtain ⟨inner, rest, rfl, written, after⟩ := inductionHypothesis laterEquality
            refine ⟨head :: inner, rest, rfl, ?_, after⟩
            rw [escape_cons_of_not_mem escapable, ← written, same]

/-- What an escaped text ends with: an escaped ending of the text, or such an ending whose first
backslash is cut off. -/
theorem suffix_escape {rest text : Text} (suffix : rest <:+ escape text) :
    (∃ inner, inner <:+ text ∧ rest = escape inner) ∨
      ∃ symbol inner, symbol ∈ escapableCharacters ∧ rest = symbol :: escape inner := by
  induction text with
  | nil =>
      have empty : rest = [] := List.suffix_nil.mp suffix
      exact .inl ⟨[], List.nil_suffix, empty⟩
  | cons head tail inductionHypothesis =>
      -- An ending of what is behind `head` is one of the whole, in either form.
      have further : rest <:+ escape tail →
          (∃ inner, inner <:+ head :: tail ∧ rest = escape inner) ∨
            ∃ symbol inner, symbol ∈ escapableCharacters ∧ rest = symbol :: escape inner := by
        intro inside
        rcases inductionHypothesis inside with whole | cut
        · obtain ⟨inner, ending, same⟩ := whole
          exact .inl ⟨inner, ending.trans (List.suffix_cons head tail), same⟩
        · exact .inr cut
      by_cases escapable : head ∈ escapableCharacters
      · rw [escape_cons_of_mem escapable] at suffix
        rcases List.suffix_cons_iff.mp suffix with whole | suffix
        · exact .inl ⟨head :: tail, List.suffix_rfl, by rw [whole, escape_cons_of_mem escapable]⟩
        · rcases List.suffix_cons_iff.mp suffix with cut | suffix
          · exact .inr ⟨head, tail, escapable, cut⟩
          · exact further suffix
      · rw [escape_cons_of_not_mem escapable] at suffix
        rcases List.suffix_cons_iff.mp suffix with whole | suffix
        · exact .inl ⟨head :: tail, List.suffix_rfl, by rw [whole, escape_cons_of_not_mem escapable]⟩
        · exact further suffix

/-- A span in an escaped text whose ends are not escaped is an escaped span of the text. -/
theorem exists_span_of_suffix_escape
    {opening close : Char} (openingNoEscape : opening ≠ '\\')
    (openingUnescaped : opening ∉ escapableCharacters) (closeNoEscape : close ≠ '\\')
    (closeUnescaped : close ∉ escapableCharacters) {text run behind : Text}
    (suffix : opening :: (run ++ close :: behind) <:+ escape text) :
    ∃ inner rest, opening :: (inner ++ close :: rest) <:+ text ∧ run = escape inner := by
  rcases suffix_escape suffix with whole | cut
  · obtain ⟨ending, inside, written⟩ := whole
    have only : ∀ symbol ∈ [opening], symbol ≠ '\\' ∧ symbol ∉ escapableCharacters := by
      intro symbol member
      rw [List.mem_singleton.mp member]
      exact ⟨openingNoEscape, openingUnescaped⟩
    obtain ⟨body, rfl, bodyWritten⟩ := of_escape_eq_append only written.symm
    obtain ⟨inner, rest, rfl, runWritten, _⟩ :=
      of_escape_eq_append_cons closeNoEscape closeUnescaped bodyWritten.symm
    exact ⟨inner, rest, inside, runWritten⟩
  · obtain ⟨symbol, inner, escapable, written⟩ := cut
    have same := (List.cons.inj written).1
    exact absurd (same ▸ escapable) openingUnescaped

end RandomCodes.Pattern

import Mathlib.Data.List.Nodup
import RandomCodes.CommandLine.Run
import RandomCodes.Proofs.Pattern.QuantifierReading
/-!
# Options written out in full

An option can be written with its full name behind two dashes, and its value, if it takes one,
behind an equals sign. A run of such options, no setting made twice, is read option by option, and
what it gives does not depend on their order.
-/

namespace RandomCodes.CommandLine

open Pattern (Numeral)

/-- The ways to write a machine word: a numeral, with or without a plus sign before it, whose value
fits. -/
inductive Spells : Text → UInt64 → Prop
  | unsigned (numeral : Numeral) (fits : numeral.value < UInt64.size) :
      Spells numeral.digits (.ofNat numeral.value)
  | signed (numeral : Numeral) (fits : numeral.value < UInt64.size) :
      Spells ('+' :: numeral.digits) (.ofNat numeral.value)

theorem spells_decimal (number : UInt64) : Spells (Text.decimal number.toNat) number := by
  have fits : (Numeral.ofNat number.toNat).value < UInt64.size := by
    rw [Numeral.value_ofNat]
    exact number.toNat_lt
  have spelled := Spells.unsigned (.ofNat number.toNat) fits
  rwa [Numeral.value_ofNat, UInt64.ofNat_toNat] at spelled

theorem Spells.toUInt64?_eq {text : Text} {number : UInt64} (spells : Spells text number) :
    Text.toUInt64? text = some number := by
  have read : ∀ numeral : Numeral, numeral.value < UInt64.size →
      ∀ text, Text.dropFirst '+' text = numeral.digits →
        Text.toUInt64? text = some (.ofNat numeral.value) := by
    intro numeral fits text digits
    have allDigits : numeral.digits.all Char.isDigit := List.all_eq_true.mpr numeral.isDigit
    have nonempty : numeral.digits.isEmpty = false := by simpa using numeral.ne_nil
    have bounded : Text.digitsValue numeral.digits < UInt64.size := fits
    simp only [Text.toUInt64?, digits, allDigits, nonempty, bounded, decide_true]
    rfl
  cases spells with
  | unsigned numeral fits =>
      apply read numeral fits
      obtain ⟨digit, others, digits⟩ := List.exists_cons_of_ne_nil numeral.ne_nil
      have member : digit ∈ numeral.digits := by
        rw [digits]
        exact List.mem_cons_self
      rw [digits, Text.dropFirst, if_neg (numeral.ne_of_mem member (by decide))]
  | signed numeral fits =>
      apply read numeral fits
      rw [Text.dropFirst, if_pos rfl]

/-- An option by its full name, its value attached to it. -/
inductive LongOption where
  | value (setting : Setting) (text : Text)
  | switch (setting : Setting)

namespace LongOption

def setting : LongOption → Setting
  | value setting _ => setting
  | switch setting => setting

/-- The option as an argument. -/
def text : LongOption → Text
  | value setting text => '-' :: '-' :: (setting.long.toList ++ '=' :: text)
  | switch setting => '-' :: '-' :: setting.long.toList

/-- The option can stand on a level, with the value that it has. -/
def Fits (level : Level) : LongOption → Prop
  | value setting text =>
      setting ∈ level.settings ∧ setting.usage = .value ∧ (Slot.setting setting).accepts text
  | switch setting => setting ∈ level.settings ∧ setting.usage = .switch

/-- Adds an option to what has been given. -/
def give (given : Given) : LongOption → Given
  | value setting text => { given with values := (.setting setting, text) :: given.values }
  | switch setting => { given with switches := setting :: given.switches }

end LongOption

/-- The options, one after the other. -/
def Given.giveAll (given : Given) (options : List LongOption) : Given :=
  options.foldl LongOption.give given

/-- A setting that has not been made. -/
def Given.Open (given : Given) (setting : Setting) : Prop :=
  given.values.lookup (.setting setting) = none ∧ setting ∉ given.switches

theorem Level.long?_eq_some {level : Level} {setting : Setting} (known : setting ∈ level.settings) :
    level.long? setting.long.toList = some setting := by
  have each : ∀ known ∈ level.settings, level.long? known.long.toList = some known := by
    cases level with
    | outer => decide
    | inner command => cases command <;> decide
  exact each setting known

theorem Setting.equals_not_mem_long (setting : Setting) : '=' ∉ setting.long.toList := by
  cases setting <;> decide

/-- What is in front of the first equals sign. -/
theorem takeWhile_ne_equals {name : Text} (free : '=' ∉ name) (rest : Text) :
    (name ++ rest).takeWhile (· != '=') = name ++ rest.takeWhile (· != '=') := by
  apply List.takeWhile_append_of_pos
  intro symbol member
  simpa using fun same : symbol = '=' => free (same ▸ member)

namespace LongOption

variable {level : Level} {given : Given} {option : LongOption}

theorem takeArgument_text
    (settled : given.pending = none) (fits : option.Fits level) (isOpen : given.Open option.setting) :
    given.takeArgument level option.text = .ok (option.give given) := by
  cases option with
  | value setting text =>
      obtain ⟨known, usage, accepted⟩ := fits
      have name : (setting.long.toList ++ '=' :: text).takeWhile (· != '=') =
          setting.long.toList := by
        rw [takeWhile_ne_equals setting.equals_not_mem_long]
        simp
      have unmade : given.values.lookup (.setting setting) = none := isOpen.1
      simp only [LongOption.text, Given.takeArgument, Given.takeLong, name,
        Level.long?_eq_some known, List.drop_left, Given.applyTo, usage, Given.settle, settled]
      simp [Given.take, unmade, accepted, give, bind, Except.bind]
  | switch setting =>
      obtain ⟨known, usage⟩ := fits
      have name : setting.long.toList.takeWhile (· != '=') = setting.long.toList := by
        simpa using takeWhile_ne_equals setting.equals_not_mem_long []
      have unmade : setting ∉ given.switches := isOpen.2
      simp only [LongOption.text, Given.takeArgument, Given.takeLong, name,
        Level.long?_eq_some known, List.drop_length, Given.apply, usage, Given.settle, settled]
      simp [unmade, give, bind, Except.bind, pure, Except.pure]

/-- An option is never taken for the name of a command. -/
theorem word?_text (level : Level) (option : LongOption) : level.word? option.text = none := by
  cases level with
  | inner command => rfl
  | outer =>
      have other : ∀ (name : String), name.toList.head? ≠ some '-' → option.text ≠ name.toList := by
        intro name different same
        rw [← same] at different
        cases option <;> exact different rfl
      have help : option.text ≠ helpName.toList := other helpName (by decide)
      have commands : Command.all.find? (fun command => command.name.toList = option.text) = none := by
        rw [List.find?_eq_none]
        intro command _ same
        have different : command.name.toList.head? ≠ some '-' := by cases command <;> decide
        exact other command.name different (of_decide_eq_true same).symm
      simp only [Level.word?, Word.ofName?, if_neg help, commands]
      rfl

theorem text_ne_separator (option : LongOption) : option.text ≠ ['-', '-'] := by
  cases option with
  | value setting text => simp [LongOption.text]
  | switch setting => cases setting <;> decide

theorem open_give
    {setting : Setting} (isOpen : given.Open setting) (other : setting ≠ option.setting) :
    (option.give given).Open setting := by
  cases option with
  | value made text =>
      refine ⟨?_, isOpen.2⟩
      have further : setting ≠ made := other
      have different : (Slot.setting setting == Slot.setting made) = false := by
        simpa using further
      simp only [give, List.lookup_cons, different]
      exact isOpen.1
  | switch made =>
      refine ⟨isOpen.1, ?_⟩
      simpa [give] using ⟨other, isOpen.2⟩

theorem pending_give : (option.give given).pending = given.pending := by
  cases option <;> rfl

end LongOption

/-- Each option can stand on the level, and no setting is made twice. -/
structure Acceptable (level : Level) (options : List LongOption) : Prop where
  fits : ∀ option ∈ options, option.Fits level
  nodup : (options.map LongOption.setting).Nodup

namespace Given

variable {level : Level} {given : Given} {options : List LongOption}

theorem giveAll_cons (given : Given) (option : LongOption) (options : List LongOption) :
    given.giveAll (option :: options) = (option.give given).giveAll options := rfl

theorem pending_giveAll (given : Given) (options : List LongOption) :
    (given.giveAll options).pending = given.pending := by
  induction options generalizing given with
  | nil => rfl
  | cons option others inductionHypothesis =>
      rw [giveAll_cons, inductionHypothesis, LongOption.pending_give]

/-- An argument that is neither a word nor the double dash is taken, and the next one is read. -/
theorem scan_cons_of_takes
    {argument : Text} {next : Given} (noWord : level.word? argument = none)
    (apart : argument ≠ ['-', '-']) (taken : given.takeArgument level argument = .ok next)
    (rest : List Text) : scan level given (argument :: rest) = scan level next rest := by
  have goesOn : (if given.awaitsValue then none else level.word? argument) = none := by
    rw [noWord, ite_self]
  rw [scan, goesOn]
  simp only [if_neg apart, taken]
  rfl

/-- A run of options is read option by option. -/
theorem scan_options
    (settled : given.pending = none) (acceptable : Acceptable level options)
    (isOpen : ∀ option ∈ options, given.Open option.setting) (rest : List Text) :
    scan level given (options.map LongOption.text ++ rest) =
      scan level (given.giveAll options) rest := by
  induction options generalizing given with
  | nil => rfl
  | cons option others inductionHypothesis =>
      obtain ⟨fits, nodup⟩ := acceptable
      rw [List.map_cons, List.nodup_cons] at nodup
      have taken := LongOption.takeArgument_text settled (fits option List.mem_cons_self)
        (isOpen option List.mem_cons_self)
      have further : ∀ other ∈ others, (option.give given).Open other.setting := by
        intro other member
        apply LongOption.open_give (isOpen other (List.mem_cons_of_mem option member))
        exact fun same => nodup.1 (same ▸ List.mem_map_of_mem member)
      have behind := inductionHypothesis (LongOption.pending_give.trans settled)
        ⟨fun other member => fits other (List.mem_cons_of_mem option member), nodup.2⟩ further
      rw [List.map_cons, List.cons_append,
        scan_cons_of_takes (option.word?_text level) option.text_ne_separator taken]
      exact behind

theorem lookup_giveAll_of_not_mem
    {setting : Setting} (absent : setting ∉ options.map LongOption.setting) :
    (given.giveAll options).values.lookup (.setting setting) =
      given.values.lookup (.setting setting) := by
  induction options generalizing given with
  | nil => rfl
  | cons option others inductionHypothesis =>
      rw [List.map_cons, List.mem_cons, not_or] at absent
      rw [giveAll_cons, inductionHypothesis absent.2]
      cases option with
      | switch made => rfl
      | value made text =>
          have further : setting ≠ made := absent.1
          have different : (Slot.setting setting == Slot.setting made) = false := by
            simpa using further
          simp only [LongOption.give, List.lookup_cons, different]

/-- The value of an option is the one that is given for its setting. -/
theorem value?_giveAll
    (nodup : (options.map LongOption.setting).Nodup) {setting : Setting} {text : Text}
    (member : .value setting text ∈ options) :
    (given.giveAll options).value? (.setting setting) = some text := by
  induction options generalizing given with
  | nil => cases member
  | cons option others inductionHypothesis =>
      rw [List.map_cons, List.nodup_cons] at nodup
      rw [giveAll_cons]
      rcases List.mem_cons.mp member with rfl | later
      · have unmade : setting ∉ others.map LongOption.setting := nodup.1
        have front : ((LongOption.value setting text).give given).values.lookup
            (.setting setting) = some text := by
          simp [LongOption.give]
        exact (lookup_giveAll_of_not_mem unmade).trans front
      · exact inductionHypothesis nodup.2 later

theorem number?_giveAll
    (nodup : (options.map LongOption.setting).Nodup) {setting : Setting} {text : Text}
    (member : .value setting text ∈ options) {number : UInt64} (spells : Spells text number) :
    (given.giveAll options).number? setting = some number := by
  rw [number?, value?_giveAll nodup member]
  exact spells.toUInt64?_eq

theorem mem_switches_giveAll {setting : Setting} :
    setting ∈ (given.giveAll options).switches ↔
      setting ∈ given.switches ∨ .switch setting ∈ options := by
  induction options generalizing given with
  | nil => simp [giveAll]
  | cons option others inductionHypothesis =>
      rw [giveAll_cons, inductionHypothesis]
      cases option with
      | value made text => simp [LongOption.give]
      | switch made =>
          simp only [LongOption.give, List.mem_cons, LongOption.switch.injEq]
          tauto

end Given

end RandomCodes.CommandLine

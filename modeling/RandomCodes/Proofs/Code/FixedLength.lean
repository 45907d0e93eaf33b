import Mathlib.Data.List.Forall2
import RandomCodes.Configuration.Writer
import RandomCodes.Draws.Script
/-!
# Codes of fixed length

All configurations but those of a pattern make codes of a given length from given characters: one
question for each character of the code, in order, and the answer is the place of this character
among the given ones. Where a zero may not lead, a zero that has been drawn for the first place is
replaced after everything else has been drawn, so the code differs from the one with the zero in
this place only.
-/

namespace RandomCodes

variable {State : Type} {source : Source State}

/-- How many characters a code has and what they are drawn from. -/
structure Shape where
  length : Nat
  characters : List Char
  noLeadingZero : Bool := false
deriving DecidableEq, Repr

/-- The letters that a code may have, those of both cases being the lower-case ones first. -/
def LetterCase.members : LetterCase → List Char
  | upper => "ABCDEFGHIJKLMNOPQRSTUVWXYZ".toList
  | lower => "abcdefghijklmnopqrstuvwxyz".toList
  | mixed => "abcdefghijklmnopqrstuvwxyzABCDEFGHIJKLMNOPQRSTUVWXYZ".toList

theorem LetterCase.members_ne_nil (letterCase : LetterCase) : letterCase.members ≠ [] := by
  cases letterCase <;> decide

theorem LetterCase.alphabet_eq (letterCase : LetterCase) :
    letterCase.alphabet = ⟨letterCase.members, letterCase.members_ne_nil⟩ := by
  cases letterCase <;> rfl

namespace Configuration

/-- The shape of the codes, unless they are expansions of a pattern. -/
def shape? : Configuration → Option Shape
  | digits length noLeadingZero =>
      some { length := length.toNat, characters := "0123456789".toList, noLeadingZero }
  | letters length letterCase =>
      some { length := length.toNat, characters := letterCase.members }
  | word length =>
      some
        { length := length.toNat
          characters := "abcdefghijklmnopqrstuvwxyzABCDEFGHIJKLMNOPQRSTUVWXYZ0123456789".toList }
  | charset length characters => some { length := length.toNat, characters }
  | pattern _ => none

/-- The same configuration, except that a zero may lead. -/
def withLeadingZero : Configuration → Configuration
  | digits length _ => digits length false
  | other => other

variable {configuration : Configuration} {shape : Shape}

theorem shape?_withLeadingZero (fixed : configuration.shape? = some shape) :
    configuration.withLeadingZero.shape? = some { shape with noLeadingZero := false } := by
  cases configuration <;> cases fixed <;> rfl

/-- Only the characters of a charset can be missing. -/
theorem eq_charset_of_shape?
    (fixed : configuration.shape? = some shape) (empty : shape.characters = []) :
    ∃ length, configuration = .charset length [] := by
  cases configuration with
  | pattern text => cases fixed
  | digits length noLeadingZero =>
      obtain rfl := Option.some.inj fixed
      exact absurd empty Alphabet.digits.ne_nil
  | letters length letterCase =>
      obtain rfl := Option.some.inj fixed
      exact absurd empty letterCase.members_ne_nil
  | word length =>
      obtain rfl := Option.some.inj fixed
      exact absurd empty (by simp)
  | charset length characters =>
      obtain rfl := Option.some.inj fixed
      exact ⟨length, congrArg _ empty⟩

/-- A generator for a shape draws all characters first and looks at a zero in front then. -/
theorem exists_build_eq
    (fixed : configuration.shape? = some shape) (nonempty : shape.characters ≠ []) :
    ∃ generator, configuration.build = .ok generator ∧
      generator.generate = (do
        let code ← Generator.fixedLength shape.length ⟨shape.characters, nonempty⟩
        if shape.noLeadingZero then Generator.redrawLeadingZero code else return code) := by
  cases configuration with
  | pattern text => cases fixed
  | digits length noLeadingZero =>
      obtain rfl := Option.some.inj fixed
      exact ⟨_, rfl, rfl⟩
  | letters length letterCase =>
      obtain rfl := Option.some.inj fixed
      refine ⟨_, rfl, ?_⟩
      rw [Generator.generate, letterCase.alphabet_eq]
      exact (bind_pure _).symm
  | word length =>
      obtain rfl := Option.some.inj fixed
      exact ⟨_, rfl, (bind_pure _).symm⟩
  | charset length characters =>
      obtain rfl := Option.some.inj fixed
      refine ⟨.charset length.toNat ⟨characters, nonempty⟩, ?_, (bind_pure _).symm⟩
      simp [build, Alphabet.ofList?, nonempty]

end Configuration

/-- The question is for a place among the characters, and the answer the place of the symbol. -/
def Selects (characters : List Char) (asked : Call × Nat) (symbol : Char) : Prop :=
  asked.1 = .index characters.length ∧ characters[asked.2]? = some symbol

theorem Alphabet.run_draw
    (lawful : source.Lawful) (alphabet : Alphabet) (recording : Recording State) :
    ∃ answer, Selects alphabet.characters (.index alphabet.size, answer)
        (alphabet.draw.run source.recorded recording).1 ∧
      (alphabet.draw.run source.recorded recording).2.calls =
        recording.calls ++ [(.index alphabet.size, answer)] := by
  have positive : 0 < alphabet.size := List.length_pos_iff.mpr alphabet.ne_nil
  have inside : (source.answer (.index alphabet.size) recording.state).1 <
      alphabet.characters.length := lawful (.index alphabet.size) recording.state positive
  have drawn : (alphabet.draw.run source.recorded recording).1 =
      alphabet.characters.getD (source.answer (.index alphabet.size) recording.state).1
        (alphabet.characters.head alphabet.ne_nil) := rfl
  refine ⟨_, ⟨rfl, ?_⟩, List.reverse_cons⟩
  rw [drawn, List.getD_eq_getElem?_getD, List.getElem?_eq_getElem inside, Option.getD_some]

namespace Generator

/-- One question for each character, and no others. -/
theorem run_fixedLength
    (lawful : source.Lawful) (length : Nat) (alphabet : Alphabet) (recording : Recording State) :
    ∃ calls, ((fixedLength length alphabet).run source.recorded recording).2.calls =
        recording.calls ++ calls ∧
      calls.length = length ∧
      List.Forall₂ (Selects alphabet.characters) calls
        ((fixedLength length alphabet).run source.recorded recording).1 := by
  induction length generalizing recording with
  | zero => exact ⟨[], (List.append_nil _).symm, rfl, .nil⟩
  | succ length inductionHypothesis =>
      obtain ⟨answer, selected, asked⟩ := alphabet.run_draw lawful recording
      obtain ⟨calls, others, number, later⟩ :=
        inductionHypothesis (alphabet.draw.run source.recorded recording).2
      have drawn : fixedLength (length + 1) alphabet = (do
          let symbol ← alphabet.draw
          let symbols ← fixedLength length alphabet
          return symbol :: symbols) := Draws.collect_succ _ _
      rw [drawn, Draws.run_bind, Draws.run_bind]
      refine ⟨(.index alphabet.size, answer) :: calls, ?_, congrArg (· + 1) number,
        .cons selected later⟩
      exact others.trans (by rw [asked, List.append_assoc, List.singleton_append])

/-- The code has another digit in the place of the first one, which is asked for last. -/
def Redrawn (drawn code : Text) (calls allCalls : List (Call × Nat)) : Prop :=
  ∃ answer digit, Selects "123456789".toList (.index 9, answer) digit ∧
    code = digit :: drawn.tail ∧ allCalls = calls ++ [(.index 9, answer)]

theorem run_redrawLeadingZero
    (lawful : source.Lawful) (drawn : Text) (recording : Recording State) :
    if drawn.head? = some '0' then
      Redrawn drawn ((redrawLeadingZero drawn).run source.recorded recording).1 recording.calls
        ((redrawLeadingZero drawn).run source.recorded recording).2.calls
    else (redrawLeadingZero drawn).run source.recorded recording = (drawn, recording) := by
  split
  · rename_i leading
    obtain ⟨rest, rfl⟩ := List.head?_eq_some_iff.mp leading
    obtain ⟨answer, selected, asked⟩ := Alphabet.nonzeroDigits.run_draw lawful recording
    exact ⟨answer, _, selected, rfl, asked⟩
  · rename_i other
    have kept : redrawLeadingZero drawn = return drawn := by
      rw [redrawLeadingZero]
      rintro rest rfl
      exact other rfl
    rw [kept]
    rfl

/-- The digit that is put in front is not a zero, and nothing else is changed. -/
theorem Redrawn.spec
    {drawn code : Text} {calls allCalls : List (Call × Nat)}
    (redrawn : Redrawn drawn code calls allCalls) (leading : drawn.head? = some '0') :
    code.length = drawn.length ∧ code.tail = drawn.tail ∧ code.head? ≠ some '0' := by
  obtain ⟨answer, digit, selected, rfl, _⟩ := redrawn
  obtain ⟨rest, rfl⟩ := List.head?_eq_some_iff.mp leading
  refine ⟨rfl, rfl, ?_⟩
  intro zero
  obtain rfl := Option.some.inj zero
  exact absurd (List.mem_of_getElem? selected.2) (by decide)

/-- What is done to a code once all its characters are drawn. -/
theorem run_finish
    (lawful : source.Lawful) (noLeadingZero : Bool) (drawn : Text) (draws : Recording State) :
    let (code, recording) :=
      (if noLeadingZero then redrawLeadingZero drawn else return drawn : Draws Text).run
        source.recorded draws
    (if noLeadingZero ∧ drawn.head? = some '0' then
        Redrawn drawn code draws.calls recording.calls
      else code = drawn ∧ recording = draws) ∧
      code.length = drawn.length ∧ code.tail = drawn.tail ∧
      (noLeadingZero → code.head? ≠ some '0') := by
  cases noLeadingZero with
  | false => simp
  | true =>
      have redraw := run_redrawLeadingZero lawful drawn draws
      simp only [if_true, true_and]
      split at redraw
      · rename_i leading
        obtain ⟨length, tail, other⟩ := redraw.spec leading
        exact ⟨by rwa [if_pos leading], length, tail, fun _ => other⟩
      · rename_i other
        rw [redraw]
        exact ⟨by rw [if_neg other]; exact ⟨rfl, rfl⟩, rfl, rfl, fun _ => other⟩

end Generator

/-- What is drawn for a code of the shape where a zero may lead, what is made of it where the shape
says whether it may, and the questions that have been asked for either from the same state. -/
structure Shape.Makes
    (shape : Shape) (drawn code : Text) (draws recording : Recording State) : Prop where
  number : draws.calls.length = shape.length
  /-- Each question selects the character of the same number. -/
  selected : List.Forall₂ (Selects shape.characters) draws.calls drawn
  redrawn :
    if shape.noLeadingZero ∧ drawn.head? = some '0' then
      Generator.Redrawn drawn code draws.calls recording.calls
    else code = drawn ∧ recording = draws
  length : code.length = shape.length
  tail : code.tail = drawn.tail
  noZero : shape.noLeadingZero → code.head? ≠ some '0'
  empty : shape.length = 0 → code = [] ∧ recording.calls = []

theorem Generator.makes_of_shape
    (lawful : source.Lawful) (state : State) {shape : Shape} (nonempty : shape.characters ≠ []) :
    let (drawn, draws) :=
      (fixedLength shape.length ⟨shape.characters, nonempty⟩).run source.recorded { state }
    let (code, recording) :=
      (if shape.noLeadingZero then redrawLeadingZero drawn else return drawn : Draws Text).run
        source.recorded draws
    shape.Makes drawn code draws recording := by
  obtain ⟨calls, asked, number, selected⟩ :=
    run_fixedLength lawful shape.length ⟨shape.characters, nonempty⟩ { state }
  generalize (fixedLength shape.length ⟨shape.characters, nonempty⟩).run
    source.recorded { state } = result at *
  obtain ⟨drawn, draws⟩ := result
  obtain rfl : draws.calls = calls := asked
  have drawnLength : drawn.length = shape.length := selected.length_eq.symm.trans number
  obtain ⟨redrawn, length, tail, noZero⟩ := run_finish lawful shape.noLeadingZero drawn draws
  refine ⟨number, selected, redrawn, length.trans drawnLength, tail, noZero, fun none => ?_⟩
  obtain rfl := List.length_eq_zero_iff.mp (drawnLength.trans none)
  have same : ¬ (shape.noLeadingZero ∧ ([] : Text).head? = some '0') := fun both =>
    absurd both.2 (by decide)
  rw [if_neg same] at redrawn
  rw [redrawn.1, redrawn.2]
  exact ⟨rfl, List.length_eq_zero_iff.mp (number.trans none)⟩

/-- From a configuration for codes of fixed length a generator is built, without a question, unless
it is one for a charset that has no characters. Its codes are made as its shape says: where a zero
may not lead, a zero drawn for the first place is replaced by another digit, with one more question
behind the others, and nothing else is different from the code that may begin with a zero. -/
theorem codes_of_fixed_length
    (lawful : source.Lawful) (state : State) {configuration : Configuration} {shape : Shape}
    (fixed : configuration.shape? = some shape) :
    if configuration.kind = .charset ∧ shape.characters = [] then
      configuration.build = .error .emptyAlphabet
    else
      ∃ generator plain, configuration.build = .ok generator ∧
        configuration.withLeadingZero.build = .ok plain ∧
        let (drawn, draws) := plain.generate.run source.recorded { state }
        let (code, recording) := generator.generate.run source.recorded { state }
        shape.Makes drawn code draws recording := by
  split
  · rename_i missing
    obtain ⟨length, rfl⟩ := Configuration.eq_charset_of_shape? fixed missing.2
    rfl
  · rename_i present
    have nonempty : shape.characters ≠ [] := by
      intro empty
      obtain ⟨length, rfl⟩ := Configuration.eq_charset_of_shape? fixed empty
      exact present ⟨rfl, empty⟩
    obtain ⟨generator, built, generates⟩ := Configuration.exists_build_eq fixed nonempty
    obtain ⟨plain, plainBuilt, plainGenerates⟩ :=
      Configuration.exists_build_eq (Configuration.shape?_withLeadingZero fixed) nonempty
    refine ⟨generator, plain, built, plainBuilt, ?_⟩
    have plainDraws := plainGenerates.trans (bind_pure _)
    rw [generates, plainDraws, Draws.run_bind]
    exact Generator.makes_of_shape lawful state nonempty

/-- A zero is drawn for the first of two digits, so a third question is asked. -/
theorem codes_of_fixed_length_redrawn :
    let shape : Shape := { length := 2, characters := "0123456789".toList, noLeadingZero := true }
    Script.source.Lawful ∧ (Configuration.digits 2 true).shape? = some shape ∧
      (∃ generator plain, (Configuration.digits 2 true).build = .ok generator ∧
        (Configuration.digits 2 true).withLeadingZero.build = .ok plain ∧
        let (drawn, draws) := plain.generate.run Script.source.recorded
          { state := { values := [0, 4, 6] } }
        let (code, recording) := generator.generate.run Script.source.recorded
          { state := { values := [0, 4, 6] } }
        shape.Makes drawn code draws recording) ∧
      ((Generator.digits 2 true).generate.run Script.source { values := [0, 4, 6] }).1 =
        "74".toList := by
  intro shape
  have fixed : (Configuration.digits 2 true).shape? = some shape := rfl
  have codes := codes_of_fixed_length Script.source_lawful { values := [0, 4, 6] } fixed
  rw [if_neg (by decide)] at codes
  exact ⟨Script.source_lawful, fixed, codes, by decide⟩

end RandomCodes

import RandomCodes.Configuration.Writer
import RandomCodes.Proofs.Pattern.Lookups
/-!
# Questions and lookups of generators

Whatever configuration a generator is built from, it makes one code after the other without an
illegal question and without looking up a character that its alphabet does not have. No generator is
built from an alphabet without characters.
-/

namespace RandomCodes

variable {State α : Type}

namespace Draws

/-- The values of `count` runs of a program that may find nothing, one after the other. -/
def collectStrictly : Nat → OptionT Draws α → OptionT Draws (List α)
  | 0, _ => pure []
  | count + 1, program => do
      let value ← program
      let values ← collectStrictly count program
      return value :: values

theorem Faultless.collect
    {strict : OptionT Draws α} {program : Draws α} (faultless : Faultless strict program)
    (count : Nat) : Faultless (collectStrictly count strict) (Draws.collect count program) := by
  induction count with
  | zero => exact .done []
  | succ count inductionHypothesis =>
      rw [collect_succ]
      exact faultless.bind fun value =>
        inductionHypothesis.bind fun values => .done (value :: values)

end Draws

open Draws (Faultless)

namespace Generator

def redrawLeadingZeroStrictly : Text → OptionT Draws Text
  | '0' :: rest => return (← Alphabet.nonzeroDigits.drawStrictly) :: rest
  | code => return code

/-- One code, stopping where a character looked up is not in the alphabet. -/
def generateStrictly : Generator → OptionT Draws Text
  | digits length noLeadingZero => do
      let code ← Draws.collectStrictly length Alphabet.digits.drawStrictly
      if noLeadingZero then redrawLeadingZeroStrictly code else return code
  | letters length letterCase => Draws.collectStrictly length letterCase.alphabet.drawStrictly
  | word length => Draws.collectStrictly length Alphabet.wordCharacters.drawStrictly
  | charset length alphabet => Draws.collectStrictly length alphabet.drawStrictly
  | pattern text => Pattern.expandStrictly text

theorem faultless_fixedLength (length : Nat) (alphabet : Alphabet) :
    Faultless (Draws.collectStrictly length alphabet.drawStrictly) (fixedLength length alphabet) :=
  alphabet.faultless_draw.collect length

theorem faultless_redrawLeadingZero (code : Text) :
    Faultless (redrawLeadingZeroStrictly code) (redrawLeadingZero code) := by
  by_cases leading : ∃ rest, code = '0' :: rest
  · obtain ⟨rest, rfl⟩ := leading
    exact Alphabet.nonzeroDigits.faultless_draw.bind fun digit => .done (digit :: rest)
  · have other : ∀ rest, code ≠ '0' :: rest := not_exists.mp leading
    rw [redrawLeadingZeroStrictly, redrawLeadingZero]
    · exact .done code
    · exact other
    · exact other

theorem faultless_generate (generator : Generator) :
    Faultless generator.generateStrictly generator.generate := by
  cases generator with
  | digits length noLeadingZero =>
      refine (faultless_fixedLength length .digits).bind fun code => ?_
      cases noLeadingZero with
      | true => exact faultless_redrawLeadingZero code
      | false => exact .done code
  | letters length letterCase => exact faultless_fixedLength length letterCase.alphabet
  | word length => exact faultless_fixedLength length .wordCharacters
  | charset length alphabet => exact faultless_fixedLength length alphabet
  | pattern text => exact Pattern.faultless_expand text

end Generator

theorem Configuration.eq_charset_of_build_eq_error
    {configuration : Configuration} {error : BuildError}
    (refused : configuration.build = .error error) :
    ∃ length, configuration = .charset length [] := by
  cases configuration with
  | charset length characters =>
      by_cases empty : characters = []
      · exact ⟨length, by rw [empty]⟩
      · simp [build, Alphabet.ofList?, empty] at refused
  | digits length noLeadingZero => cases refused
  | letters length letterCase => cases refused
  | word length => cases refused
  | pattern text => cases refused

/-- Run from `state`, the program asks nothing but legal questions, and its strict form finds
whatever it looks up. -/
def Draws.RunsFaultlessly
    (source : Source State) (state : State) (strict : OptionT Draws α) (program : Draws α) : Prop :=
  let (value, recording) := program.run source.recorded { state }
  strict.run.run source.recorded { state } = (some value, recording) ∧
    ∀ asked ∈ recording.calls, asked.1.Legal ∧ asked.1.Permits asked.2

theorem Draws.Faultless.runsFaultlessly
    {strict : OptionT Draws α} {program : Draws α} (faultless : Faultless strict program)
    {source : Source State} (lawful : source.Lawful) (state : State) :
    RunsFaultlessly source state strict program := by
  have recordedLawful : source.recorded.Lawful := fun call recording => lawful call recording.state
  refine ⟨faultless.run_eq recordedLawful { state }, fun asked member => ?_⟩
  refine faultless.recorded_legal lawful { state } ?_ asked (List.mem_reverse.mp member)
  exact fun asked before => absurd before List.not_mem_nil

/-- Whatever is expanded, and however many codes a generator makes once it is built, every question
is legal and every lookup finds something. A generator is built from anything but an alphabet
without characters. -/
theorem expand_generate_runsFaultlessly
    {source : Source State} (lawful : source.Lawful) (state : State) :
    (∀ pattern : Text,
      Draws.RunsFaultlessly source state (Pattern.expandStrictly pattern)
        (Pattern.expand pattern)) ∧
      ∀ (configuration : Configuration) (count : Nat),
        match configuration.build with
        | .error _ => ∃ length, configuration = .charset length []
        | .ok generator =>
            Draws.RunsFaultlessly source state
              (Draws.collectStrictly count generator.generateStrictly)
              (Draws.collect count generator.generate) := by
  refine ⟨fun pattern => (Pattern.faultless_expand pattern).runsFaultlessly lawful state, ?_⟩
  intro configuration count
  split
  · rename_i refused
    exact configuration.eq_charset_of_build_eq_error refused
  · rename_i generator _
    exact (generator.faultless_generate.collect count).runsFaultlessly lawful state

/-- A pattern with a marker inside a class, and three codes from an alphabet of two characters. -/
theorem expand_generate_runsFaultlessly_script :
    Script.source.Lawful ∧
      Draws.RunsFaultlessly Script.source { values := [5, 0] }
        (Pattern.expandStrictly "[?]\\w*".toList) (Pattern.expand "[?]\\w*".toList) ∧
      Draws.RunsFaultlessly Script.source { values := [5, 0] }
        (Draws.collectStrictly 3 (Generator.charset 2 ⟨['a', 'b'], by decide⟩).generateStrictly)
        (Draws.collect 3 (Generator.charset 2 ⟨['a', 'b'], by decide⟩).generate) := by
  have both := expand_generate_runsFaultlessly Script.source_lawful { values := [5, 0] }
  exact ⟨Script.source_lawful, both.1 _, both.2 (.charset 2 ['a', 'b']) 3⟩

end RandomCodes

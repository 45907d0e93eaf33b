import RandomCodes.CommandLine.Run
import RandomCodes.Proofs.Pattern.Choosing
import RandomCodes.Proofs.Pattern.Origins
/-!
# Codes and lines

The codes of a run are made one after the other from one source, each from where the one before has
left it. Every code is written with an end of line behind it, so as long as no code has an end of
line in it, the lines are the codes.
-/

namespace RandomCodes

variable {State α : Type}

namespace Draws

/-- The values of `count` runs of a program, each from the state in which the one before has left
the source. -/
def successive (program : Draws α) (source : Source State) : Nat → State → List α
  | 0, _ => []
  | count + 1, state =>
      (program.run source state).1 ::
        program.successive source count (program.run source state).2

theorem run_collect
    (program : Draws α) (source : Source State) (count : Nat) (state : State) :
    ((collect count program).run source state).1 = program.successive source count state := by
  induction count generalizing state with
  | zero => rfl
  | succ count inductionHypothesis =>
      rw [collect_succ, run_bind, run_bind]
      exact congrArg _ (inductionHypothesis (program.run source state).2)

/-- What holds of all values that a program can return holds of its successive values. -/
theorem forall_successive
    {source : Source State} (lawful : source.Lawful) {program : Draws α} {Holds : α → Prop}
    (each : ∀ value, program.CanReturn value → Holds value) (count : Nat) (state : State) :
    ∀ value ∈ program.successive source count state, Holds value := by
  induction count generalizing state with
  | zero =>
      intro value member
      cases member
  | succ count inductionHypothesis =>
      intro value member
      rcases List.mem_cons.mp member with rfl | later
      · exact each _ (canReturn_run lawful program state)
      · exact inductionHypothesis _ value later

end Draws

namespace CommandLine

/-- What is written are the successive codes, each with an end of line behind it. -/
theorem run_codeLines
    (generator : Generator) (source : Source State) (count : Nat) (state : State) :
    ((codeLines count generator).run source state).1 =
      (generator.generate.successive source count state).flatMap fun code => code ++ ['\n'] := by
  rw [codeLines, Draws.run_bind, ← Draws.run_collect]
  rfl

/-- Texts without an end of line are the lines that they are written as. -/
theorem split_lines {lines : List Text} (free : ∀ line ∈ lines, '\n' ∉ line) :
    Text.split '\n' (lines.flatMap fun line => line ++ ['\n']) = lines ++ [[]] := by
  induction lines with
  | nil => rfl
  | cons line others inductionHypothesis =>
      have behind := inductionHypothesis fun other member =>
        free other (List.mem_cons_of_mem line member)
      rw [List.flatMap_cons, List.append_assoc, List.singleton_append,
        Text.split_append_cons (free line List.mem_cons_self), behind, List.cons_append]

end CommandLine

namespace Pattern

/-- A control character: one of the first 32 codes, or one of the 33 from the delete character
on. -/
def IsControl (symbol : Char) : Prop :=
  symbol.toNat < 32 ∨ 127 ≤ symbol.toNat ∧ symbol.toNat < 160

def IsAscii (symbol : Char) : Prop :=
  symbol.toNat < 128

theorem printable_iff (symbol : Char) :
    Printable symbol ↔ 33 ≤ symbol.toNat ∧ symbol.toNat ≤ 126 := Iff.rfl

theorem Printable.not_control {symbol : Char} (printable : Printable symbol) :
    ¬ IsControl symbol := by
  rw [printable_iff] at printable
  rw [IsControl]
  omega

theorem Printable.ascii {symbol : Char} (printable : Printable symbol) : IsAscii symbol := by
  rw [printable_iff] at printable
  rw [IsAscii]
  omega

/-- From a lawful source, an expansion has no backslash and no characters but those of the pattern
and printable ones. So no end of line, no control character and no character beyond ASCII gets in
that is not in the pattern, and as long as the pattern has no end of line, each line that is written
is one code. -/
theorem expand_run_familiar
    {source : Source State} (lawful : source.Lawful) (pattern : Text) (state : State) :
    let result := ((expand pattern).run source state).1
    (∀ symbol ∈ result, symbol ≠ '\\' ∧ (symbol ∈ pattern ∨ '!' ≤ symbol ∧ symbol ≤ '~')) ∧
      ('\n' ∉ pattern → '\n' ∉ result) ∧
      ((∀ symbol ∈ pattern, ¬ IsControl symbol) → ∀ symbol ∈ result, ¬ IsControl symbol) ∧
      ((∀ symbol ∈ pattern, IsAscii symbol) → ∀ symbol ∈ result, IsAscii symbol) ∧
      ('\n' ∉ pattern → ∀ count,
        let output := ((CommandLine.codeLines count (.pattern pattern)).run source state).1
        Text.split '\n' output =
          (Generator.pattern pattern).generate.successive source count state ++ [[]]) := by
  have newline : ∀ other, (expand pattern).CanReturn other → '\n' ∉ pattern → '\n' ∉ other := by
    intro other returned absent member
    rcases expand_familiar pattern other returned '\n' member with inside | printable
    · exact absent inside
    · exact absurd printable (by decide)
  have returned := Draws.canReturn_run lawful (expand pattern) state
  have familiar := expand_familiar pattern _ returned
  refine ⟨?_, newline _ returned, ?_, ?_, ?_⟩
  · intro symbol member
    exact ⟨fun same => noEscape_of_canReturn_expand returned (same ▸ member), familiar symbol member⟩
  · intro clean symbol member
    exact (familiar symbol member).elim (clean symbol) Printable.not_control
  · intro clean symbol member
    exact (familiar symbol member).elim (clean symbol) Printable.ascii
  · intro absent count
    rw [CommandLine.run_codeLines]
    apply CommandLine.split_lines
    exact Draws.forall_successive lawful (fun code made => newline code made absent) count state

/-- A pattern with a count, a class, a wildcard and a shorthand. -/
theorem expand_run_familiar_wildcard :
    let result := ((expand "[a-f]{3}.\\d\\\\".toList).run Script.source { values := [6, 30] }).1
    ∀ symbol ∈ result, symbol ≠ '\\' ∧
      (symbol ∈ "[a-f]{3}.\\d\\\\".toList ∨ '!' ≤ symbol ∧ symbol ≤ '~') :=
  (expand_run_familiar Script.source_lawful _ _).1

end Pattern

end RandomCodes

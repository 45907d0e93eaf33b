import RandomCodes.Proofs.Pattern.Drawing
import RandomCodes.Proofs.Pattern.QuantifierExpansion
/-!
# What a pattern can be expanded to

The stages of an expansion, one after the other, turn the text of a supported pattern into exactly
the texts that the pattern stands for as a regular expression. So every lawful run returns such a
text, and each of them is reached by some finite list of permitted answers.
-/

namespace RandomCodes.Pattern

open Construct (text language)

theorem dropLast_concat_of_ne {symbol last : Char} (other : last ≠ symbol) (written : Text) :
    Text.dropLast symbol (written ++ [last]) = written ++ [last] := by
  simp [Text.dropLast, Text.dropFirst, other]

theorem dropLast_concat_self (symbol : Char) (written : Text) :
    Text.dropLast symbol (written ++ [symbol]) = written := by
  simp [Text.dropLast, Text.dropFirst]

theorem stripDelimiters_anchored (written : Text) :
    stripDelimiters (anchored written) = written := by
  have front : Text.dropFirst '^' (Text.dropFirst '/' (anchored written)) = written ++ ['$'] := by
    simp [anchored, Text.dropFirst]
  simp only [stripDelimiters]
  rw [front, dropLast_concat_of_ne (by decide), dropLast_concat_self]

theorem stripDelimiters_delimited (written : Text) :
    stripDelimiters (delimited written) = written := by
  have front : Text.dropFirst '^' (Text.dropFirst '/' (delimited written)) =
      written ++ ['$'] ++ ['/'] := by
    simp [delimited, anchored, Text.dropFirst]
  simp only [stripDelimiters]
  rw [front, dropLast_concat_self, dropLast_concat_self]

/-- The stages from the second one on. -/
def expandInside (written : Text) : Draws Text :=
  fixedCountPass written >>= fun normalized =>
    expandMarkers normalized >>= fun quantified =>
      repeatQuantified quantified >>= fun repeated =>
        resolveAlternation repeated >>= fun chosen =>
          classRangePass chosen >>= fun spelled =>
            resolveClasses spelled >>= fun plain =>
              resolveShorthands plain >>= fun lettered =>
                resolveWildcards lettered >>= escapePass

theorem expand_eq (pattern : Text) : expand pattern = expandInside (stripDelimiters pattern) := by
  simp only [expand, Stage.all, List.foldlM_cons, List.foldlM_nil, Stage.apply, bind_pure,
    pure_bind]
  rfl

/-- The stages give the texts that a pattern stands for. -/
theorem realizes_expandInside : Realizes Body expandInside := by
  have members := realizes_chooseMembers realizes_drawCharacters
  have branches := realizes_resolveAlternation members
  have copies := realizes_repeatQuantified branches
  have markers := realizes_expandMarkers Marker.all copies
  exact fixedCountPass_expands.realizes (by rw [fixedCountPass_eq, Reader.rewrite_nil]) markers

theorem outcomes_expand_anchored (body : Body) :
    (expand (anchored (text body))).outcomes = language body := by
  rw [expand_eq, stripDelimiters_anchored]
  exact realizes_expandInside body

theorem outcomes_expand_delimited (body : Body) :
    (expand (delimited (text body))).outcomes = language body := by
  rw [expand_eq, stripDelimiters_delimited]
  exact realizes_expandInside body

/-- The pattern `(a|\d){2,2}`. -/
def letterOrDigitTwice : Body :=
  [.group
    { base :=
        { first := [{ base := .inr (.plain 'a' (by decide)), mark := .absent }]
          others := [[{ base := .inr (.shorthand .digit (by decide)), mark := .absent }]] }
      mark := .bounds (.ofNat 2 2 le_rfl (by decide)) }
    (.inl (List.cons_ne_nil _ _))]

example : text letterOrDigitTwice = "(a|\\d){2,2}".toList := by decide

/-- Whatever a lawful source answers, a pattern is expanded to a text that it stands for. -/
theorem expand_mem_language
    (body : Body) {State : Type} {source : Source State} (lawful : source.Lawful)
    (state : State) :
    ((expand (anchored (text body))).run source state).1 ∈ language body ∧
      ((expand (delimited (text body))).run source state).1 ∈ language body := by
  constructor
  · rw [← outcomes_expand_anchored, Draws.mem_outcomes]
    exact Draws.canReturn_run lawful _ state
  · rw [← outcomes_expand_delimited, Draws.mem_outcomes]
    exact Draws.canReturn_run lawful _ state

theorem expand_letterOrDigitTwice_mem :
    Script.source.Lawful ∧
      ((expand (anchored (text letterOrDigitTwice))).run Script.source { values := [2, 1] }).1 ∈
        language letterOrDigitTwice :=
  ⟨Script.source_lawful,
    (expand_mem_language letterOrDigitTwice Script.source_lawful { values := [2, 1] }).1⟩

/-- Every text that a pattern stands for is what it is expanded to when a finite list of permitted
answers is given, none of which is left in the end. -/
theorem exists_answers_expand_eq (body : Body) {word : Text} (member : word ∈ language body) :
    Replay.source.Lawful ∧ ∃ answers,
      ∀ pattern ∈ [anchored (text body), delimited (text body)],
        (expand pattern).run Replay.source answers = (word, []) ∧
          ((expand pattern).run Replay.source.recorded { state := answers }).2.calls.map Prod.snd =
            answers := by
  have returned : (expandInside (text body)).CanReturn word := by
    rw [← Draws.mem_outcomes, realizes_expandInside body]
    exact member
  have anchoredSame : expand (anchored (text body)) = expandInside (text body) := by
    rw [expand_eq, stripDelimiters_anchored]
  have delimitedSame : expand (delimited (text body)) = expandInside (text body) := by
    rw [expand_eq, stripDelimiters_delimited]
  obtain ⟨answers, run, given⟩ := Replay.exists_run_eq_of_canReturn returned
  refine ⟨Replay.source_permits, answers, fun pattern among => ?_⟩
  rcases List.mem_pair.mp among with rfl | rfl
  · rw [anchoredSame]
    exact ⟨run, given⟩
  · rw [delimitedSame]
    exact ⟨run, given⟩

theorem mem_language_letterOrDigitTwice : ['a', '7'] ∈ language letterOrDigitTwice := by
  have letter : ['a'] ∈ language ([{ base := .inr (.plain 'a' (by decide)), mark := .absent }] :
      List (Marked Abbreviation.all Atom)) := by
    rw [language_cons, language_nil, mul_one, mem_language_marked]
    refine ⟨1, rfl, ?_⟩
    rw [pow_one]
    exact ⟨'a', rfl, rfl⟩
  have digit : ['7'] ∈ language ([{ base := .inr (.shorthand .digit (by decide)), mark := .absent }] :
      List (Marked Abbreviation.all Atom)) := by
    rw [language_cons, language_nil, mul_one, mem_language_marked]
    refine ⟨1, rfl, ?_⟩
    rw [pow_one]
    have member : '7' ∈ "0123456789".toList := by decide
    exact ⟨'7', member, rfl⟩
  rw [letterOrDigitTwice, language_cons, language_nil, mul_one]
  refine ⟨2, ?_, ?_⟩
  · simp [Mark.Allows, Bounds.ofNat]
  · rw [pow_two]
    exact ⟨['a'], ⟨_, .head _, letter⟩, ['7'], ⟨_, .tail _ (.head _), digit⟩, rfl⟩

theorem exists_answers_expand_letterOrDigitTwice :
    ['a', '7'] ∈ language letterOrDigitTwice ∧
      ∃ answers,
        (expand (anchored (text letterOrDigitTwice))).run Replay.source answers =
          (['a', '7'], []) := by
  refine ⟨mem_language_letterOrDigitTwice, ?_⟩
  obtain ⟨_, answers, run⟩ :=
    exists_answers_expand_eq letterOrDigitTwice mem_language_letterOrDigitTwice
  exact ⟨answers, (run _ List.mem_cons_self).1⟩

end RandomCodes.Pattern

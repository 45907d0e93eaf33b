import RandomCodes.Proofs.Outcomes
import RandomCodes.Proofs.Pattern.Acceptance
import RandomCodes.Proofs.Pattern.Drawing
/-!
# Legal questions and lookups that find something

An index into nothing answers nothing, so a program has to see to it that there is something before
it asks. What it looks up by an answer has to be there as well. Both are said by comparing a program
with its strict form, which looks up the same but stops where it finds nothing: as long as answers
are permitted, the two ask the same legal questions and the strict form ends with the same value.

The strict form of an expansion never stops, whatever the pattern: a class that is read has a body,
every split has a branch, alphabets are never empty. And the bounds of every quantifier that is read
or drawn are in order and not above a thousand.
-/

namespace RandomCodes

variable {State α β : Type}

/-- An index into something, or a number between two bounds in order and not above a thousand. -/
def Call.Legal : Call → Prop
  | .index length => 0 < length
  | .between first second => first ≤ second ∧ second ≤ 1000

instance (call : Call) : Decidable call.Legal :=
  match call with
  | .index length => inferInstanceAs (Decidable (0 < length))
  | .between first second =>
      inferInstanceAs (Decidable (first ≤ second ∧ second ≤ 1000))

namespace Draws

/-- As long as answers are permitted, both programs ask the same legal questions, and the strict one
finds whatever it looks up and ends with the value of the other. -/
inductive Faultless : OptionT Draws α → Draws α → Prop
  | done (value : α) : Faultless (pure value) (pure value)
  | ask {call : Call} {strict : Nat → OptionT Draws α} {next : Nat → Draws α} :
      call.Legal → (∀ answer, call.Permits answer → Faultless (strict answer) (next answer)) →
      Faultless (.mk (.ask call fun answer => (strict answer).run)) (.ask call next)

namespace Faultless

theorem run_eq
    {strict : OptionT Draws α} {program : Draws α} (faultless : Faultless strict program)
    {source : Source State} (lawful : source.Lawful) (state : State) :
    strict.run.run source state =
      (some (program.run source state).1, (program.run source state).2) := by
  induction faultless generalizing state with
  | done value => rfl
  | ask _ _ inductionHypothesis => exact inductionHypothesis _ (lawful _ state) _

/-- A run from a lawful source adds legal questions with permitted answers to a record. -/
theorem recorded_legal
    {strict : OptionT Draws α} {program : Draws α} (faultless : Faultless strict program)
    {source : Source State} (lawful : source.Lawful) (recording : Recording State)
    (earlier : ∀ asked ∈ recording.latestFirst, asked.1.Legal ∧ asked.1.Permits asked.2) :
    ∀ asked ∈ (program.run source.recorded recording).2.latestFirst,
      asked.1.Legal ∧ asked.1.Permits asked.2 := by
  induction faultless generalizing recording with
  | done value => exact earlier
  | @ask call _ _ legal _ inductionHypothesis =>
      have permitted := lawful call recording.state
      refine inductionHypothesis _ permitted _ fun asked member => ?_
      rcases List.mem_cons.mp member with rfl | before
      · exact ⟨legal, permitted⟩
      · exact earlier asked before

theorem bind
    {strict : OptionT Draws α} {program : Draws α} (front : Faultless strict program)
    {strictly : α → OptionT Draws β} {following : α → Draws β}
    (back : ∀ value, Faultless (strictly value) (following value)) :
    Faultless (strict >>= strictly) (program >>= following) := by
  induction front with
  | done value => exact back value
  | ask legal _ inductionHypothesis => exact .ask legal inductionHypothesis

theorem map
    {strict : OptionT Draws α} {program : Draws α} (faultless : Faultless strict program)
    (function : α → β) : Faultless (function <$> strict) (function <$> program) := by
  rw [map_eq_pure_bind, map_eq_pure_bind]
  exact faultless.bind fun value => .done (function value)

theorem foldlM
    {strictly : β → α → OptionT Draws β} {following : β → α → Draws β}
    (each : ∀ value item, Faultless (strictly value item) (following value item))
    (items : List α) (initial : β) :
    Faultless (items.foldlM strictly initial) (items.foldlM following initial) := by
  induction items generalizing initial with
  | nil => exact .done initial
  | cons item rest inductionHypothesis =>
      rw [List.foldlM_cons, List.foldlM_cons]
      exact (each initial item).bind inductionHypothesis

theorem index {length : Nat} (positive : 0 < length) :
    Faultless (liftM (Draws.index length)) (Draws.index length) :=
  @ask _ (.index length) pure _ positive fun answer _ => .done answer

theorem between {first second : Nat} (legal : (Call.between first second).Legal) :
    Faultless (liftM (Draws.between first second)) (Draws.between first second) :=
  @ask _ (.between first second) pure _ legal fun answer _ => .done answer

/-- A choice from a list that is not empty finds an item, and what is made of nothing is never
used. -/
theorem sample? {items : List α} (nonempty : items ≠ []) (function : Option α → β) :
    Faultless ((fun item => function (some item)) <$> OptionT.mk (Draws.sample? items))
      (function <$> Draws.sample? items) := by
  obtain ⟨head, tail, rfl⟩ := List.exists_cons_of_ne_nil nonempty
  have positive : 0 < (head :: tail).length := Nat.succ_pos tail.length
  refine @ask _ (.index (head :: tail).length)
    (fun answer => (fun item => function (some item)) <$> OptionT.mk (pure (head :: tail)[answer]?))
    _ positive fun answer permitted => ?_
  have inside : answer < (head :: tail).length := permitted positive
  have found : (head :: tail)[answer]? = some (head :: tail)[answer] :=
    List.getElem?_eq_getElem inside
  show Faultless ((fun item => function (some item)) <$> OptionT.mk (pure (head :: tail)[answer]?))
    (pure (function (head :: tail)[answer]?))
  rw [found]
  exact .done (function (some (head :: tail)[answer]))

end Faultless

/-- As long as answers are permitted, all questions of the program are legal. -/
def Legal (program : Draws α) : Prop :=
  Faultless (liftM program) program

theorem legal_pure (value : α) : Legal (pure value) :=
  .done value

theorem Legal.bind
    {program : Draws α} (front : Legal program) {following : α → Draws β}
    (back : ∀ value, Legal (following value)) : Legal (program >>= following) := by
  rw [Legal, liftM_bind]
  exact Faultless.bind front back

theorem Legal.map {program : Draws α} (legal : Legal program) (function : α → β) :
    Legal (function <$> program) := by
  rw [map_eq_pure_bind]
  exact legal.bind fun value => legal_pure (function value)

theorem legal_foldlM
    {following : β → α → Draws β} (each : ∀ value item, Legal (following value item))
    (items : List α) (initial : β) : Legal (items.foldlM following initial) := by
  induction items generalizing initial with
  | nil => exact legal_pure initial
  | cons item rest inductionHypothesis =>
      rw [List.foldlM_cons]
      exact (each initial item).bind inductionHypothesis

end Draws

/-- Draws a member of an alphabet and stops if the position drawn is not in it. -/
def Alphabet.drawStrictly (alphabet : Alphabet) : OptionT Draws Char := do
  let position ← Draws.index alphabet.size
  OptionT.mk (pure alphabet.characters[position]?)

theorem Alphabet.faultless_draw (alphabet : Alphabet) :
    Draws.Faultless alphabet.drawStrictly alphabet.draw := by
  have positive : 0 < alphabet.size := List.length_pos_of_ne_nil alphabet.ne_nil
  refine @Draws.Faultless.ask _ (.index alphabet.size)
    (fun answer => .mk (pure alphabet.characters[answer]?)) _ positive fun answer permitted => ?_
  have inside : answer < alphabet.characters.length := permitted positive
  show Draws.Faultless (.mk (pure alphabet.characters[answer]?))
    (pure (alphabet.characters.getD answer (alphabet.characters.head alphabet.ne_nil)))
  rw [List.getD_eq_getElem?_getD, List.getElem?_eq_getElem inside]
  exact .done alphabet.characters[answer]

namespace Pattern

open Draws (Faultless Legal)

theorem render_faultless
    {strictly : α → OptionT Draws Text} {replacement : α → Draws Text} {pieces : List (Piece α)}
    (each : ∀ value ∈ pieces.filterMap Piece.value?,
      Faultless (strictly value) (replacement value)) :
    Faultless (render strictly pieces) (render replacement pieces) := by
  induction pieces with
  | nil => exact .done []
  | cons piece rest inductionHypothesis =>
      cases piece with
      | copied symbol =>
          rw [render_copied, render_copied]
          exact (inductionHypothesis each).map _
      | found span value =>
          have first := each value List.mem_cons_self
          have others := inductionHypothesis fun later member =>
            each later (List.mem_cons_of_mem value member)
          rw [render_found, render_found]
          exact first.bind fun front => others.bind fun back => .done (front ++ back)

theorem liftM_render (replacement : α → Draws Text) (pieces : List (Piece α)) :
    (liftM (render replacement pieces) : OptionT Draws Text) =
      render (fun value => liftM (replacement value)) pieces := by
  induction pieces with
  | nil => rfl
  | cons piece rest inductionHypothesis =>
      cases piece with
      | copied symbol => rw [render_copied, render_copied, liftM_map, inductionHypothesis]
      | found span value =>
          rw [render_found, render_found, liftM_bind]
          simp only [liftM_bind, inductionHypothesis, liftM_pure]

theorem render_legal
    {replacement : α → Draws Text} {pieces : List (Piece α)}
    (each : ∀ value ∈ pieces.filterMap Piece.value?, Legal (replacement value)) :
    Legal (render replacement pieces) := by
  rw [Legal, liftM_render]
  exact render_faultless each

/-- The bounds are in order and not above a thousand. -/
def Quantifier.Legal (quantifier : Quantifier) : Prop :=
  quantifier.least ≤ quantifier.most ∧ quantifier.most ≤ 1000

theorem QuantifierSpan.legal
    {span : Text} {quantifier : Quantifier} (construct : QuantifierSpan span quantifier) :
    quantifier.Legal := by
  cases construct with
  | numerals least most ordered =>
      have greater : 1000 ≤ UInt64.size - 1 := by decide
      simp only [Quantifier.Legal]
      omega

theorem mem_of_mem_copies
    {count : Nat} {atom : Text} {symbol : Char}
    (member : symbol ∈ (List.replicate count atom).flatten) : symbol ∈ atom := by
  obtain ⟨copy, among, inside⟩ := List.mem_flatten.mp member
  rwa [List.eq_of_mem_replicate among] at inside

theorem Repetition.legal_copies {repetition : Repetition} (legal : repetition.quantifier.Legal) :
    Draws.Legal repetition.copies :=
  Draws.Legal.bind (Faultless.between legal) fun _ => Draws.legal_pure _

/-- Each number of copies is asked for within bounds in order, whatever the text. -/
theorem AtomKind.legal_repeatAll (kind : AtomKind) (text : Text) :
    Legal (kind.repeatAll text) := by
  apply render_legal
  intro repetition member
  apply Repetition.legal_copies
  obtain ⟨span, construct, _⟩ := (kind.composes_pieces text).exists_span_of_mem_values member
  obtain ⟨bounds, bounded, _⟩ := kind.span_eq construct
  exact bounded.legal

theorem Marker.legal_quantifier (marker : Marker) : Legal marker.quantifier := by
  have bound : (Call.between 1 greatestDrawnBound).Legal := by decide
  cases marker with
  | optional => exact Draws.legal_pure _
  | zeroOrMore => exact Draws.Legal.bind (Faultless.between bound) fun _ => Draws.legal_pure _
  | oneOrMore => exact Draws.Legal.bind (Faultless.between bound) fun _ => Draws.legal_pure _

theorem Marker.legal_expand (marker : Marker) (text : Text) : Legal (marker.expand text) :=
  render_legal fun _ _ => marker.legal_quantifier.map Quantifier.toText

theorem Wildcard.legal_draw : Legal Wildcard.draw := by
  have range : 0 < last.toNat - first.toNat := by decide
  exact Draws.Legal.bind (Faultless.index range) fun _ => Draws.legal_pure _

theorem split_ne_nil (separator : Char) (text : Text) : Text.split separator text ≠ [] := by
  rw [Text.split]
  induction text with
  | nil => exact List.cons_ne_nil [] []
  | cons symbol rest inductionHypothesis =>
      obtain ⟨part, parts, written⟩ := List.exists_cons_of_ne_nil inductionHypothesis
      rw [List.foldr_cons, written, Text.split.extend]
      split
      · exact List.cons_ne_nil _ _
      · exact List.cons_ne_nil _ _

/-- Each part is the text with something left out. -/
theorem sublist_of_mem_split
    {separator : Char} {text part : Text} (among : part ∈ Text.split separator text) :
    part.Sublist text := by
  induction text generalizing part with
  | nil =>
      rw [List.mem_singleton.mp among]
  | cons symbol rest inductionHypothesis =>
      have nonempty := split_ne_nil separator rest
      obtain ⟨first, others, behind⟩ := List.exists_cons_of_ne_nil nonempty
      rw [behind] at inductionHypothesis
      rw [Text.split, List.foldr_cons, ← Text.split, behind, Text.split.extend] at among
      split at among
      · rcases List.mem_cons.mp among with rfl | later
        · exact List.nil_sublist _
        · exact (inductionHypothesis later).cons symbol
      · rcases List.mem_cons.mp among with rfl | later
        · exact (inductionHypothesis List.mem_cons_self).cons_cons symbol
        · exact (inductionHypothesis (List.mem_cons_of_mem first later)).cons symbol

/-- A branch has characters of the body in it, and parentheses for opening ones. -/
theorem Alternation.mem_of_mem_branch
    {body branch : Text} (among : branch ∈ branches body) {symbol : Char}
    (member : symbol ∈ branch) : symbol ∈ body ∨ symbol = ')' := by
  obtain ⟨source, inside, rfl⟩ := List.mem_map.mp ((sublist_of_mem_split among).subset member)
  split
  · exact .inr rfl
  · exact .inl inside

/-- Chooses a branch and stops if there is none. -/
def Alternation.chooseStrictly (body : Text) : OptionT Draws Text :=
  .mk (Draws.sample? (branches body))

theorem Alternation.faultless_choose (body : Text) :
    Faultless (chooseStrictly body) (choose body) := by
  have chosen := Faultless.sample? (split_ne_nil '|' _ : branches body ≠ []) (·.getD [])
  simp only [Option.getD_some, id_map'] at chosen
  rwa [choose, ← map_eq_pure_bind]

/-- Chooses a member and stops if there is none. -/
def CharacterClass.chooseStrictly (body : Text) : OptionT Draws Text := do
  return [← OptionT.mk (Draws.sample? body)]

theorem CharacterClass.faultless_choose {body : Text} (nonempty : body ≠ []) :
    Faultless (chooseStrictly body) (choose body) := by
  have chosen := Faultless.sample? nonempty Option.toList
  rwa [chooseStrictly, choose, ← map_eq_pure_bind, ← map_eq_pure_bind]

namespace Stage

/-- What a stage does, stopping where a lookup finds nothing. -/
def applyStrictly : Stage → Text → OptionT Draws Text
  | resolveAlternation, text => render Alternation.chooseStrictly (Alternation.pieces text)
  | resolveClasses, text => render CharacterClass.chooseStrictly (CharacterClass.pieces text)
  | resolveShorthands, text =>
      Shorthand.all.foldlM (fun text shorthand =>
        render (fun _ => return [← shorthand.alphabet.drawStrictly]) (shorthand.pieces text)) text
  | stage, text => stage.apply text

theorem faultless_apply (stage : Stage) (text : Text) :
    Faultless (stage.applyStrictly text) (stage.apply text) := by
  cases stage with
  | stripDelimiters => exact Draws.legal_pure _
  | normalizeFixedCounts => exact Draws.legal_pure _
  | expandMarkers => exact Draws.legal_foldlM (fun text marker => marker.legal_expand text) _ text
  | repeatQuantified => exact Draws.legal_foldlM (fun text kind => kind.legal_repeatAll text) _ text
  | resolveAlternation => exact render_faultless fun body _ => Alternation.faultless_choose body
  | expandClassRanges => exact Draws.legal_pure _
  | resolveClasses =>
      apply render_faultless
      intro body member
      obtain ⟨span, construct, _⟩ := (composes_classes text).exists_span_of_mem_values member
      cases construct with
      | body _ nonempty _ => exact CharacterClass.faultless_choose nonempty
  | resolveShorthands =>
      rw [applyStrictly, apply, Pattern.resolveShorthands]
      refine Faultless.foldlM (fun text shorthand => render_faultless fun _ _ => ?_) _ text
      exact shorthand.alphabet.faultless_draw.bind fun symbol => .done [symbol]
  | resolveWildcards =>
      exact render_legal fun _ _ => Draws.Legal.bind Wildcard.legal_draw fun _ => Draws.legal_pure _
  | stripEscapes => exact Draws.legal_pure _

end Stage

/-- The stages one after the other, stopping where a lookup finds nothing. -/
def expandStrictly (pattern : Text) : OptionT Draws Text :=
  Stage.all.foldlM (fun text stage => stage.applyStrictly text) pattern

/-- No pattern makes an expansion ask an illegal question or look up what is not there. -/
theorem faultless_expand (pattern : Text) : Faultless (expandStrictly pattern) (expand pattern) :=
  Faultless.foldlM (fun text stage => stage.faultless_apply text) Stage.all pattern

end Pattern

end RandomCodes

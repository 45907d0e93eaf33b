import RandomCodes.Proofs.Pattern.Grammar
import RandomCodes.Proofs.Pattern.Rewriting
/-!
# Passes replace exactly the constructs of their grammar

The attempts of a pass may remember where the latest search for a stop has ended. Whatever they
remember from earlier places of the same text, they read what a recogniser without a memory reads.
So a pass accepts the grammar of its recogniser at every place, and what it rewrites is the one
split of the text by this grammar.
-/

namespace RandomCodes.Pattern

variable {α Memory : Type}

theorem Cursor.moves_shift_iff {offset : Nat} {before after : Cursor} {span : Text} :
    (before.shift offset).Moves span (after.shift offset) ↔ before.Moves span after := by
  constructor
  · intro moves
    have place := moves.place
    simp only [shift] at place
    exact ⟨moves.text, by omega⟩
  · intro moves
    have place := moves.place
    refine ⟨moves.text, ?_⟩
    simp only [shift]
    omega

theorem Recogniser.Accepts.uniform
    {recogniser : Recogniser α} {grammar : Grammar α} (accepts : recogniser.Accepts grammar) :
    recogniser.Uniform := by
  intro offset cursor
  apply Option.ext
  intro result
  obtain ⟨value, next⟩ := result
  rw [Option.map_eq_some_iff, accepts]
  constructor
  · intro stands
    obtain ⟨span, construct, moves⟩ := stands
    have shifted : next = Cursor.shift offset
        { position := cursor.position + span.length, rest := next.rest } := by
      rw [moves.after_eq]
      simp only [Cursor.shift, Nat.add_right_comm]
    rw [shifted, Cursor.moves_shift_iff] at moves
    exact ⟨(value, _), (accepts _ _ _).mpr ⟨span, construct, moves⟩,
      congrArg (Prod.mk value) shifted.symm⟩
  · intro found
    obtain ⟨⟨_, behind⟩, read, same⟩ := found
    obtain ⟨rfl, rfl⟩ := Prod.mk.inj same
    obtain ⟨span, construct, moves⟩ := (accepts _ _ _).mp read
    exact ⟨span, construct, Cursor.moves_shift_iff.mpr moves⟩

namespace Attempt

/-- What an attempt can remember in a text: what it begins with, and what a try at any place leaves
behind. -/
inductive Remembers (attempt : Attempt Memory α) (unused : Memory) (text : Text) : Memory → Prop
  | unused : Remembers attempt unused text unused
  | tried (position : Nat) {memory : Memory} (earlier : Remembers attempt unused text memory) :
      Remembers attempt unused text (attempt (Cursor.at text position) memory).2

/-- Whatever it remembers, the attempt reads what the recogniser reads. -/
def Agrees (attempt : Attempt Memory α) (unused : Memory) (recogniser : Recogniser α) : Prop :=
  ∀ text memory, attempt.Remembers unused text memory → ∀ position,
    (attempt (Cursor.at text position) memory).1 = recogniser (Cursor.at text position)

/-- An attempt accepts a grammar when it reads the spans of the grammar at every place of every
text, whatever it remembers of the text, and when its passes rewrite the one split of the text by
the grammar, piece by piece. -/
structure Accepts (attempt : Attempt Memory α) (unused : Memory) (grammar : Grammar α) : Prop where
  reads : ∀ text memory, attempt.Remembers unused text memory → ∀ position value next,
    (attempt (Cursor.at text position) memory).1 = some (value, next) ↔
      ∃ span, grammar span value ∧ span <+: text.drop position ∧
        next = Cursor.at text (position + span.length)
  rewrites : ∀ text, ∃ parts, Splits grammar text parts ∧
    (∀ others, Splits grammar text others → others = parts) ∧
    ∀ {m : Type → Type} [Monad m] [LawfulMonad m] (replacement : α → m Text),
      render replacement (pieces attempt unused text) =
        List.flatten <$> parts.mapM (Piece.rewritten replacement)

variable {attempt : Attempt Memory α} {unused : Memory} {recogniser : Recogniser α}
  {grammar : Grammar α}

theorem Agrees.pieces_eq
    (agrees : attempt.Agrees unused recogniser) (uniform : recogniser.Uniform) (text : Text) :
    pieces attempt unused text = (recogniser.attempt.reader ()).pieces text := by
  have follows : attempt.Follows (recogniser.attempt.reader ()) text
      (attempt.Remembers unused text) := by
    intro position memory remembers
    refine ⟨?_, .tried position remembers⟩
    rw [agrees text memory remembers]
    exact (Recogniser.attempt_follows uniform text position () trivial).1
  exact pieces_eq_of_follows follows .unused

theorem Agrees.reader_eq (agrees : attempt.Agrees unused recogniser) :
    attempt.reader unused = recogniser.attempt.reader () := by
  funext text
  have first : (attempt (Cursor.start text) unused).1 = recogniser (Cursor.start text) :=
    agrees text unused .unused 0
  rw [Attempt.reader, first]
  rfl

/-- As a reader of texts, the attempt finds the same pieces. -/
theorem Agrees.pieces_eq_reader
    (agrees : attempt.Agrees unused recogniser) (accepts : recogniser.Accepts grammar)
    (text : Text) : pieces attempt unused text = (attempt.reader unused).pieces text := by
  rw [agrees.reader_eq]
  exact agrees.pieces_eq accepts.uniform text

theorem Agrees.splits_pieces
    (agrees : attempt.Agrees unused recogniser) (accepts : recogniser.Accepts grammar)
    (proper : grammar.Proper) (text : Text) :
    Splits grammar text (pieces attempt unused text) := by
  rw [agrees.pieces_eq accepts.uniform]
  exact accepts.obeys.splits_pieces proper text

theorem Agrees.accepts
    (agrees : attempt.Agrees unused recogniser) (accepts : recogniser.Accepts grammar)
    (proper : grammar.Proper) : attempt.Accepts unused grammar where
  reads text memory remembers position value next := by
    rw [agrees text memory remembers, accepts]
    simp only [Cursor.moves_at_iff]
  rewrites text := by
    refine ⟨pieces attempt unused text, agrees.splits_pieces accepts proper text, ?_, ?_⟩
    · intro others splits
      rw [agrees.pieces_eq accepts.uniform]
      exact accepts.obeys.pieces_eq_of_splits proper splits
    · intro m _ _ replacement
      exact render_eq_mapM replacement _

end Attempt

theorem Recogniser.agrees (recogniser : Recogniser α) :
    recogniser.attempt.Agrees () recogniser :=
  fun _ _ _ _ => rfl

namespace Bracketed

variable {bracketed : Bracketed α} {text : Text} {finder : StopFinder}

/-- With a finder that fits the text, the search for a stop is as good as a new one. -/
theorem attempt_at (fits : finder.Fits text) (position : Nat) :
    (bracketed.attempt (Cursor.at text position) finder).1 =
        bracketed.recogniser finder.stops (Cursor.at text position) ∧
      (bracketed.attempt (Cursor.at text position) finder).2.stops = finder.stops ∧
      (bracketed.attempt (Cursor.at text position) finder).2.Fits text := by
  rw [recogniser, attempt]
  cases opened : Recogniser.char bracketed.opening (Cursor.at text position) with
  | none => exact ⟨rfl, rfl, fits⟩
  | some result =>
      obtain ⟨_, body⟩ := result
      obtain ⟨_, rfl, moves⟩ := (Recogniser.char_accepts _ _ _ _).mp opened
      obtain rfl := (Cursor.moves_at_iff.mp moves).2
      obtain ⟨found, stops, stillFits⟩ := StopFinder.find_spec fits (position + 1)
      refine ⟨?_, stops, stillFits⟩
      exact congrArg (·.bind (bracketed.accept (Cursor.at text (position + 1)))) found

theorem remembers_fits
    {stops : List Char} (remembers : bracketed.attempt.Remembers { stops } text finder) :
    finder.stops = stops ∧ finder.Fits text := by
  induction remembers with
  | unused => exact ⟨rfl, StopFinder.fits_of_unused text stops⟩
  | tried position earlier inductionHypothesis =>
      obtain ⟨rfl, fits⟩ := inductionHypothesis
      exact (attempt_at fits position).2

theorem agrees (bracketed : Bracketed α) (stops : List Char) :
    bracketed.attempt.Agrees { stops } (bracketed.recogniser stops) := by
  intro text finder remembers position
  obtain ⟨rfl, fits⟩ := remembers_fits remembers
  exact (attempt_at fits position).1

end Bracketed

theorem countSpan_proper : Grammar.Proper CountSpan := by
  intro span count construct
  cases construct
  exact List.cons_ne_nil _ _

theorem quantifierSpan_proper : Grammar.Proper QuantifierSpan := by
  intro span quantifier construct
  cases construct
  exact List.cons_ne_nil _ _

theorem AtomKind.span_proper (kind : AtomKind) : Grammar.Proper kind.Span := by
  intro span repetition construct
  cases kind <;> cases construct <;> exact List.cons_ne_nil _ _

theorem classSpan_proper : Grammar.Proper ClassSpan := by
  intro span body construct
  cases construct
  exact List.cons_ne_nil _ _

theorem alternationSpan_proper : Grammar.Proper AlternationSpan := by
  intro span body construct
  cases construct
  exact List.cons_ne_nil _ _

theorem shorthandSpan_proper (symbol : Char) : Grammar.Proper (ShorthandSpan symbol) := by
  intro span value construct
  cases construct
  exact List.cons_ne_nil _ _

namespace AtomKind

/-- Reads an atom of a kind, its end searched for anew every time. -/
def recogniser : AtomKind → Recogniser Repetition
  | group => repeatedGroup.recogniser [')']
  | characterClass => repeatedClass.recogniser [']']
  | single => repeatedSingle

theorem recogniser_accepts (kind : AtomKind) : kind.recogniser.Accepts kind.Span := by
  cases kind with
  | group => exact repeated_accepts '(' ')' .group
  | characterClass => exact repeated_accepts '[' ']' .characterClass
  | single => exact repeatedSingle_accepts

theorem agrees (kind : AtomKind) :
    kind.attempt.Agrees { stops := kind.stops } kind.recogniser := by
  cases kind with
  | group => exact repeatedGroup.agrees [')']
  | characterClass => exact repeatedClass.agrees [']']
  | single => exact fun _ _ _ _ => rfl

end AtomKind

/-- An atom with a quantifier behind it, whatever its kind. -/
theorem AtomKind.span_eq
    {kind : AtomKind} {span : Text} {repetition : Repetition}
    (construct : kind.Span span repetition) :
    ∃ bounds, QuantifierSpan bounds repetition.quantifier ∧ span = repetition.atom ++ bounds := by
  cases kind with
  | group =>
      obtain ⟨body, _, _, bounded⟩ := construct
      exact ⟨_, bounded, by simp⟩
  | characterClass =>
      obtain ⟨body, _, _, bounded⟩ := construct
      exact ⟨_, bounded, by simp⟩
  | single =>
      cases construct with
      | escaped symbol _ bounded => exact ⟨_, bounded, rfl⟩
      | plain symbol _ bounded => exact ⟨_, bounded, rfl⟩

/-- Each recogniser accepts its grammar: the counts, the quantifiers, the atoms of every kind with a
quantifier behind them, the classes and the alternations. -/
theorem attempts_accept :
    fixedCount.attempt.Accepts () CountSpan ∧
      Quantifier.recogniser.attempt.Accepts () QuantifierSpan ∧
      (∀ kind : AtomKind, kind.attempt.Accepts { stops := kind.stops } kind.Span) ∧
      CharacterClass.body.attempt.Accepts { stops := CharacterClass.stops } ClassSpan ∧
      Alternation.body.attempt.Accepts { stops := Alternation.stops } AlternationSpan := by
  have counts := (Recogniser.agrees fixedCount).accepts fixedCount_accepts countSpan_proper
  have quantifiers := (Recogniser.agrees Quantifier.recogniser).accepts
    Quantifier.recogniser_accepts quantifierSpan_proper
  have classes := (CharacterClass.body.agrees CharacterClass.stops).accepts classBody_accepts
    classSpan_proper
  have alternations := (Alternation.body.agrees Alternation.stops).accepts alternationBody_accepts
    alternationSpan_proper
  refine ⟨counts, quantifiers, ?_, classes, alternations⟩
  intro kind
  exact kind.agrees.accepts kind.recogniser_accepts kind.span_proper

theorem composes_fixedCounts (text : Text) :
    Composes CountSpan text (fixedCount.pieces text) :=
  ((Recogniser.agrees fixedCount).splits_pieces fixedCount_accepts countSpan_proper text).toComposes

theorem AtomKind.composes_pieces (kind : AtomKind) (text : Text) :
    Composes kind.Span text (kind.pieces text) :=
  (kind.agrees.splits_pieces kind.recogniser_accepts kind.span_proper text).toComposes

theorem composes_classes (text : Text) :
    Composes ClassSpan text (CharacterClass.pieces text) :=
  ((CharacterClass.body.agrees _).splits_pieces classBody_accepts classSpan_proper text).toComposes

theorem composes_alternations (text : Text) :
    Composes AlternationSpan text (Alternation.pieces text) :=
  ((Alternation.body.agrees _).splits_pieces alternationBody_accepts alternationSpan_proper
    text).toComposes

theorem composes_shorthands (shorthand : Shorthand) (text : Text) :
    Composes (ShorthandSpan shorthand.symbol) text (shorthand.pieces text) :=
  ((Recogniser.agrees _).splits_pieces (shorthand_accepts _) (shorthandSpan_proper _)
    text).toComposes

theorem composes_unescaped (marker : Char) (text : Text) :
    Composes (fun span _ => span = [marker]) text (unescapedPieces marker text) := by
  suffices composes : ∀ escaped, Composes (fun span _ => span = [marker]) text
      (unescapedPieces.go marker escaped [] text) from composes false
  induction text with
  | nil => exact fun _ => .nil
  | cons symbol rest inductionHypothesis =>
      intro escaped
      rw [unescapedPieces.go]
      split
      · rename_i found
        obtain rfl : symbol = marker := by
          simp only [Bool.and_eq_true, beq_iff_eq] at found
          exact found.1
        rw [unescapedPieces.go_eq]
        exact (inductionHypothesis false).find rfl
      · rw [unescapedPieces.go_eq]
        exact (inductionHypothesis _).copy symbol

end RandomCodes.Pattern

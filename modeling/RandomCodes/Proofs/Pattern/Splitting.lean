import RandomCodes.Proofs.Outcomes
import RandomCodes.Proofs.Pattern.Reading
/-!
# The one way to split a text into constructs

A grammar says which spans are constructs, and what the value of each is. A text is split by a
grammar when it is cut into spans of the grammar and single characters, and at none of these
characters a span of the grammar begins. A reader that reads what the grammar gives cuts every text
this way, and there is no other way to do it.

What a pass makes of a text is put together from what becomes of its pieces. So a relation between
texts that holds for the pieces and passes to joined texts holds between a text and all that a pass
can make of it.
-/

namespace RandomCodes.Pattern

variable {α : Type}

/-- The spans that are constructs of some kind, each with its value. -/
abbrev Grammar (α : Type) := Text → α → Prop

/-- A span of the grammar stands at the beginning of the text. -/
def Grammar.Begins (grammar : Grammar α) (text : Text) : Prop :=
  ∃ span value, grammar span value ∧ span <+: text

/-- Nowhere in the text a span of the grammar begins. -/
def Grammar.Absent (grammar : Grammar α) (text : Text) : Prop :=
  ∀ rest, rest <:+ text → ¬ grammar.Begins rest

/-- No span of the grammar is empty. -/
def Grammar.Proper (grammar : Grammar α) : Prop :=
  ∀ span value, grammar span value → span ≠ []

/-- The pieces are a text cut apart, and what is set aside in them are spans of the grammar. -/
structure Composes (grammar : Grammar α) (text : Text) (pieces : List (Piece α)) : Prop where
  source : pieces.flatMap Piece.source = text
  found : ∀ span value, Piece.found span value ∈ pieces → grammar span value

/-- The pieces are a text cut apart into spans of the grammar and characters at which none begins. -/
structure Splits (grammar : Grammar α) (text : Text) (pieces : List (Piece α)) : Prop
    extends Composes grammar text pieces where
  copied : ∀ front symbol back, pieces = front ++ .copied symbol :: back →
    ¬ grammar.Begins (symbol :: back.flatMap Piece.source)

namespace Composes

variable {grammar : Grammar α} {text : Text} {pieces : List (Piece α)}

theorem nil : Composes grammar [] [] where
  source := rfl
  found _ _ member := by cases member

theorem copy (composes : Composes grammar text pieces) (symbol : Char) :
    Composes grammar (symbol :: text) (.copied symbol :: pieces) where
  source := by rw [List.flatMap_cons, composes.source, Piece.source, List.singleton_append]
  found span value member := by
    apply composes.found
    simpa using member

theorem find
    (composes : Composes grammar text pieces) {span : Text} {value : α}
    (construct : grammar span value) :
    Composes grammar (span ++ text) (.found span value :: pieces) where
  source := by rw [List.flatMap_cons, composes.source, Piece.source]
  found other otherValue member := by
    rcases List.mem_cons.mp member with same | later
    · obtain ⟨rfl, rfl⟩ := Piece.found.inj same
      exact construct
    · exact composes.found other otherValue later

theorem tail
    {piece : Piece α} (composes : Composes grammar text (piece :: pieces)) :
    Composes grammar (pieces.flatMap Piece.source) pieces where
  source := rfl
  found span value member := composes.found span value (List.mem_cons_of_mem piece member)

/-- The values are those of spans in the text. -/
theorem exists_span_of_mem_values
    (composes : Composes grammar text pieces) {value : α}
    (member : value ∈ pieces.filterMap Piece.value?) :
    ∃ span, grammar span value ∧ span ⊆ text := by
  obtain ⟨piece, among, valued⟩ := List.mem_filterMap.mp member
  cases piece with
  | copied symbol => cases valued
  | found span other =>
      obtain rfl := Option.some.inj valued
      refine ⟨span, composes.found span _ among, fun symbol inside => ?_⟩
      rw [← composes.source]
      exact List.mem_flatMap.mpr ⟨_, among, inside⟩

/-- What is written for the values is at most `factor` times as long as the text if that holds of
each span. -/
theorem length_flatMap_le
    (composes : Composes grammar text pieces) {written : α → Text} {factor : Nat}
    (each : ∀ span value, grammar span value → (written value).length ≤ factor * span.length) :
    ((pieces.filterMap Piece.value?).flatMap written).length ≤ factor * text.length := by
  induction pieces generalizing text with
  | nil => exact Nat.zero_le _
  | cons piece rest inductionHypothesis =>
      have behind := inductionHypothesis composes.tail
      rw [← composes.source, List.flatMap_cons, List.length_append, Nat.mul_add]
      cases piece with
      | copied symbol => exact Nat.le_trans behind (Nat.le_add_left _ _)
      | found span value =>
          have construct := composes.found span value List.mem_cons_self
          have front := each span value construct
          simp only [List.filterMap_cons, Piece.value?, List.flatMap_cons, List.length_append,
            Piece.source]
          omega

end Composes

namespace Splits

variable {grammar : Grammar α} {text : Text} {pieces : List (Piece α)}

theorem nil : Splits grammar [] [] where
  toComposes := .nil
  copied front symbol back cut := by
    have lengths := congrArg List.length cut
    simp at lengths

theorem copy
    (splits : Splits grammar text pieces) {symbol : Char}
    (outside : ¬ grammar.Begins (symbol :: text)) :
    Splits grammar (symbol :: text) (.copied symbol :: pieces) where
  toComposes := splits.toComposes.copy symbol
  copied front other back cut := by
    cases front with
    | nil =>
        obtain ⟨same, rfl⟩ := List.cons.inj cut
        obtain rfl := Piece.copied.inj same
        rwa [splits.source]
    | cons piece front => exact splits.copied front other back (List.cons.inj cut).2

theorem find
    (splits : Splits grammar text pieces) {span : Text} {value : α}
    (construct : grammar span value) :
    Splits grammar (span ++ text) (.found span value :: pieces) where
  toComposes := splits.toComposes.find construct
  copied front symbol back cut := by
    cases front with
    | nil => cases (List.cons.inj cut).1
    | cons piece front => exact splits.copied front symbol back (List.cons.inj cut).2

theorem tail
    {piece : Piece α} (splits : Splits grammar text (piece :: pieces)) :
    Splits grammar (pieces.flatMap Piece.source) pieces where
  toComposes := splits.toComposes.tail
  copied front symbol back cut := by
    apply splits.copied (piece :: front) symbol back
    rw [cut, List.cons_append]

end Splits

namespace Reader

/-- Whatever the reader reads at the beginning of a text is a span of the grammar. -/
def Sound (reader : Reader α) (grammar : Grammar α) : Prop :=
  ∀ text value length, reader text = some (value, length) →
    ∃ span, grammar span value ∧ span <+: text ∧ length = span.length

/-- The reader reads exactly the spans of the grammar that stand at the beginning of a text. -/
def Obeys (reader : Reader α) (grammar : Grammar α) : Prop :=
  ∀ text value length, reader text = some (value, length) ↔
    ∃ span, grammar span value ∧ span <+: text ∧ length = span.length

variable {reader : Reader α} {grammar : Grammar α}

/-- Along the pieces of a text: it goes on behind one character or behind one span. -/
theorem Sound.induction_on_pieces
    (sound : reader.Sound grammar) (proper : grammar.Proper)
    {motive : Text → List (Piece α) → Prop} (nil : motive [] [])
    (copied : ∀ symbol rest, reader (symbol :: rest) = none → motive rest (reader.pieces rest) →
      motive (symbol :: rest) (.copied symbol :: reader.pieces rest))
    (found : ∀ span value rest, grammar span value → motive rest (reader.pieces rest) →
      motive (span ++ rest) (.found span value :: reader.pieces rest))
    (text : Text) : motive text (reader.pieces text) := by
  -- A span can be long, so the induction is on the length of the text and not on the text.
  induction size : text.length using Nat.strong_induction_on generalizing text with
  | _ size inductionHypothesis =>
  subst size
  cases text with
  | nil => exact nil
  | cons symbol rest =>
      cases read : reader (symbol :: rest) with
      | none =>
          have others := inductionHypothesis rest.length (Nat.lt_succ_self _) rest rfl
          rw [pieces_of_eq_none read]
          exact copied symbol rest read others
      | some result =>
          obtain ⟨value, length⟩ := result
          obtain ⟨span, construct, ⟨behind, whole⟩, rfl⟩ := sound _ value length read
          have nonempty := proper span value construct
          have shorter : behind.length < (symbol :: rest).length := by
            have positive := List.length_pos_iff.mpr nonempty
            rw [← whole, List.length_append]
            omega
          have others := inductionHypothesis behind.length shorter behind rfl
          rw [← whole] at read ⊢
          rw [pieces_of_eq_some nonempty read]
          exact found span value behind construct others

/-- A sound reader cuts every text into characters and spans of the grammar. -/
theorem Sound.composes_pieces
    (sound : reader.Sound grammar) (proper : grammar.Proper) (text : Text) :
    Composes grammar text (reader.pieces text) := by
  apply sound.induction_on_pieces proper
  · exact .nil
  · intro symbol rest _ composes
    exact composes.copy symbol
  · intro span value rest construct composes
    exact composes.find construct

namespace Obeys

theorem sound (obeys : reader.Obeys grammar) : reader.Sound grammar :=
  fun text value length => (obeys text value length).mp

theorem read
    (obeys : reader.Obeys grammar) {span : Text} {value : α} (construct : grammar span value)
    (rest : Text) : reader (span ++ rest) = some (value, span.length) :=
  (obeys _ _ _).mpr ⟨span, construct, List.prefix_append span rest, rfl⟩

theorem eq_none_iff (obeys : reader.Obeys grammar) (text : Text) :
    reader text = none ↔ ¬ grammar.Begins text := by
  constructor
  · intro refused begins
    obtain ⟨span, value, construct, front⟩ := begins
    have read := (obeys text value span.length).mpr ⟨span, construct, front, rfl⟩
    rw [refused] at read
    cases read
  · intro outside
    rw [Option.eq_none_iff_forall_ne_some]
    intro found read
    obtain ⟨span, construct, front, _⟩ := (obeys text found.1 found.2).mp read
    exact outside ⟨span, found.1, construct, front⟩

/-- A reader of a grammar splits every text by it. -/
theorem splits_pieces
    (obeys : reader.Obeys grammar) (proper : grammar.Proper) (text : Text) :
    Splits grammar text (reader.pieces text) := by
  apply obeys.sound.induction_on_pieces proper
  · exact .nil
  · intro symbol rest refused splits
    exact splits.copy ((obeys.eq_none_iff _).mp refused)
  · intro span value rest construct splits
    exact splits.find construct

/-- A text is split by a grammar in one way only. -/
theorem pieces_eq_of_splits
    (obeys : reader.Obeys grammar) (proper : grammar.Proper) {text : Text}
    {parts : List (Piece α)} (splits : Splits grammar text parts) :
    parts = reader.pieces text := by
  induction parts generalizing text with
  | nil =>
      obtain rfl : [] = text := splits.source
      rfl
  | cons part others inductionHypothesis =>
      have behind := inductionHypothesis splits.tail
      rw [← splits.source, List.flatMap_cons]
      cases part with
      | copied symbol =>
          have outside := splits.copied [] symbol others rfl
          have refused := (obeys.eq_none_iff _).mpr outside
          rw [Piece.source, List.singleton_append, pieces_of_eq_none refused, ← behind]
      | found span value =>
          have construct := splits.found span value List.mem_cons_self
          have nonempty := proper span value construct
          rw [Piece.source, pieces_of_eq_some nonempty (obeys.read construct _), ← behind]

end Obeys

end Reader

/-! ## What becomes of the pieces -/

section Rewritten

variable {m : Type → Type} [Monad m]

/-- What a pass writes for a piece. -/
def Piece.rewritten (replacement : α → m Text) : Piece α → m Text
  | .copied symbol => pure [symbol]
  | .found _ value => replacement value

/-- A pass writes one piece after the other. -/
theorem render_eq_mapM [LawfulMonad m] (replacement : α → m Text) (pieces : List (Piece α)) :
    render replacement pieces = List.flatten <$> pieces.mapM (Piece.rewritten replacement) := by
  induction pieces with
  | nil => simp
  | cons piece rest inductionHypothesis =>
      cases piece with
      | copied symbol =>
          rw [render_copied, inductionHypothesis]
          simp [Piece.rewritten]
      | found span value =>
          rw [render_found, inductionHypothesis]
          simp [Piece.rewritten]

end Rewritten

/-- A relation between texts that holds for single characters and passes to joined texts. -/
structure Additive (Related : Text → Text → Prop) : Prop where
  nil : Related [] []
  symbol : ∀ symbol, Related [symbol] [symbol]
  append : ∀ {first firstResult second secondResult}, Related first firstResult →
    Related second secondResult → Related (first ++ second) (firstResult ++ secondResult)

/-- What holds of each construct and its replacement holds of the text and all results. -/
theorem Additive.render
    {Related : Text → Text → Prop} (additive : Additive Related) {grammar : Grammar α}
    {replacement : α → Draws Text}
    (replaced : ∀ span value, grammar span value →
      ∀ word, (replacement value).CanReturn word → Related span word)
    {text : Text} {pieces : List (Piece α)} (composes : Composes grammar text pieces)
    {result : Text} (returned : (Pattern.render replacement pieces).CanReturn result) :
    Related text result := by
  induction pieces generalizing text result with
  | nil =>
      obtain rfl : [] = text := composes.source
      obtain rfl := (Draws.canReturn_pure _ _).mp returned
      exact additive.nil
  | cons piece rest inductionHypothesis =>
      rw [← composes.source, List.flatMap_cons]
      cases piece with
      | copied symbol =>
          rw [render_copied] at returned
          obtain ⟨later, laterReturned, rfl⟩ := (Draws.canReturn_map _ _ _).mp returned
          exact additive.append (additive.symbol symbol)
            (inductionHypothesis composes.tail laterReturned)
      | found span value =>
          have construct := composes.found span value List.mem_cons_self
          rw [render_found] at returned
          obtain ⟨word, wordReturned, returned⟩ := (Draws.canReturn_bind _ _ _).mp returned
          obtain ⟨later, laterReturned, same⟩ := (Draws.canReturn_bind _ _ _).mp returned
          obtain rfl := (Draws.canReturn_pure _ _).mp same
          exact additive.append (replaced span value construct word wordReturned)
            (inductionHypothesis composes.tail laterReturned)

/-- Where no construct begins, nothing is replaced. -/
theorem Composes.render_eq_pure
    {grammar : Grammar α} {text : Text} {pieces : List (Piece α)}
    (composes : Composes grammar text pieces)
    (absent : grammar.Absent text) (replacement : α → Draws Text) :
    render replacement pieces = pure text := by
  induction pieces generalizing text with
  | nil =>
      obtain rfl : [] = text := composes.source
      rfl
  | cons piece rest inductionHypothesis =>
      have source := composes.source
      rw [List.flatMap_cons] at source
      cases piece with
      | copied symbol =>
          have ending : rest.flatMap Piece.source <:+ text := ⟨[symbol], source⟩
          have behind := inductionHypothesis composes.tail fun later suffix =>
            absent later (suffix.trans ending)
          rw [render_copied, behind, ← source]
          rfl
      | found span value =>
          have construct := composes.found span value List.mem_cons_self
          exact absurd ⟨span, value, construct, _, source⟩ (absent text List.suffix_rfl)

end RandomCodes.Pattern

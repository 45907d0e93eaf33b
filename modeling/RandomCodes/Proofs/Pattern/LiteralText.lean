import RandomCodes.Proofs.Pattern.Acceptance
import RandomCodes.Proofs.Pattern.Expansion
import RandomCodes.Proofs.Pattern.Syntax
/-!
# Texts that come through unchanged

A text in which nothing begins that a stage could read stands for itself once it is escaped. Each
stage reads nothing at any place of the escaped text: what it could read there would be written with
characters that are not escaped and would be in the text itself. So no stage draws or changes
anything before the last one takes the backslashes away.
-/

namespace RandomCodes.Pattern

/-- There is no backslash in the text, and no place of it begins a fixed count, a quantifier, an
alternation or a class. -/
structure Inert (text : Text) : Prop where
  noEscape : '\\' ∉ text
  noFixedCount : ∀ rest, rest <:+ text → fixedCount (Cursor.start rest) = none
  noQuantifier : ∀ rest, rest <:+ text → Quantifier.recogniser (Cursor.start rest) = none
  /-- The nearest `)` behind a `(` is not on its line. -/
  noAlternation : ∀ inner rest, '(' :: (inner ++ ')' :: rest) <:+ text →
    ')' ∈ inner ∨ '\n' ∈ inner
  /-- The nearest `]` behind a `[` is right behind it. -/
  noClass : ∀ inner rest, '[' :: (inner ++ ']' :: rest) <:+ text → inner = [] ∨ ']' ∈ inner

theorem unescaped_of_quantifier
    {symbol : Char} (part : symbol.isDigit ∨ symbol ∈ ['{', ',', '}']) :
    symbol ≠ '\\' ∧ symbol ∉ escapableCharacters := by
  have frame : ∀ other ∈ ['{', ',', '}'], other ≠ '\\' ∧ other ∉ escapableCharacters :=
    forall_of_all (by decide)
  have special : ∀ other ∈ escapableCharacters, other ∈ specialCharacters :=
    forall_of_all (by decide)
  rcases part with digit | brace
  · have ordinary := not_special_of_isDigit digit
    exact ⟨ne_of_not_special ordinary (by decide), fun member => ordinary (special symbol member)⟩
  · exact frame symbol brace

/-- A construct without characters that are escaped is in the text itself if it is in the escaped
one. -/
theorem absent_escape
    {α : Type} {grammar : Grammar α} (proper : grammar.Proper)
    (unescaped : ∀ span value, grammar span value →
      ∀ symbol ∈ span, symbol ≠ '\\' ∧ symbol ∉ escapableCharacters)
    {text : Text} (absent : grammar.Absent text) : grammar.Absent (escape text) := by
  intro rest suffix begins
  obtain ⟨span, value, construct, behind, written⟩ := begins
  rcases suffix_escape suffix with whole | cut
  · obtain ⟨inner, ending, rfl⟩ := whole
    obtain ⟨later, rfl, _⟩ := of_escape_eq_append (unescaped span value construct) written.symm
    exact absent _ ending ⟨span, value, construct, List.prefix_append span later⟩
  · obtain ⟨symbol, inner, escapable, rfl⟩ := cut
    obtain ⟨first, others, rfl⟩ := List.exists_cons_of_ne_nil (proper span value construct)
    have same : first = symbol := (List.cons.inj written).1
    exact (unescaped _ value construct first List.mem_cons_self).2 (same ▸ escapable)

/-- Where no quantifier is, no atom is repeated. -/
theorem repeatQuantified_eq_pure {text : Text} (unquantified : Grammar.Absent QuantifierSpan text) :
    repeatQuantified text = pure text := by
  have kept : ∀ kind : AtomKind, kind.repeatAll text = pure text := by
    intro kind
    apply (kind.composes_pieces text).render_eq_pure
    intro rest suffix begins
    obtain ⟨span, repetition, construct, behind, written⟩ := begins
    obtain ⟨bounds, bounded, rfl⟩ := kind.span_eq construct
    rw [List.append_assoc] at written
    have ending : bounds ++ behind <:+ text := List.IsSuffix.trans ⟨_, written⟩ suffix
    exact unquantified _ ending ⟨bounds, _, bounded, List.prefix_append bounds behind⟩
  simp only [repeatQuantified, AtomKind.all, List.foldlM_cons, List.foldlM_nil, kept, pure_bind]

namespace Inert

variable {text : Text}

theorem counts_absent (inert : Inert text) : Grammar.Absent CountSpan text :=
  fun rest suffix => (fixedCount_accepts.eq_none_iff _).mp (inert.noFixedCount rest suffix)

theorem quantifiers_absent (inert : Inert text) : Grammar.Absent QuantifierSpan text :=
  fun rest suffix => (Quantifier.recogniser_accepts.eq_none_iff _).mp (inert.noQuantifier rest suffix)

theorem alternations_absent (inert : Inert text) : Grammar.Absent AlternationSpan text := by
  intro rest suffix begins
  obtain ⟨span, body, construct, behind, rfl⟩ := begins
  obtain ⟨_, free, sameLine⟩ := construct
  rw [List.cons_append, List.append_assoc] at suffix
  exact (inert.noAlternation body behind suffix).elim free sameLine

theorem counts_absent_escape (inert : Inert text) : Grammar.Absent CountSpan (escape text) := by
  apply absent_escape countSpan_proper _ inert.counts_absent
  intro span value construct symbol member
  cases construct
  exact unescaped_of_quantifier (mem_fixedText member)

theorem quantifiers_absent_escape (inert : Inert text) :
    Grammar.Absent QuantifierSpan (escape text) := by
  apply absent_escape quantifierSpan_proper _ inert.quantifiers_absent
  intro span value construct symbol member
  cases construct
  exact unescaped_of_quantifier (mem_quantifierText member)

theorem alternations_absent_escape (inert : Inert text) :
    Grammar.Absent AlternationSpan (escape text) := by
  intro rest suffix begins
  obtain ⟨span, body, construct, behind, rfl⟩ := begins
  obtain ⟨_, free, sameLine⟩ := construct
  rw [List.cons_append, List.append_assoc] at suffix
  obtain ⟨inner, later, inside, rfl⟩ := exists_span_of_suffix_escape
    (by decide) (by decide) (by decide) (by decide) suffix
  rcases inert.noAlternation inner later inside with closing | lineEnd
  · exact free (mem_escape_of_mem closing)
  · exact sameLine (mem_escape_of_mem lineEnd)

theorem classes_absent_escape (inert : Inert text) : Grammar.Absent ClassSpan (escape text) := by
  intro rest suffix begins
  obtain ⟨span, body, construct, behind, rfl⟩ := begins
  obtain ⟨_, nonempty, free⟩ := construct
  rw [List.cons_append, List.append_assoc] at suffix
  obtain ⟨inner, later, inside, rfl⟩ := exists_span_of_suffix_escape
    (by decide) (by decide) (by decide) (by decide) suffix
  rcases inert.noClass inner later inside with nothing | closing
  · exact nonempty (nothing ▸ escape_nil)
  · exact free (mem_escape_of_mem closing)

theorem shorthands_absent_escape (inert : Inert text) (shorthand : Shorthand) :
    Grammar.Absent (ShorthandSpan shorthand.symbol) (escape text) := by
  intro rest suffix begins
  obtain ⟨span, value, construct, behind, rfl⟩ := begins
  cases construct
  rcases suffix_escape suffix with whole | cut
  · obtain ⟨inner, ending, written⟩ := whole
    cases inner with
    | nil => cases written
    | cons head tail =>
        by_cases escapable : head ∈ escapableCharacters
        · rw [escape_cons_of_mem escapable] at written
          have same : shorthand.symbol = head := (List.cons.inj (List.cons.inj written).2).1
          have different : shorthand.symbol ∉ escapableCharacters := by cases shorthand <;> decide
          exact different (same ▸ escapable)
        · rw [escape_cons_of_not_mem escapable] at written
          have member : head ∈ text := ending.subset List.mem_cons_self
          exact absurd ((List.cons.inj written).1 ▸ member) inert.noEscape
  · obtain ⟨symbol, inner, escapable, written⟩ := cut
    have same : '\\' = symbol := (List.cons.inj written).1
    exact absurd (same ▸ escapable) (by decide)

end Inert

/-- In an escaped text every occurrence of an escapable character is escaped. -/
theorem replaceUnescaped_escape
    {marker : Char} (escapable : marker ∈ escapableCharacters) {text : Text}
    (noEscape : '\\' ∉ text) (replacement : Draws Text) :
    replaceUnescaped marker replacement (escape text) = pure (escape text) := by
  induction text with
  | nil => rfl
  | cons symbol rest inductionHypothesis =>
      have markerNoEscape : marker ≠ '\\' := ne_of_mem_escapable escapable (by decide)
      have symbolNoEscape : symbol ≠ '\\' := fun same => noEscape (by simp [same])
      have behind := inductionHypothesis fun member => noEscape (List.mem_cons_of_mem symbol member)
      rw [replaceUnescaped] at behind ⊢
      by_cases escaped : symbol ∈ escapableCharacters
      · rw [escape_cons_of_mem escaped, unescapedPieces_escaped markerNoEscape, render_copied,
          render_copied, behind]
        rfl
      · have other : symbol ≠ marker := fun same => escaped (same ▸ escapable)
        rw [escape_cons_of_not_mem escaped, unescapedPieces_of_ne other symbolNoEscape,
          render_copied, behind]
        rfl

theorem Marker.symbol_escapable (kind : Marker) : kind.symbol ∈ escapableCharacters := by
  cases kind <;> decide

/-- The stages behind the first one undo the escaping and nothing else. -/
theorem expandInside_escape {text : Text} (inert : Inert text) :
    expandInside (escape text) = pure text := by
  have counts : fixedCountPass (escape text) = pure (escape text) := by
    rw [fixedCountPass, normalizeFixedCounts, pure_render]
    exact (composes_fixedCounts _).render_eq_pure inert.counts_absent_escape _
  have marker : ∀ kind : Marker, kind.expand (escape text) = pure (escape text) :=
    fun kind => replaceUnescaped_escape kind.symbol_escapable inert.noEscape _
  have markers : expandMarkers (escape text) = pure (escape text) := by
    simp only [expandMarkers, Marker.all, List.foldlM_cons, List.foldlM_nil, marker, pure_bind]
  have repeated : repeatQuantified (escape text) = pure (escape text) :=
    repeatQuantified_eq_pure inert.quantifiers_absent_escape
  have chosen : resolveAlternation (escape text) = pure (escape text) :=
    (composes_alternations _).render_eq_pure inert.alternations_absent_escape _
  have spelled : classRangePass (escape text) = pure (escape text) := by
    rw [classRangePass, expandClassRanges, pure_render]
    exact (composes_classes _).render_eq_pure inert.classes_absent_escape _
  have members : resolveClasses (escape text) = pure (escape text) :=
    (composes_classes _).render_eq_pure inert.classes_absent_escape _
  have shorthand : ∀ kind : Shorthand, kind.resolve (escape text) = pure (escape text) :=
    fun kind => (composes_shorthands kind _).render_eq_pure (inert.shorthands_absent_escape kind) _
  have shorthands : resolveShorthands (escape text) = pure (escape text) := by
    simp only [resolveShorthands, Shorthand.all, List.foldlM_cons, List.foldlM_nil, shorthand,
      pure_bind]
  have wildcards : resolveWildcards (escape text) = pure (escape text) :=
    replaceUnescaped_escape (by decide) inert.noEscape _
  have stripped : escapePass (escape text) = pure text := by
    rw [escapePass, stripEscapes_escape inert.noEscape]
  simp only [expandInside, counts, markers, repeated, chosen, spelled, members, shorthands,
    wildcards, stripped, pure_bind]

theorem dropFirst_of_head?_ne {symbol : Char} {text : Text} (other : text.head? ≠ some symbol) :
    Text.dropFirst symbol text = text := by
  cases text with
  | nil => rfl
  | cons first rest =>
      have different : first ≠ symbol := by simpa using other
      rw [Text.dropFirst, if_neg different]

theorem dropLast_of_getLast?_ne {symbol : Char} {text : Text} (other : text.getLast? ≠ some symbol) :
    Text.dropLast symbol text = text := by
  rw [← List.head?_reverse] at other
  rw [Text.dropLast, dropFirst_of_head?_ne other, List.reverse_reverse]

/-- No delimiter stands at either end of the text. -/
structure Undelimited (text : Text) : Prop where
  first : text.head? ≠ some '/' ∧ text.head? ≠ some '^'
  last : text.getLast? ≠ some '/' ∧ text.getLast? ≠ some '$'

theorem stripDelimiters_eq_self {text : Text} (undelimited : Undelimited text) :
    stripDelimiters text = text := by
  simp only [stripDelimiters]
  rw [dropFirst_of_head?_ne undelimited.first.1, dropFirst_of_head?_ne undelimited.first.2,
    dropLast_of_getLast?_ne undelimited.last.1, dropLast_of_getLast?_ne undelimited.last.2]

/-- Once escaped, a text in which no stage could read anything is expanded to itself, and the source
is asked nothing. -/
theorem expand_escape_eq
    {text : Text} (inert : Inert text) {State : Type} (source : Source State) (state : State) :
    (expand (anchored (escape text))).run source.recorded { state } = (text, { state }) ∧
      (Undelimited (escape text) →
        (expand (escape text)).run source.recorded { state } = (text, { state })) := by
  constructor
  · rw [expand_eq, stripDelimiters_anchored, expandInside_escape inert]
    rfl
  · intro undelimited
    rw [expand_eq, stripDelimiters_eq_self undelimited, expandInside_escape inert]
    rfl

/-- An unclosed parenthesis, a dot, a stray bracket and reversed bounds. -/
def malformedText : Text :=
  "(1.5]{3,1}".toList

theorem malformedText_inert : Inert malformedText where
  noEscape := by decide
  noFixedCount rest suffix := by
    have refused : ∀ rest ∈ malformedText.tails, fixedCount (Cursor.start rest) = none := by decide
    exact refused rest ((List.mem_tails rest malformedText).mpr suffix)
  noQuantifier rest suffix := by
    have refused : ∀ rest ∈ malformedText.tails,
        Quantifier.recogniser (Cursor.start rest) = none := by decide
    exact refused rest ((List.mem_tails rest malformedText).mpr suffix)
  noAlternation inner rest suffix := by
    have member : ')' ∈ malformedText := suffix.subset (by simp)
    exact absurd member (by decide)
  noClass inner rest suffix := by
    have member : '[' ∈ malformedText := suffix.subset List.mem_cons_self
    exact absurd member (by decide)

theorem expand_escape_malformedText :
    Inert malformedText ∧ Undelimited (escape malformedText) ∧
      (expand (escape malformedText)).run Script.source.recorded { state := { values := [7] } } =
        (malformedText, { state := { values := [7] } }) := by
  have undelimited : Undelimited (escape malformedText) := ⟨by decide, by decide⟩
  have literal := expand_escape_eq malformedText_inert Script.source { values := [7] }
  exact ⟨malformedText_inert, undelimited, literal.2 undelimited⟩

end RandomCodes.Pattern

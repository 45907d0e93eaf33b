import RandomCodes.Proofs.Pattern.LiteralText
import RandomCodes.Proofs.Pattern.Passes
/-!
# Texts whose only closing bracket ends them

The stages in front of those for classes know nothing of brackets. Still, nothing that they read
ends with a closing bracket, and what they write has neither a closing bracket nor a dash or a
backslash that was not there before. So a text that ends with its only closing bracket, and has no
dash and no backslash, stays one whatever is drawn.
-/

namespace RandomCodes.Pattern

/-- There is no closing bracket, no dash and no backslash in the text. -/
def Flat (text : Text) : Prop :=
  ∀ symbol ∈ text, symbol ∉ [']', '-', '\\']

/-- A flat text with a closing bracket behind it. -/
def Closed (text : Text) : Prop :=
  ∃ inside, Flat inside ∧ text = inside ++ [']']

theorem flat_nil : Flat [] := by
  simp [Flat]

theorem flat_append_iff {front back : Text} : Flat (front ++ back) ↔ Flat front ∧ Flat back :=
  List.forall_mem_append

theorem flat_cons_iff {symbol : Char} {rest : Text} :
    Flat (symbol :: rest) ↔ symbol ∉ [']', '-', '\\'] ∧ Flat rest :=
  List.forall_mem_cons

namespace Flat

variable {text : Text}

theorem of_subset {other : Text} (flat : Flat text) (subset : other ⊆ text) : Flat other :=
  fun symbol member => flat symbol (subset member)

theorem noClosing (flat : Flat text) : ']' ∉ text :=
  fun member => flat ']' member (by decide)

theorem noDash (flat : Flat text) : '-' ∉ text :=
  fun member => flat '-' member (by decide)

theorem noEscape (flat : Flat text) : '\\' ∉ text :=
  fun member => flat '\\' member (by decide)

end Flat

theorem Closed.noEscape {text : Text} (closed : Closed text) : '\\' ∉ text := by
  obtain ⟨inside, flat, rfl⟩ := closed
  simp [flat.noEscape]

/-- A part that does not end with the last character of a text leaves that character behind it. -/
theorem of_append_singleton_eq
    {text front behind : Text} {close last : Char} (other : last ≠ close)
    (cut : text ++ [close] = front ++ last :: behind) :
    ∃ rest, text = front ++ last :: rest ∧ behind = rest ++ [close] := by
  rcases List.eq_nil_or_concat behind with rfl | ⟨rest, final, rfl⟩
  · have same := (List.append_inj' cut rfl).2
    exact absurd (List.cons.inj same).1.symm other
  · have joined : text ++ [close] = (front ++ last :: rest) ++ [final] := by simp [cut]
    obtain ⟨whole, same⟩ := List.append_inj' joined rfl
    exact ⟨rest, whole, by rw [(List.cons.inj same).1]; simp⟩

/-- An empty text has become an empty one, a flat text a flat one and a closed text a closed one. -/
structure Retains (text result : Text) : Prop where
  empty : text = [] → result = []
  flat : Flat text → Flat result
  closed : Closed text → Closed result

namespace Retains

theorem refl (text : Text) : Retains text text :=
  ⟨id, id, id⟩

theorem trans
    {first second third : Text} (front : Retains first second) (back : Retains second third) :
    Retains first third where
  empty nothing := back.empty (front.empty nothing)
  flat flat := back.flat (front.flat flat)
  closed closed := back.closed (front.closed closed)

theorem additive : Additive Retains where
  nil := refl []
  symbol symbol := refl [symbol]
  append := by
    intro first firstResult second secondResult front back
    refine ⟨?_, ?_, ?_⟩
    · intro nothing
      obtain ⟨firstEmpty, secondEmpty⟩ := List.append_eq_nil_iff.mp nothing
      rw [front.empty firstEmpty, back.empty secondEmpty]
      rfl
    · intro flat
      obtain ⟨firstFlat, secondFlat⟩ := flat_append_iff.mp flat
      exact flat_append_iff.mpr ⟨front.flat firstFlat, back.flat secondFlat⟩
    · intro closed
      obtain ⟨inside, flat, whole⟩ := closed
      rcases List.eq_nil_or_concat second with rfl | ⟨rest, last, rfl⟩
      · -- Nothing is behind the first text, so it is the one that is closed.
        rw [List.append_nil] at whole
        rw [back.empty rfl, List.append_nil]
        exact front.closed ⟨inside, flat, whole⟩
      · rw [List.concat_eq_append] at whole back
        rw [← List.append_assoc] at whole
        obtain ⟨rfl, same⟩ := List.append_inj' whole rfl
        obtain ⟨firstFlat, restFlat⟩ := flat_append_iff.mp flat
        obtain ⟨kept, keptFlat, rfl⟩ := back.closed ⟨rest, restFlat, congrArg (rest ++ ·) same⟩
        refine ⟨firstResult ++ kept, ?_, (List.append_assoc _ _ _).symm⟩
        exact flat_append_iff.mpr ⟨front.flat firstFlat, keptFlat⟩

/-- A construct that ends with another character than a closing bracket is not closed itself. -/
theorem of_flat
    (front : Text) {word : Text} {last : Char} (other : last ≠ ']')
    (flat : Flat (front ++ [last]) → Flat word) : Retains (front ++ [last]) word where
  empty nothing := absurd nothing (List.append_ne_nil_of_right_ne_nil front (List.cons_ne_nil _ _))
  flat := flat
  closed closed := by
    obtain ⟨inside, _, whole⟩ := closed
    have same := (List.append_inj' whole rfl).2
    exact absurd (List.cons.inj same).1 other

end Retains

theorem flat_of_quantifier
    {text : Text} (parts : ∀ symbol ∈ text, symbol.isDigit ∨ symbol ∈ ['{', ',', '}']) :
    Flat text := by
  have digits : ∀ other ∈ [']', '-', '\\'], other.isDigit = false := forall_of_all (by decide)
  have frame : ∀ other ∈ [']', '-', '\\'], other ∉ ['{', ',', '}'] := forall_of_all (by decide)
  intro symbol member sealing
  rcases parts symbol member with digit | brace
  · rw [digits symbol sealing] at digit
    cases digit
  · exact frame symbol sealing brace

theorem flat_toText (quantifier : Quantifier) : Flat quantifier.toText :=
  flat_of_quantifier fun _ member => Quantifier.mem_toText member

theorem normalizeFixedCounts_retains :
    Respects Retains fun text => pure (normalizeFixedCounts text) := by
  apply Retains.additive.respects_normalizeFixedCounts
  intro span count construct
  obtain ⟨numeral⟩ := construct
  have ends : fixedText numeral = ('{' :: numeral.digits) ++ ['}'] := by simp [fixedText]
  rw [ends]
  exact .of_flat _ (by decide) fun _ => flat_toText _

theorem Marker.expand_retains (marker : Marker) : Respects Retains marker.expand := by
  apply Retains.additive.respects_replaceUnescaped
  intro word written
  obtain ⟨quantifier, _, rfl⟩ := (Draws.canReturn_map _ _ _).mp written
  have other : marker.symbol ≠ ']' := by cases marker <;> decide
  exact .of_flat [] other fun _ => flat_toText quantifier

theorem AtomKind.repeatAll_retains (kind : AtomKind) : Respects Retains kind.repeatAll := by
  apply Retains.additive.respects_repeatAll
  intro span repetition construct count _
  obtain ⟨bounds, bounded, rfl⟩ := kind.span_eq construct
  obtain ⟨front, rfl⟩ := bounded.exists_eq_append_close
  rw [← List.append_assoc]
  apply Retains.of_flat _ (by decide)
  intro flat
  apply flat.of_subset
  intro symbol member
  simp [mem_of_mem_copies member]

theorem resolveAlternation_retains : Respects Retains resolveAlternation := by
  apply Retains.additive.respects_resolveAlternation
  intro span body construct branch among
  cases construct
  apply Retains.of_flat ('(' :: body) (by decide)
  intro flat symbol member
  rcases Alternation.mem_of_mem_branch among member with inside | rfl
  · exact flat symbol (List.mem_cons_of_mem '(' (List.mem_append_left _ inside))
  · decide

/-- The stages in front of those for classes, one after the other. -/
def expandBeforeClasses (pattern : Text) : Draws Text :=
  (Stage.all.takeWhile (· ≠ .expandClassRanges)).foldlM (fun text stage => stage.apply text) pattern

theorem closed_dropFirst
    {symbol : Char} (other : symbol ≠ ']') {text : Text} (closed : Closed text) :
    Closed (Text.dropFirst symbol text) := by
  obtain ⟨inside, flat, rfl⟩ := closed
  cases inside with
  | nil =>
      rw [List.nil_append, Text.dropFirst, if_neg other.symm]
      exact ⟨[], flat_nil, rfl⟩
  | cons first rest =>
      rw [List.cons_append, Text.dropFirst]
      split
      · exact ⟨rest, (flat_cons_iff.mp flat).2, rfl⟩
      · exact ⟨first :: rest, flat, rfl⟩

theorem closed_dropLast
    {symbol : Char} (other : symbol ≠ ']') {text : Text} (closed : Closed text) :
    Closed (Text.dropLast symbol text) := by
  obtain ⟨inside, flat, rfl⟩ := closed
  rw [dropLast_concat_of_ne other.symm]
  exact ⟨inside, flat, rfl⟩

theorem closed_stripDelimiters {text : Text} (closed : Closed text) :
    Closed (stripDelimiters text) := by
  have front := closed_dropFirst (show '^' ≠ ']' by decide)
    (closed_dropFirst (show '/' ≠ ']' by decide) closed)
  exact closed_dropLast (by decide) (closed_dropLast (by decide) front)

theorem stripDelimiters_retains (text : Text) : Retains text (stripDelimiters text) where
  empty nothing := by rw [nothing]; rfl
  flat flat := flat.of_subset (sublist_stripDelimiters text).subset
  closed := closed_stripDelimiters

theorem Stage.apply_retains
    {stage : Stage} (early : stage ∈ Stage.all.takeWhile (· ≠ .expandClassRanges)) :
    Respects Retains stage.apply := by
  cases stage with
  | stripDelimiters => exact respects_pure stripDelimiters_retains
  | normalizeFixedCounts => exact normalizeFixedCounts_retains
  | expandMarkers => exact .foldlM .refl .trans fun marker _ => marker.expand_retains
  | repeatQuantified => exact .foldlM .refl .trans fun kind _ => kind.repeatAll_retains
  | resolveAlternation => exact resolveAlternation_retains
  | expandClassRanges => exact absurd early (by decide)
  | resolveClasses => exact absurd early (by decide)
  | resolveShorthands => exact absurd early (by decide)
  | resolveWildcards => exact absurd early (by decide)
  | stripEscapes => exact absurd early (by decide)

/-- Whatever is drawn, a closed text comes to the stages for classes as a closed text. -/
theorem expandBeforeClasses_retains : Respects Retains expandBeforeClasses :=
  .foldlM .refl .trans fun _ early => Stage.apply_retains early

end RandomCodes.Pattern

import RandomCodes.Proofs.Pattern.Passes
/-!
# Where the characters of an expansion come from

Whatever a pass writes was in the text before or is a printable character: the digits and braces of
counts, the members of ranges between word characters, a parenthesis for another one, and what is
drawn. So an expansion has no other characters than those of the pattern and the printable ones, and
after the last stage none of them is a backslash.
-/

namespace RandomCodes.Pattern

/-- The characters that a wildcard can be, and the backslash. -/
def Printable (symbol : Char) : Prop :=
  '!' ≤ symbol ∧ symbol ≤ '~'

instance : DecidablePred Printable := fun symbol =>
  inferInstanceAs (Decidable ('!' ≤ symbol ∧ symbol ≤ '~'))

/-- Every character of the result is one of the text or printable. -/
def Familiar (text result : Text) : Prop :=
  ∀ symbol ∈ result, symbol ∈ text ∨ Printable symbol

namespace Familiar

theorem of_subset {text result : Text} (subset : result ⊆ text) : Familiar text result :=
  fun _ member => .inl (subset member)

theorem of_printable {text result : Text} (printable : ∀ symbol ∈ result, Printable symbol) :
    Familiar text result :=
  fun symbol member => .inr (printable symbol member)

theorem refl (text : Text) : Familiar text text :=
  of_subset (List.Subset.refl text)

theorem trans
    {first second third : Text} (front : Familiar first second) (back : Familiar second third) :
    Familiar first third := by
  intro symbol member
  rcases back symbol member with before | printable
  · exact front symbol before
  · exact .inr printable

theorem additive : Additive Familiar where
  nil := refl []
  symbol symbol := refl [symbol]
  append := by
    intro first firstResult second secondResult front back symbol member
    rcases List.mem_append.mp member with inFront | inBack
    · exact (front symbol inFront).imp (List.mem_append_left second) id
    · exact (back symbol inBack).imp (List.mem_append_right first) id

end Familiar

theorem printable_between
    {low high symbol : Char} (lower : '!' ≤ low) (upper : high ≤ '~') (above : low ≤ symbol)
    (below : symbol ≤ high) : Printable symbol :=
  ⟨Char.le_trans lower above, Char.le_trans below upper⟩

theorem CharacterClass.printable_of_isWord {symbol : Char} (word : isWord symbol) :
    Printable symbol := by
  obtain ⟨lower, upper⟩ := isWord_bounds word
  exact printable_between (by decide) (by decide) lower upper

theorem printable_of_quantifier
    {symbol : Char} (part : symbol.isDigit ∨ symbol ∈ ['{', ',', '}']) : Printable symbol := by
  rcases part with digit | frame
  · apply CharacterClass.printable_of_isWord
    simp [CharacterClass.isWord, Char.isAlphanum, digit]
  · exact forall_of_all (by decide) symbol frame

theorem Quantifier.printable_toText (quantifier : Quantifier) :
    ∀ symbol ∈ quantifier.toText, Printable symbol :=
  fun _ member => printable_of_quantifier (mem_toText member)

/-- The members of a class are characters of its body and, for a range between word characters,
printable ones. -/
theorem CharacterClass.familiar_spellOut (body : Text) :
    Familiar ('[' :: (body ++ [']'])) (spellOut body) := by
  intro symbol member
  have parts : symbol = '[' ∨ symbol ∈ (elements body).flatMap Element.members ∨ symbol = ']' := by
    simpa [spellOut] using member
  rcases parts with rfl | spelled | rfl
  · exact .inr (by decide)
  · obtain ⟨entry, among, inside⟩ := List.mem_flatMap.mp spelled
    rw [elements_eq] at among
    obtain ⟨span, construct, within⟩ := (composes_elements body).exists_span_of_mem_values among
    cases construct with
    | literal other =>
        obtain rfl := List.mem_singleton.mp inside
        have inBody := within List.mem_cons_self
        exact .inl (List.mem_cons_of_mem '[' (List.mem_append_left _ inBody))
    | range low high lowWord highWord =>
        obtain ⟨above, below⟩ := (mem_charactersBetween low high symbol).mp inside
        have lower := (printable_of_isWord lowWord).1
        have upper := (printable_of_isWord highWord).2
        exact .inr (printable_between lower upper above below)
  · exact .inr (by decide)

theorem normalizeFixedCounts_familiar :
    Respects Familiar fun text => pure (normalizeFixedCounts text) := by
  apply Familiar.additive.respects_normalizeFixedCounts
  intro span count _
  exact .of_printable (Quantifier.exactly count).printable_toText

theorem Marker.expand_familiar (marker : Marker) : Respects Familiar marker.expand := by
  apply Familiar.additive.respects_replaceUnescaped
  intro word written
  obtain ⟨quantifier, _, rfl⟩ := (Draws.canReturn_map _ _ _).mp written
  exact .of_printable quantifier.printable_toText

theorem AtomKind.repeatAll_familiar (kind : AtomKind) : Respects Familiar kind.repeatAll := by
  apply Familiar.additive.respects_repeatAll
  intro span repetition construct count _
  obtain ⟨bounds, _, rfl⟩ := AtomKind.span_eq construct
  apply Familiar.of_subset
  intro symbol member
  exact List.mem_append_left bounds (mem_of_mem_copies member)

theorem resolveAlternation_familiar : Respects Familiar resolveAlternation := by
  apply Familiar.additive.respects_resolveAlternation
  intro span body construct branch among symbol member
  cases construct
  rcases Alternation.mem_of_mem_branch among member with inside | rfl
  · exact .inl (List.mem_cons_of_mem '(' (List.mem_append_left _ inside))
  · exact .inr (by decide)

theorem expandClassRanges_familiar :
    Respects Familiar fun text => pure (expandClassRanges text) := by
  apply Familiar.additive.respects_expandClassRanges
  intro span body construct
  cases construct
  exact CharacterClass.familiar_spellOut body

theorem resolveClasses_familiar : Respects Familiar resolveClasses := by
  apply Familiar.additive.respects_resolveClasses
  intro span body construct member inside
  cases construct
  apply Familiar.of_subset
  exact List.cons_subset.mpr
    ⟨List.mem_cons_of_mem '[' (List.mem_append_left _ inside), List.nil_subset _⟩

theorem Shorthand.resolve_familiar (shorthand : Shorthand) : Respects Familiar shorthand.resolve := by
  apply Familiar.additive.respects_resolve
  intro symbol member
  have printable : ∀ letter ∈ shorthand.alphabet.characters, Printable letter := by
    cases shorthand with
    | letter => exact forall_of_all (by decide)
    | digit => exact forall_of_all (by decide)
  exact .of_printable (List.forall_mem_singleton.mpr (printable symbol member))

theorem resolveWildcards_familiar : Respects Familiar resolveWildcards := by
  apply Familiar.additive.respects_resolveWildcards
  intro symbol allowed
  exact .of_printable (List.forall_mem_singleton.mpr ⟨allowed.1, allowed.2.1⟩)

theorem Stage.apply_familiar (stage : Stage) : Respects Familiar stage.apply := by
  cases stage with
  | stripDelimiters =>
      exact respects_pure fun text => .of_subset (sublist_stripDelimiters text).subset
  | normalizeFixedCounts => exact normalizeFixedCounts_familiar
  | expandMarkers =>
      exact .foldlM .refl .trans fun marker _ => marker.expand_familiar
  | repeatQuantified =>
      exact .foldlM .refl .trans fun kind _ => kind.repeatAll_familiar
  | resolveAlternation => exact resolveAlternation_familiar
  | expandClassRanges => exact expandClassRanges_familiar
  | resolveClasses => exact resolveClasses_familiar
  | resolveShorthands =>
      exact .foldlM .refl .trans fun shorthand _ => shorthand.resolve_familiar
  | resolveWildcards => exact resolveWildcards_familiar
  | stripEscapes => exact respects_pure fun text => .of_subset (sublist_stripEscapes text).subset

theorem expand_familiar : Respects Familiar expand :=
  .foldlM .refl .trans fun stage _ => stage.apply_familiar

/-- The last stage leaves no backslash. -/
theorem noEscape_of_canReturn_expand
    {pattern result : Text} (returned : (expand pattern).CanReturn result) : '\\' ∉ result := by
  have stages : expand pattern =
      Stage.applyAll Stage.all.dropLast pattern >>= Stage.applyAll [.stripEscapes] :=
    Stage.applyAll_append Stage.all.dropLast [.stripEscapes] pattern
  rw [stages] at returned
  obtain ⟨between, _, last⟩ := (Draws.canReturn_bind _ _ _).mp returned
  have stripped : result = stripEscapes between := last
  rw [stripped, stripEscapes]
  simp

end RandomCodes.Pattern

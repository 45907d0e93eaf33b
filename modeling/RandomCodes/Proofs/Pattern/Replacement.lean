import RandomCodes.Proofs.Pattern.Passes
/-!
# A text and what a pass makes of it

A pass keeps the characters at which no construct of its grammar begins and puts a word in the place
of each construct. This is said here as a relation between the text and the result, so that what
holds of every result is shown along the text: one step for a character that is kept, one for a
construct. In particular a construct of any kind is nowhere in the result if none begins at a kept
character and none begins inside a word.
-/

namespace RandomCodes.Pattern

variable {α β : Type}

/-- The result keeps the characters of the text at which no span of the grammar begins, and has a
word in the place of each span. -/
inductive Becomes (grammar : Grammar α) (Word : α → Text → Prop) : Text → Text → Prop
  | nil : Becomes grammar Word [] []
  | kept (symbol : Char) {text result : Text} :
      ¬ grammar.Begins (symbol :: text) → Becomes grammar Word text result →
      Becomes grammar Word (symbol :: text) (symbol :: result)
  | word {span word text result : Text} {value : α} :
      grammar span value → Word value word → Becomes grammar Word text result →
      Becomes grammar Word (span ++ text) (word ++ result)

variable {grammar : Grammar α} {Word : α → Text → Prop}

/-- What can be made of a text that is split by the grammar. -/
theorem Splits.becomes
    {text : Text} {pieces : List (Piece α)} (splits : Splits grammar text pieces)
    {replacement : α → Draws Text}
    (written : ∀ value word, (replacement value).CanReturn word → Word value word)
    {result : Text} (returned : (render replacement pieces).CanReturn result) :
    Becomes grammar Word text result := by
  induction pieces generalizing text result with
  | nil =>
      obtain rfl : [] = text := splits.source
      obtain rfl := (Draws.canReturn_pure _ _).mp returned
      exact .nil
  | cons piece rest inductionHypothesis =>
      have behind : ∀ {later}, (render replacement rest).CanReturn later →
          Becomes grammar Word (rest.flatMap Piece.source) later := inductionHypothesis splits.tail
      rw [← splits.source, List.flatMap_cons]
      cases piece with
      | copied symbol =>
          rw [render_copied] at returned
          obtain ⟨later, laterReturned, rfl⟩ := (Draws.canReturn_map _ _ _).mp returned
          exact .kept symbol (splits.copied [] symbol rest rfl) (behind laterReturned)
      | found span value =>
          rw [render_found] at returned
          obtain ⟨word, wordReturned, returned⟩ := (Draws.canReturn_bind _ _ _).mp returned
          obtain ⟨later, laterReturned, same⟩ := (Draws.canReturn_bind _ _ _).mp returned
          obtain rfl := (Draws.canReturn_pure _ _).mp same
          exact .word (splits.found span value List.mem_cons_self)
            (written value word wordReturned) (behind laterReturned)

namespace Grammar

theorem absent_cons_iff {symbol : Char} {rest : Text} :
    grammar.Absent (symbol :: rest) ↔ ¬ grammar.Begins (symbol :: rest) ∧ grammar.Absent rest := by
  simp only [Absent, List.suffix_cons_iff]
  constructor
  · intro absent
    exact ⟨absent _ (.inl rfl), fun later suffix => absent later (.inr suffix)⟩
  · intro parts later place
    rcases place with rfl | suffix
    · exact parts.1
    · exact parts.2 later suffix

/-- A span in joined texts is in the back one or begins somewhere in the front one. -/
theorem Absent.append
    {front back : Text} (behind : grammar.Absent back)
    (inside : ∀ tail, tail ≠ [] → tail <:+ front → ¬ grammar.Begins (tail ++ back)) :
    grammar.Absent (front ++ back) := by
  induction front with
  | nil => exact behind
  | cons symbol front inductionHypothesis =>
      refine absent_cons_iff.mpr ⟨inside _ (List.cons_ne_nil _ _) List.suffix_rfl, ?_⟩
      exact inductionHypothesis fun tail nonempty suffix =>
        inside tail nonempty (suffix.trans (List.suffix_cons symbol front))

end Grammar

namespace Becomes

variable {text result : Text}

/-- What the result begins with is kept from the text, or a word begins before it ends. -/
theorem of_append
    (becomes : Becomes grammar Word text result) {part behind : Text}
    (cut : result = part ++ behind) :
    (∃ later, text = part ++ later ∧ Becomes grammar Word later behind) ∨
      ∃ kept rest span value later word laterResult, part = kept ++ rest ∧ rest ≠ [] ∧
        grammar span value ∧ text = kept ++ (span ++ later) ∧
        Word value word ∧ rest ++ behind = word ++ laterResult := by
  induction becomes generalizing part with
  | nil =>
      obtain ⟨rfl, rfl⟩ := List.append_eq_nil_iff.mp cut.symm
      exact .inl ⟨[], rfl, .nil⟩
  | @kept symbol text result outside becomes inductionHypothesis =>
      cases part with
      | nil =>
          rw [List.nil_append] at cut
          exact .inl ⟨symbol :: text, rfl, cut ▸ .kept symbol outside becomes⟩
      | cons first part =>
          rw [List.cons_append] at cut
          obtain ⟨rfl, others⟩ := List.cons.inj cut
          rcases inductionHypothesis others with whole | interrupted
          · obtain ⟨later, rfl, behind⟩ := whole
            exact .inl ⟨later, rfl, behind⟩
          · obtain ⟨kept, rest, span, value, later, word, laterResult, rfl, nonempty, construct, rfl,
              written⟩ := interrupted
            exact .inr ⟨symbol :: kept, rest, span, value, later, word, laterResult, rfl, nonempty,
              construct, rfl, written⟩
  | @word span word text result value construct written becomes =>
      cases part with
      | nil =>
          rw [List.nil_append] at cut
          exact .inl ⟨span ++ text, rfl, cut ▸ .word construct written becomes⟩
      | cons first part =>
          exact .inr ⟨[], first :: part, span, value, text, word, result, rfl, List.cons_ne_nil _ _,
            construct, rfl, written, cut.symm⟩

/-- No construct of `target` is in the result if none begins at a kept character and none comes in
with a word. -/
theorem absent
    (becomes : Becomes grammar Word text result) {target : Grammar β} (nothing : ¬ target.Begins [])
    (kept : ∀ symbol later laterResult, symbol :: later <:+ text →
      ¬ grammar.Begins (symbol :: later) → Becomes grammar Word later laterResult →
      ¬ target.Begins (symbol :: laterResult))
    (inWord : ∀ span value word later laterResult, span ++ later <:+ text →
      grammar span value → Word value word → Becomes grammar Word later laterResult →
      target.Absent laterResult → target.Absent (word ++ laterResult)) :
    target.Absent result := by
  induction becomes with
  | nil =>
      intro rest suffix
      rwa [List.suffix_nil.mp suffix]
  | @kept symbol later _ outside becomes inductionHypothesis =>
      have inText := List.suffix_cons symbol later
      have behind := inductionHypothesis
        (fun symbol later result suffix => kept symbol later result (suffix.trans inText))
        (fun span value word later result suffix =>
          inWord span value word later result (suffix.trans inText))
      exact Grammar.absent_cons_iff.mpr ⟨kept symbol _ _ List.suffix_rfl outside becomes, behind⟩
  | @word span _ later _ _ construct written becomes inductionHypothesis =>
      have inText := List.suffix_append span later
      have behind := inductionHypothesis
        (fun symbol later result suffix => kept symbol later result (suffix.trans inText))
        (fun span value word later result suffix =>
          inWord span value word later result (suffix.trans inText))
      exact inWord _ _ _ _ _ List.suffix_rfl construct written becomes behind

end Becomes

theorem Grammar.Proper.not_begins_nil (proper : grammar.Proper) : ¬ grammar.Begins [] := by
  intro begins
  obtain ⟨span, value, construct, front⟩ := begins
  exact proper span value construct (List.prefix_nil.mp front)

theorem becomes_normalizeFixedCounts (text : Text) :
    Becomes CountSpan (fun count word => word = (Quantifier.exactly count).toText) text
      (normalizeFixedCounts text) := by
  have splits := (Recogniser.agrees fixedCount).splits_pieces fixedCount_accepts countSpan_proper text
  have returned : (pure (normalizeFixedCounts text) : Draws Text).CanReturn
      (normalizeFixedCounts text) := rfl
  rw [normalizeFixedCounts, pure_render] at returned
  exact splits.becomes (fun _ _ => (Draws.canReturn_pure _ _).mp) returned

/-- The word is some copies of the atom. -/
def Repetition.Makes (repetition : Repetition) (word : Text) : Prop :=
  ∃ count, word = (List.replicate count repetition.atom).flatten

theorem AtomKind.becomes_repeatAll
    {kind : AtomKind} {text result : Text} (returned : (kind.repeatAll text).CanReturn result) :
    Becomes kind.Span Repetition.Makes text result := by
  have splits := kind.agrees.splits_pieces kind.recogniser_accepts kind.span_proper text
  apply splits.becomes _ returned
  intro repetition word written
  obtain ⟨count, _, same⟩ := (Draws.canReturn_bind _ _ _).mp written
  exact ⟨count, same⟩

theorem becomes_resolveAlternation
    {text result : Text} (returned : (resolveAlternation text).CanReturn result) :
    Becomes AlternationSpan (fun body word => word ∈ Alternation.branches body) text result := by
  have splits := (Alternation.body.agrees _).splits_pieces alternationBody_accepts
    alternationSpan_proper text
  apply splits.becomes _ returned
  intro body word written
  obtain ⟨choice, chosen, same⟩ := (Draws.canReturn_bind _ _ _).mp written
  obtain ⟨branch, among, rfl⟩ := (Draws.canReturn_sample? (split_ne_nil _ _) _).mp chosen
  rwa [(Draws.canReturn_pure _ _).mp same]

end RandomCodes.Pattern

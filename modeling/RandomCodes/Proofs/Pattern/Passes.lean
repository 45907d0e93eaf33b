import RandomCodes.Proofs.Pattern.Acceptance
import RandomCodes.Proofs.Pattern.Lookups
/-!
# Relations that passes respect

A pass respects a relation between texts when every text is related to all that the pass can make of
it. For a relation that passes to joined texts it is enough to look at single constructs: that each
span of the grammar of the pass is related to all its replacements.
-/

namespace RandomCodes.Pattern

variable {α : Type} {Related : Text → Text → Prop}

/-- Every text is related to all that can be made of it. -/
def Respects (Related : Text → Text → Prop) (rewrite : Text → Draws Text) : Prop :=
  ∀ text result, (rewrite text).CanReturn result → Related text result

theorem respects_pure {function : Text → Text} (related : ∀ text, Related text (function text)) :
    Respects Related fun text => pure (function text) := by
  intro text result returned
  rw [(Draws.canReturn_pure _ _).mp returned]
  exact related text

/-- Passes one after the other respect a transitive relation that each of them respects. -/
theorem Respects.foldlM
    (reflexive : ∀ text, Related text text)
    (transitive : ∀ {first second third}, Related first second → Related second third →
      Related first third)
    {rewrite : α → Text → Draws Text} {items : List α}
    (each : ∀ item ∈ items, Respects Related (rewrite item)) :
    Respects Related fun text => items.foldlM (fun text item => rewrite item text) text := by
  induction items with
  | nil =>
      intro text result returned
      rw [(Draws.canReturn_pure _ _).mp returned]
      exact reflexive text
  | cons item others inductionHypothesis =>
      intro text result returned
      simp only [List.foldlM_cons, Draws.canReturn_bind] at returned
      obtain ⟨between, first, later⟩ := returned
      have others := inductionHypothesis fun other member =>
        each other (List.mem_cons_of_mem item member)
      exact transitive (each item List.mem_cons_self text between first)
        (others between result later)

namespace CharacterClass

/-- Word characters lie between the first digit and the last lower-case letter. -/
theorem isWord_bounds {symbol : Char} (word : isWord symbol) : '0' ≤ symbol ∧ symbol ≤ 'z' := by
  have within : ∀ low high : Char, '0' ≤ low → high ≤ 'z' → low ≤ symbol ∧ symbol ≤ high →
      '0' ≤ symbol ∧ symbol ≤ 'z' :=
    fun _ _ lower upper inside =>
      ⟨Char.le_trans lower inside.1, Char.le_trans inside.2 upper⟩
  rcases Bool.or_eq_true_iff.mp word with alphanumeric | underscore
  · rcases Bool.or_eq_true_iff.mp alphanumeric with letter | digit
    · rcases Bool.or_eq_true_iff.mp letter with upper | lower
      · exact within 'A' 'Z' (by decide) (by decide) (of_decide_eq_true upper)
      · obtain ⟨above, below⟩ := Bool.and_eq_true_iff.mp lower
        exact within 'a' 'z' (by decide) (by decide) ⟨of_decide_eq_true above, of_decide_eq_true below⟩
    · obtain ⟨above, below⟩ := Bool.and_eq_true_iff.mp digit
      exact within '0' '9' (by decide) (by decide) ⟨of_decide_eq_true above, of_decide_eq_true below⟩
  · rw [eq_of_beq underscore]
    decide

end CharacterClass

theorem sublist_dropFirst (symbol : Char) (text : Text) :
    (Text.dropFirst symbol text).Sublist text := by
  cases text with
  | nil => exact List.Sublist.refl []
  | cons first rest =>
      rw [Text.dropFirst]
      split
      · exact List.sublist_cons_self first rest
      · exact List.Sublist.refl _

theorem sublist_dropLast (symbol : Char) (text : Text) :
    (Text.dropLast symbol text).Sublist text := by
  have reversed := (sublist_dropFirst symbol text.reverse).reverse
  rwa [List.reverse_reverse] at reversed

theorem sublist_stripDelimiters (text : Text) : (stripDelimiters text).Sublist text := by
  have front := (sublist_dropFirst '^' _).trans (sublist_dropFirst '/' text)
  have back := (sublist_dropLast '$' _).trans
    (sublist_dropLast '/' (Text.dropFirst '^' (Text.dropFirst '/' text)))
  exact back.trans front

theorem sublist_stripEscapes (text : Text) : (stripEscapes text).Sublist text :=
  List.filter_sublist

namespace Additive

variable (additive : Additive Related)

include additive

/-- Replacing without drawing. -/
theorem related_pureRender
    {grammar : Grammar α} {replacement : α → Text}
    (replaced : ∀ span value, grammar span value → Related span (replacement value))
    {text : Text} {pieces : List (Piece α)} (composes : Composes grammar text pieces) :
    Related text (Id.run (Pattern.render (fun value => pure (replacement value)) pieces)) := by
  have rendered : (Pattern.render (fun value => pure (replacement value)) pieces :
      Draws Text).CanReturn (Id.run (Pattern.render (fun value => pure (replacement value))
        pieces)) := by
    rw [← pure_render, Draws.canReturn_pure]
  apply additive.render _ composes rendered
  intro span value construct word written
  rw [(Draws.canReturn_pure _ _).mp written]
  exact replaced span value construct

theorem respects_normalizeFixedCounts
    (replaced : ∀ span count, CountSpan span count →
      Related span (Quantifier.exactly count).toText) :
    Respects Related fun text => pure (normalizeFixedCounts text) :=
  respects_pure fun text => additive.related_pureRender replaced (composes_fixedCounts text)

theorem respects_replaceUnescaped
    {marker : Char} {replacement : Draws Text}
    (replaced : ∀ word, replacement.CanReturn word → Related [marker] word) :
    Respects Related (replaceUnescaped marker replacement) := by
  intro text result returned
  apply additive.render _ (composes_unescaped marker text) returned
  intro span value construct word written
  rw [construct]
  exact replaced word written

theorem respects_repeatAll
    {kind : AtomKind}
    (replaced : ∀ span repetition, kind.Span span repetition → ∀ count,
      repetition.quantifier.pick.CanReturn count →
      Related span (List.replicate count repetition.atom).flatten) :
    Respects Related kind.repeatAll := by
  intro text result returned
  apply additive.render _ (kind.composes_pieces text) returned
  intro span repetition construct word written
  obtain ⟨count, picked, same⟩ := (Draws.canReturn_bind _ _ _).mp written
  rw [(Draws.canReturn_pure _ _).mp same]
  exact replaced span repetition construct count picked

theorem respects_resolveAlternation
    (replaced : ∀ span body, AlternationSpan span body → ∀ branch ∈ Alternation.branches body,
      Related span branch) :
    Respects Related resolveAlternation := by
  intro text result returned
  apply additive.render _ (composes_alternations text) returned
  intro span body construct word written
  obtain ⟨choice, chosen, same⟩ := (Draws.canReturn_bind _ _ _).mp written
  rw [(Draws.canReturn_pure _ _).mp same]
  obtain ⟨branch, member, rfl⟩ := (Draws.canReturn_sample? (split_ne_nil _ _) _).mp chosen
  exact replaced span body construct branch member

theorem respects_expandClassRanges
    (replaced : ∀ span body, ClassSpan span body → Related span (CharacterClass.spellOut body)) :
    Respects Related fun text => pure (expandClassRanges text) :=
  respects_pure fun text => additive.related_pureRender replaced (composes_classes text)

theorem respects_resolveClasses
    (replaced : ∀ span body, ClassSpan span body → ∀ member ∈ body, Related span [member]) :
    Respects Related resolveClasses := by
  intro text result returned
  apply additive.render _ (composes_classes text) returned
  intro span body construct word written
  have nonempty : body ≠ [] := by
    cases construct
    assumption
  obtain ⟨choice, chosen, same⟩ := (Draws.canReturn_bind _ _ _).mp written
  rw [(Draws.canReturn_pure _ _).mp same]
  obtain ⟨member, inside, rfl⟩ := (Draws.canReturn_sample? nonempty _).mp chosen
  exact replaced span body construct member inside

theorem respects_resolve
    {shorthand : Shorthand}
    (replaced : ∀ symbol ∈ shorthand.alphabet.characters,
      Related ['\\', shorthand.symbol] [symbol]) :
    Respects Related shorthand.resolve := by
  intro text result returned
  apply additive.render _ (composes_shorthands shorthand text) returned
  intro span value construct word written
  cases construct
  obtain ⟨symbol, drawn, same⟩ := (Draws.canReturn_bind _ _ _).mp written
  rw [(Draws.canReturn_pure _ _).mp same]
  exact replaced symbol ((shorthand.alphabet.canReturn_draw symbol).mp drawn)

theorem respects_resolveWildcards
    (replaced : ∀ symbol, Wildcard.Allows symbol → Related ['.'] [symbol]) :
    Respects Related resolveWildcards := by
  apply additive.respects_replaceUnescaped
  intro word written
  obtain ⟨symbol, drawn, same⟩ := (Draws.canReturn_bind _ _ _).mp written
  rw [(Draws.canReturn_pure _ _).mp same]
  exact replaced symbol ((Wildcard.canReturn_draw symbol).mp drawn)

end Additive

namespace Stage

/-- Some stages, one after the other. -/
def applyAll (stages : List Stage) (text : Text) : Draws Text :=
  stages.foldlM (fun text stage => stage.apply text) text

theorem applyAll_append (before after : List Stage) (text : Text) :
    applyAll (before ++ after) text = applyAll before text >>= applyAll after :=
  List.foldlM_append

end Stage

end RandomCodes.Pattern

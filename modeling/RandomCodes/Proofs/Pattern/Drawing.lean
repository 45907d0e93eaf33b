import Mathlib.Data.List.GetD
import RandomCodes.Proofs.Pattern.Choosing
/-!
# Drawing single characters

What is left of a pattern stands for one character at each place. Shorthands are drawn one kind after
the other, then dots; a drawn character is never a backslash, so dropping all backslashes in the end
takes away those in front of escaped characters and no others.
-/

namespace RandomCodes

theorem Alphabet.canReturn_draw (alphabet : Alphabet) (symbol : Char) :
    alphabet.draw.CanReturn symbol ↔ symbol ∈ alphabet.characters := by
  have positive : 0 < alphabet.size := List.length_pos_of_ne_nil alphabet.ne_nil
  rw [draw, Draws.canReturn_bind]
  simp only [Draws.canReturn_index positive, Draws.canReturn_pure]
  constructor
  · intro drawn
    obtain ⟨position, inside, rfl⟩ := drawn
    rw [List.getD_eq_getElem _ _ inside]
    exact List.getElem_mem inside
  · intro member
    obtain ⟨position, inside, found⟩ := List.getElem_of_mem member
    exact ⟨position, inside, by rw [List.getD_eq_getElem _ _ inside, found]⟩

namespace Pattern

open Construct (text language)

/-- The codes from that of the first printable character to that of the last one, without that of
the backslash, are those that can be drawn. -/
theorem Wildcard.canReturn_draw (symbol : Char) :
    draw.CanReturn symbol ↔ Allows symbol := by
  have positive : 0 < last.toNat - first.toNat := by decide
  have ends : first.toNat = 33 ∧ last.toNat = 126 ∧ '\\'.toNat = 92 := by decide
  have written : '!'.toNat = 33 ∧ '~'.toNat = 126 := by decide
  have small : ∀ code, code ≤ 126 → (Char.ofNat code).toNat = code := by decide
  have allowed : Allows symbol ↔ 33 ≤ symbol.toNat ∧ symbol.toNat ≤ 126 ∧ symbol.toNat ≠ 92 := by
    have lower : '!' ≤ symbol ↔ '!'.toNat ≤ symbol.toNat := Char.le_def
    have upper : symbol ≤ '~' ↔ symbol.toNat ≤ '~'.toNat := Char.le_def
    have escape : symbol = '\\' ↔ symbol.toNat = '\\'.toNat := Char.toNat_inj.symm
    rw [Allows, lower, upper, ne_eq, escape, written.1, written.2, ends.2.2]
  rw [allowed, draw, Draws.canReturn_bind]
  simp only [Draws.canReturn_index positive, Draws.canReturn_pure]
  simp only [ends.1, ends.2.1, ends.2.2]
  constructor
  · intro drawn
    obtain ⟨position, inside, rfl⟩ := drawn
    -- Positions on either side of the backslash, which is the code left out.
    by_cases before : 33 + position < 92
    · rw [if_pos before, small _ (by omega)]
      omega
    · rw [if_neg before, small _ (by omega)]
      omega
  · intro bounds
    by_cases before : symbol.toNat < 92
    · refine ⟨symbol.toNat - 33, by omega, ?_⟩
      have code : 33 + (symbol.toNat - 33) = symbol.toNat := by omega
      rw [code, if_pos before, Char.ofNat_toNat]
    · refine ⟨symbol.toNat - 34, by omega, ?_⟩
      have code : 33 + (symbol.toNat - 34) = symbol.toNat - 1 := by omega
      have next : symbol.toNat - 1 + 1 = symbol.toNat := by omega
      rw [code, if_neg (by omega), next, Char.ofNat_toNat]

theorem Shorthand.resolve_eq (kind : Shorthand) :
    kind.resolve =
      (shorthandReader kind).rewrite fun _ => return [← kind.alphabet.draw] := by
  funext written
  exact congrArg (render fun _ => return [← kind.alphabet.draw])
    (Recogniser.pieces_eq (shorthand_accepts kind.symbol).uniform written)

theorem Shorthand.resolve_keeps
    (kind : Shorthand) {symbol : Char} (noEscape : symbol ≠ '\\') :
    Keeps .unquantified kind.resolve [symbol] := by
  intro rest _
  rw [kind.resolve_eq]
  exact Reader.rewrites_of_eq_none (shorthandReader_of_ne kind noEscape rest) _

theorem Shorthand.resolve_keeps_escaped
    (kind : Shorthand) {symbol : Char} (noEscape : symbol ≠ '\\') (other : symbol ≠ kind.symbol) :
    Keeps .unquantified kind.resolve ['\\', symbol] := by
  intro rest admitted
  rw [← List.singleton_append, ← singleton_mul_singleton]
  refine Rewrites.append ?_ (kind.resolve_keeps noEscape admitted)
  rw [kind.resolve_eq]
  exact Reader.rewrites_of_eq_none (shorthandReader_escape_of_ne other rest) _

theorem Shorthand.not_special_of_allows
    (kind : Shorthand) {symbol : Char} (allowed : kind.Allows symbol) :
    symbol ∉ specialCharacters := by
  have ordinary : ∀ other, kind.Allows other → other ∉ specialCharacters := by
    cases kind with
    | letter => exact forall_of_all (by decide)
    | digit => exact forall_of_all (by decide)
  exact ordinary symbol allowed

/-- What becomes of a single character when one kind of shorthand is resolved. -/
inductive Single.Resolved {kind : Shorthand} {pending : List Shorthand} :
    Single (kind :: pending) → Single pending → Prop
  | plain {symbol ordinary} : Resolved (.plain symbol ordinary) (.plain symbol ordinary)
  | escaped {symbol escapable} :
      Resolved (.escaped symbol escapable) (.escaped symbol escapable)
  | other {another allowed stillAllowed} :
      another ≠ kind → Resolved (.shorthand another allowed) (.shorthand another stillAllowed)
  | drawn {allowed symbol ordinary} :
      kind.Allows symbol →
      Resolved (.shorthand kind allowed) (.plain symbol ordinary)
  | wildcard : Resolved .wildcard .wildcard

theorem Shorthand.resolvesAt_drawn
    (kind : Shorthand) {pending : List Shorthand} (allowed : kind ∈ kind :: pending) :
    ResolvesAt kind.resolve (Single.Resolved : Single (kind :: pending) → Single pending → Prop)
      (.shorthand kind allowed) where
  total := by
    obtain ⟨symbol, others, characters⟩ := List.exists_cons_of_ne_nil kind.alphabet.ne_nil
    have allows : kind.Allows symbol := (kind.allows_iff symbol).mpr (by simp [characters])
    exact ⟨.plain symbol (kind.not_special_of_allows allows), .drawn allows⟩
  turns := by
    intro rest _
    have results : (do return [← kind.alphabet.draw] : Draws Text).outcomes =
        resolved (Single.Resolved : Single (kind :: pending) → Single pending → Prop)
          (.shorthand kind allowed) := by
      ext word
      rw [Draws.mem_outcomes, Draws.canReturn_bind, mem_resolved]
      simp only [Alphabet.canReturn_draw, Draws.canReturn_pure, ← kind.allows_iff]
      constructor
      · intro drawn
        obtain ⟨symbol, allows, rfl⟩ := drawn
        exact ⟨.plain symbol (kind.not_special_of_allows allows), .drawn allows, rfl⟩
      · intro resolution
        obtain ⟨_, related, rfl⟩ := resolution
        cases related with
        | other different => exact absurd rfl different
        | drawn allows => exact ⟨_, allows, rfl⟩
    have read : shorthandReader kind (['\\', kind.symbol] ++ rest) =
        some ((), ['\\', kind.symbol].length) := shorthandReader_read kind rest
    rw [← results, kind.resolve_eq, Single.text_shorthand]
    exact Reader.rewrites_of_eq_some (List.cons_ne_nil _ _) read _
  means := by
    intro word
    constructor
    · intro member
      obtain ⟨symbol, drawn, rfl⟩ := member
      exact ⟨.plain symbol (kind.not_special_of_allows drawn), .drawn drawn, symbol, rfl, rfl⟩
    · intro resolution
      obtain ⟨_, related, symbol, result, rfl⟩ := resolution
      cases related with
      | other different => exact absurd rfl different
      | drawn allows => exact ⟨symbol, (show symbol = _ from result) ▸ allows, rfl⟩

theorem Shorthand.resolve_resolves (kind : Shorthand) {pending : List Shorthand} :
    Resolves kind.resolve
      (Single.Resolved : Single (kind :: pending) → Single pending → Prop) := by
  refine Resolves.of_forall fun single => ?_
  cases single with
  | plain symbol ordinary =>
      refine ResolvesAt.keep .plain ?_ rfl rfl ?_
      · intro other related
        cases related
        rfl
      · exact kind.resolve_keeps (ne_of_not_special ordinary (by decide))
  | escaped symbol escapable =>
      refine ResolvesAt.keep .escaped ?_ rfl rfl ?_
      · intro other related
        cases related
        rfl
      · have distinct : ∀ other ∈ escapableCharacters, other ≠ '\\' ∧ other ≠ kind.symbol := by
          cases kind with
          | letter => exact forall_of_all (by decide)
          | digit => exact forall_of_all (by decide)
        have both := distinct symbol escapable
        intro rest admitted
        exact kind.resolve_keeps_escaped both.1 both.2 admitted
  | shorthand another allowed =>
      by_cases same : another = kind
      · subst same
        exact another.resolvesAt_drawn allowed
      · have stillAllowed : another ∈ pending := by simpa [same] using allowed
        have related : Single.Resolved (.shorthand another allowed)
            (.shorthand another stillAllowed) := .other same
        refine ResolvesAt.keep related ?_ rfl rfl ?_
        · intro other related
          cases related with
          | other different => rfl
          | drawn allows => exact absurd rfl same
        · rw [Single.text_shorthand]
          refine kind.resolve_keeps_escaped
            (ne_of_not_special (symbol_not_special another) (by decide)) fun equal => same ?_
          cases another <;> cases kind <;> first | rfl | exact absurd equal (by decide)
  | wildcard =>
      refine ResolvesAt.keep .wildcard ?_ rfl rfl ?_
      · intro other related
        cases related
        rfl
      · exact kind.resolve_keeps (by decide)

/-- A character that is written as itself, or behind a backslash. -/
inductive Visible where
  | bare (symbol : Char) (visible : symbol ≠ '\\')
  | escaped (symbol : Char) (visible : symbol ≠ '\\')

instance : Construct Visible where
  text
    | .bare symbol _ => [symbol]
    | .escaped symbol _ => ['\\', symbol]
  language
    | .bare symbol _ => {[symbol]}
    | .escaped symbol _ => {[symbol]}

/-- What becomes of a single character when dots are resolved. -/
inductive Visible.Shows : Single [] → Visible → Prop
  | plain {symbol ordinary visible} : Shows (.plain symbol ordinary) (.bare symbol visible)
  | escaped {symbol escapable visible} : Shows (.escaped symbol escapable) (.escaped symbol visible)
  | wildcard {symbol visible} : Wildcard.Allows symbol → Shows .wildcard (.bare symbol visible)

theorem language_eq_singleton
    {pending : List Shorthand} {single : Single pending} {symbol : Char}
    (only : ∀ result, single.Allows result ↔ result = symbol) :
    language single = {[symbol]} := by
  ext word
  constructor
  · intro member
    obtain ⟨result, allowed, written⟩ := member
    rw [written, (only result).mp allowed]
    rfl
  · intro same
    exact ⟨symbol, (only symbol).mpr rfl, same⟩

theorem resolveWildcards_resolvesAt_wildcard :
    ResolvesAt resolveWildcards Visible.Shows .wildcard where
  total := ⟨.bare 'a' (by decide), .wildcard (by unfold Wildcard.Allows; decide)⟩
  turns := by
    intro rest _
    have results : (do return [← Wildcard.draw] : Draws Text).outcomes =
        resolved Visible.Shows .wildcard := by
      ext word
      rw [Draws.mem_outcomes, Draws.canReturn_bind, mem_resolved]
      simp only [Wildcard.canReturn_draw, Draws.canReturn_pure]
      constructor
      · intro drawn
        obtain ⟨symbol, allowed, rfl⟩ := drawn
        exact ⟨.bare symbol allowed.2.2, .wildcard allowed, rfl⟩
      · intro resolution
        obtain ⟨_, related, rfl⟩ := resolution
        cases related with
        | wildcard allowed => exact ⟨_, allowed, rfl⟩
    rw [← results]
    exact rewrites_marker _ rest
  means := by
    intro word
    constructor
    · intro member
      obtain ⟨symbol, allowed, rfl⟩ := member
      exact ⟨.bare symbol allowed.2.2, .wildcard allowed, rfl⟩
    · intro resolution
      obtain ⟨_, related, member⟩ := resolution
      cases related with
      | wildcard allowed => exact ⟨_, allowed, member⟩

theorem resolveWildcards_resolves : Resolves resolveWildcards Visible.Shows := by
  refine Resolves.of_forall fun single => ?_
  cases single with
  | plain symbol ordinary =>
      have noEscape := ne_of_not_special ordinary (show '\\' ∈ specialCharacters by decide)
      have noDot := ne_of_not_special ordinary (show '.' ∈ specialCharacters by decide)
      have related : Visible.Shows (.plain symbol ordinary) (.bare symbol noEscape) := .plain
      refine ResolvesAt.keep related ?_ rfl (language_eq_singleton fun _ => Iff.rfl).symm ?_
      · intro other related
        cases related
        rfl
      · intro rest _
        exact rewrites_unescaped_of_ne _ noDot noEscape rest
  | escaped symbol escapable =>
      have noEscape : ∀ other ∈ escapableCharacters, other ≠ '\\' := forall_of_all (by decide)
      have related : Visible.Shows (.escaped symbol escapable)
          (.escaped symbol (noEscape symbol escapable)) := .escaped
      refine ResolvesAt.keep related ?_ rfl (language_eq_singleton fun _ => Iff.rfl).symm ?_
      · intro other related
        cases related
        rfl
      · intro rest _
        exact rewrites_escaped _ (by decide) symbol rest
  | shorthand kind allowed => cases allowed
  | wildcard => exact resolveWildcards_resolvesAt_wildcard

def escapePass (written : Text) : Draws Text :=
  pure (stripEscapes written)

theorem realizes_visible : Realizes Visible escapePass := by
  intro construct
  rw [escapePass, Draws.outcomes_pure]
  cases construct with
  | bare symbol visible => simp [text, language, stripEscapes, visible]
  | escaped symbol visible => simp [text, language, stripEscapes, visible]

variable {ι κ : Type} [Construct ι] [Construct κ]

theorem realizes_list (each : Realizes ι escapePass) : Realizes (List ι) escapePass := by
  intro constructs
  induction constructs with
  | nil => rfl
  | cons construct others inductionHypothesis =>
      have first := each construct
      rw [escapePass, Draws.outcomes_pure] at first inductionHypothesis ⊢
      rw [language_cons, text_cons, ← first, ← inductionHypothesis, singleton_mul_singleton,
        stripEscapes, List.filter_append]
      rfl

theorem realizes_sum (left : Realizes ι escapePass) (right : Realizes κ escapePass) :
    Realizes (ι ⊕ κ) escapePass := by
  intro construct
  cases construct with
  | inl construct => exact left construct
  | inr construct => exact right construct

theorem realizes_drawCharacters :
    Realizes (Nested (Characters (Single [.letter, .digit]))) fun written =>
      resolveShorthands written >>= fun resolved => resolveWildcards resolved >>= escapePass := by
  have listed : Realizes (List Visible) escapePass := realizes_list realizes_visible
  have visible : Realizes (Characters Visible) escapePass := realizes_sum listed listed
  have stripped : Realizes (Nested (Characters Visible)) escapePass :=
    realizes_list (realizes_sum visible (realizes_list (realizes_list visible)))
  have wildcards := resolveWildcards_resolves.list
  have afterWildcards := (wildcards.sum wildcards).nested.realizes rfl stripped
  have digits : Resolves Shorthand.digit.resolve
      (List.Forall₂ (Single.Resolved : Single [.digit] → Single [] → Prop)) :=
    Shorthand.digit.resolve_resolves.list
  have afterDigits := (digits.sum digits).nested.realizes rfl afterWildcards
  have letters : Resolves Shorthand.letter.resolve
      (List.Forall₂ (Single.Resolved : Single [.letter, .digit] → Single [.digit] → Prop)) :=
    Shorthand.letter.resolve_resolves.list
  have afterLetters := (letters.sum letters).nested.realizes rfl afterDigits
  intro characters
  have result := afterLetters characters
  simp only [resolveShorthands, Shorthand.all, List.foldlM_cons, List.foldlM_nil, bind_assoc,
    pure_bind]
  exact result

end Pattern

end RandomCodes

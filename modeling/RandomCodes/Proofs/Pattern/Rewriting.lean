import Mathlib.Computability.Language
import RandomCodes.Pattern.Stage
import RandomCodes.Proofs.Outcomes
import RandomCodes.Proofs.Pattern.QuantifierReading
/-!
# Rewriting a text part by part

A pass over a text treats its parts one after the other. What can become of a part is a set of
texts, a language, and what can become of the whole text is the product of the languages of its
parts. So each pass is described by what it does to a single construct, in front of whatever text
follows.
-/

namespace RandomCodes

open scoped Computability

theorem singleton_mul_singleton (first second : Text) :
    ({first} : Language Char) * {second} = {first ++ second} :=
  Set.image2_singleton

theorem mem_singleton_language (text word : Text) :
    word ∈ ({text} : Language Char) ↔ word = text := Iff.rfl

/-- The texts that a program can return, as a language. -/
def Draws.outcomes (program : Draws Text) : Language Char :=
  {text | program.CanReturn text}

namespace Draws

theorem mem_outcomes (program : Draws Text) (text : Text) :
    text ∈ program.outcomes ↔ program.CanReturn text := Iff.rfl

theorem outcomes_pure (text : Text) : (pure text : Draws Text).outcomes = {text} := by
  ext other
  exact canReturn_pure text other

/-- Drawing two texts and joining them. -/
theorem outcomes_append (first second : Draws Text) :
    outcomes (do
      let front ← first
      let back ← second
      return front ++ back) = first.outcomes * second.outcomes := by
  ext text
  simp only [mem_outcomes, canReturn_bind, canReturn_pure, Language.mem_mul]
  constructor
  · rintro ⟨front, fromFirst, back, fromSecond, rfl⟩
    exact ⟨front, fromFirst, back, fromSecond, rfl⟩
  · rintro ⟨front, fromFirst, back, fromSecond, rfl⟩
    exact ⟨front, fromFirst, back, fromSecond, rfl⟩

theorem outcomes_cons (symbol : Char) (program : Draws Text) :
    outcomes ((symbol :: ·) <$> program) = {[symbol]} * program.outcomes := by
  rw [← outcomes_pure, ← outcomes_append]
  simp [map_eq_pure_bind]

end Draws

namespace Pattern

variable {α : Type}

/-- In front of `rest`, the part `text` becomes one of the texts in `results`, and the rest is
rewritten as it would be alone. -/
def Rewrites
    (rewrite : Text → Draws Text) (text rest : Text) (results : Language Char) : Prop :=
  (rewrite (text ++ rest)).outcomes = results * (rewrite rest).outcomes

namespace Rewrites

variable {rewrite : Text → Draws Text} {rest : Text}

theorem nil : Rewrites rewrite [] rest 1 :=
  (one_mul _).symm

theorem append
    {first second : Text} {firstResults secondResults : Language Char}
    (front : Rewrites rewrite first (second ++ rest) firstResults)
    (back : Rewrites rewrite second rest secondResults) :
    Rewrites rewrite (first ++ second) rest (firstResults * secondResults) := by
  rw [Rewrites, List.append_assoc, front, back, mul_assoc]

/-- A text is kept when each of its characters is kept in front of what follows it. -/
theorem keep
    {text : Text}
    (kept : ∀ before symbol after, text = before ++ symbol :: after →
      Rewrites rewrite [symbol] (after ++ rest) {[symbol]}) :
    Rewrites rewrite text rest {text} := by
  induction text with
  | nil => exact nil
  | cons symbol others inductionHypothesis =>
      have first : Rewrites rewrite [symbol] (others ++ rest) {[symbol]} :=
        kept [] symbol others rfl
      have others : Rewrites rewrite others rest {others} :=
        inductionHypothesis fun before inner after equality =>
          kept (symbol :: before) inner after (by rw [equality, List.cons_append])
      have both := append first others
      rwa [singleton_mul_singleton] at both

/-- The whole text, when nothing follows it. -/
theorem outcomes_eq
    {text : Text} {results : Language Char} (empty : rewrite [] = pure [])
    (rewrites : Rewrites rewrite text [] results) :
    (rewrite text).outcomes = results := by
  have whole := rewrites
  rw [Rewrites, List.append_nil, empty, Draws.outcomes_pure] at whole
  rw [whole]
  exact mul_one results

end Rewrites

/-- Replaces everything that a reader reads in a text. -/
def Reader.rewrite
    (reader : Reader α) (replacement : α → Draws Text) (text : Text) : Draws Text :=
  render replacement (reader.pieces text)

theorem Reader.rewrite_nil (reader : Reader α) (replacement : α → Draws Text) :
    reader.rewrite replacement [] = pure [] := rfl

theorem Reader.rewrite_cons_of_eq_none
    {reader : Reader α} {symbol : Char} {rest : Text} (refused : reader (symbol :: rest) = none)
    (replacement : α → Draws Text) :
    reader.rewrite replacement (symbol :: rest) =
      (symbol :: ·) <$> reader.rewrite replacement rest := by
  rw [rewrite, pieces_of_eq_none refused, render_copied]
  rfl

theorem Reader.rewrite_append_of_eq_some
    {reader : Reader α} {span rest : Text} {value : α} (nonempty : span ≠ [])
    (read : reader (span ++ rest) = some (value, span.length)) (replacement : α → Draws Text) :
    reader.rewrite replacement (span ++ rest) = do
      let front ← replacement value
      let back ← reader.rewrite replacement rest
      return front ++ back := by
  rw [rewrite, pieces_of_eq_some nonempty read, render_found]
  rfl

theorem Reader.rewrites_of_eq_none
    {reader : Reader α} {symbol : Char} {rest : Text} (refused : reader (symbol :: rest) = none)
    (replacement : α → Draws Text) :
    Rewrites (reader.rewrite replacement) [symbol] rest {[symbol]} := by
  rw [Rewrites, List.singleton_append, rewrite_cons_of_eq_none refused, Draws.outcomes_cons]

theorem Reader.rewrites_of_eq_some
    {reader : Reader α} {span rest : Text} {value : α} (nonempty : span ≠ [])
    (read : reader (span ++ rest) = some (value, span.length)) (replacement : α → Draws Text) :
    Rewrites (reader.rewrite replacement) span rest (replacement value).outcomes := by
  rw [Rewrites, rewrite_append_of_eq_some nonempty read, Draws.outcomes_append]

/-- The reader reads nothing at any place of the text. -/
def Reader.Refuses (reader : Reader α) (text : Text) : Prop :=
  ∀ symbol rest, symbol :: rest <:+ text → reader (symbol :: rest) = none

theorem Reader.rewrite_eq_pure
    {reader : Reader α} {text : Text} (refuses : reader.Refuses text)
    (replacement : α → Draws Text) : reader.rewrite replacement text = pure text := by
  induction text with
  | nil => rfl
  | cons symbol rest inductionHypothesis =>
      have later : reader.Refuses rest := fun first others suffix =>
        refuses first others (suffix.trans (List.suffix_cons symbol rest))
      rw [rewrite_cons_of_eq_none (refuses symbol rest List.suffix_rfl), inductionHypothesis later]
      rfl

theorem Reader.refuses_of_not_mem
    {reader : Reader α} {opening : Char}
    (other : ∀ symbol rest, symbol ≠ opening → reader (symbol :: rest) = none) {text : Text}
    (free : opening ∉ text) : reader.Refuses text := by
  intro symbol rest suffix
  apply other
  exact fun same => free (suffix.subset (same ▸ List.mem_cons_self))

/-- Replacing without drawing, as a program. -/
theorem pure_render (replacement : α → Text) (pieces : List (Piece α)) :
    (pure (Id.run (render (fun value => pure (replacement value)) pieces)) : Draws Text) =
      render (fun value => pure (replacement value)) pieces := by
  induction pieces with
  | nil => rfl
  | cons piece rest inductionHypothesis =>
      cases piece with
      | copied symbol =>
          rw [render_copied, render_copied, ← inductionHypothesis]
          rfl
      | found span value =>
          rw [render_found, render_found, ← inductionHypothesis]
          rfl

theorem unescapedPieces.go_eq
    (marker : Char) (escaped : Bool) (latestFirst : List (Piece Unit)) (text : Text) :
    unescapedPieces.go marker escaped latestFirst text =
      latestFirst.reverse ++ unescapedPieces.go marker escaped [] text := by
  induction text generalizing escaped latestFirst with
  | nil => simp [unescapedPieces.go]
  | cons symbol rest inductionHypothesis =>
      rw [unescapedPieces.go, unescapedPieces.go]
      split
      · rw [inductionHypothesis, inductionHypothesis _ [.found [symbol] ()]]
        simp
      · rw [inductionHypothesis, inductionHypothesis _ [.copied symbol]]
        simp

theorem unescapedPieces_marker {marker : Char} (rest : Text) :
    unescapedPieces marker (marker :: rest) =
      .found [marker] () :: unescapedPieces marker rest := by
  rw [unescapedPieces, unescapedPieces.go, if_pos (by simp), unescapedPieces.go_eq]
  rfl

theorem unescapedPieces_of_ne
    {marker symbol : Char} (other : symbol ≠ marker) (noEscape : symbol ≠ '\\') (rest : Text) :
    unescapedPieces marker (symbol :: rest) = .copied symbol :: unescapedPieces marker rest := by
  have clear : (symbol == '\\' && !false) = false := by simp [noEscape]
  rw [unescapedPieces, unescapedPieces.go, if_neg (by simp [other]), unescapedPieces.go_eq, clear]
  rfl

theorem unescapedPieces_escaped
    {marker : Char} (noEscape : marker ≠ '\\') (symbol : Char) (rest : Text) :
    unescapedPieces marker ('\\' :: symbol :: rest) =
      .copied '\\' :: .copied symbol :: unescapedPieces marker rest := by
  rw [unescapedPieces, unescapedPieces.go, if_neg (by simp [noEscape.symm]),
    unescapedPieces.go, if_neg (by simp), unescapedPieces.go_eq]
  simp [unescapedPieces]

section ReplaceUnescaped

variable {marker : Char} (replacement : Draws Text)

theorem replaceUnescaped_nil : replaceUnescaped marker replacement [] = pure [] := rfl

theorem rewrites_marker (rest : Text) :
    Rewrites (replaceUnescaped marker replacement) [marker] rest replacement.outcomes := by
  rw [Rewrites, List.singleton_append, replaceUnescaped, unescapedPieces_marker, render_found,
    Draws.outcomes_append]
  rfl

theorem rewrites_unescaped_of_ne
    {symbol : Char} (other : symbol ≠ marker) (noEscape : symbol ≠ '\\') (rest : Text) :
    Rewrites (replaceUnescaped marker replacement) [symbol] rest {[symbol]} := by
  rw [Rewrites, List.singleton_append, replaceUnescaped, unescapedPieces_of_ne other noEscape,
    render_copied, Draws.outcomes_cons]
  rfl

theorem rewrites_escaped (noEscape : marker ≠ '\\') (symbol : Char) (rest : Text) :
    Rewrites (replaceUnescaped marker replacement) ['\\', symbol] rest {['\\', symbol]} := by
  have joined : ({['\\', symbol]} : Language Char) = {['\\']} * {[symbol]} :=
    (singleton_mul_singleton ['\\'] [symbol]).symm
  rw [Rewrites, List.cons_append, List.singleton_append, replaceUnescaped,
    unescapedPieces_escaped noEscape, render_copied, render_copied, Draws.outcomes_cons,
    Draws.outcomes_cons, joined, mul_assoc]
  rfl

end ReplaceUnescaped

end Pattern

end RandomCodes

import Mathlib.Algebra.Group.Nat.Even
import RandomCodes.Proofs.Pattern.Rewriting
/-!
# Escaped characters and runs of backslashes

Replacing what is not escaped keeps one bit along the text: whether the next character is escaped.
This bit says whether the run of backslashes right before the character is odd. A word that is put
in the place of a marker and has no backslash itself neither takes an escape from what follows nor
adds one, so the characters that are kept are escaped exactly as they were.

With this bit given, a text can be cut anywhere: replacing what is not escaped in the whole is
replacing it in the front and then, from the bit that the front leaves, in the back.
-/

namespace RandomCodes.Pattern

/-- Whether the character behind `symbol` is escaped, `symbol` being escaped itself or not. -/
def escapesNext (escaped : Bool) (symbol : Char) : Bool :=
  symbol == '\\' && !escaped

theorem escapesNext_of_ne {symbol : Char} (noEscape : symbol ≠ '\\') (escaped : Bool) :
    escapesNext escaped symbol = false := by
  simp [escapesNext, noEscape]

theorem foldl_escapesNext_of_noEscape {word : Text} (noEscape : '\\' ∉ word) :
    word.foldl escapesNext false = false := by
  induction word with
  | nil => rfl
  | cons symbol rest inductionHypothesis =>
      obtain ⟨other, later⟩ := List.ne_and_not_mem_of_not_mem_cons noEscape
      rw [List.foldl_cons, escapesNext_of_ne (Ne.symm other), inductionHypothesis later]

theorem foldl_escapesNext_of_ne_nil
    {word : Text} (nonempty : word ≠ []) (noEscape : '\\' ∉ word) (escaped : Bool) :
    word.foldl escapesNext escaped = false := by
  obtain ⟨symbol, rest, rfl⟩ := List.exists_cons_of_ne_nil nonempty
  obtain ⟨other, later⟩ := List.ne_and_not_mem_of_not_mem_cons noEscape
  rw [List.foldl_cons, escapesNext_of_ne (Ne.symm other), foldl_escapesNext_of_noEscape later]

/-- The number of backslashes that a text ends with. -/
def escapeRun (text : Text) : Nat :=
  (text.reverse.takeWhile (· == '\\')).length

theorem escapeRun_append_escape (text : Text) :
    escapeRun (text ++ ['\\']) = escapeRun text + 1 := by
  simp [escapeRun]

theorem escapeRun_append_of_ne {symbol : Char} (noEscape : symbol ≠ '\\') (text : Text) :
    escapeRun (text ++ [symbol]) = 0 := by
  simp [escapeRun, noEscape]

/-- The bit that is kept along a text is the parity of the run. -/
theorem foldl_escapesNext_eq_false_iff (text : Text) :
    text.foldl escapesNext false = false ↔ Even (escapeRun text) := by
  induction text using List.reverseRecOn with
  | nil => simp [escapeRun]
  | append_singleton text symbol inductionHypothesis =>
      rw [List.foldl_append, List.foldl_cons, List.foldl_nil]
      by_cases escapes : symbol = '\\'
      · subst escapes
        rw [escapeRun_append_escape, Nat.even_add_one, ← inductionHypothesis]
        simp [escapesNext]
      · rw [escapeRun_append_of_ne escapes, escapesNext_of_ne escapes]
        simp

/-- The character occurs behind an even number of backslashes. -/
def Unescaped (marker : Char) (text : Text) : Prop :=
  ∃ front back, text = front ++ marker :: back ∧ Even (escapeRun front)

/-- Every occurrence of the character is escaped, `escaped` saying whether the first place is. -/
def Clear (marker : Char) : Bool → Text → Prop
  | _, [] => True
  | escaped, symbol :: rest =>
      (symbol = marker → escaped = true) ∧ Clear marker (escapesNext escaped symbol) rest

section Clear

variable {marker : Char} {escaped : Bool} {text : Text}

theorem clear_cons_iff {symbol : Char} {rest : Text} :
    Clear marker escaped (symbol :: rest) ↔
      (symbol = marker → escaped = true) ∧ Clear marker (escapesNext escaped symbol) rest := Iff.rfl

theorem clear_iff :
    Clear marker escaped text ↔
      ∀ front back, text = front ++ marker :: back → front.foldl escapesNext escaped = true := by
  induction text generalizing escaped with
  | nil => simp [Clear]
  | cons symbol rest inductionHypothesis =>
      rw [clear_cons_iff, inductionHypothesis]
      constructor
      · intro clear front back cut
        cases front with
        | nil => exact clear.1 (List.cons.inj cut).1
        | cons first front =>
            obtain ⟨rfl, others⟩ := List.cons.inj cut
            exact clear.2 front back others
      · intro clear
        refine ⟨?_, ?_⟩
        · intro same
          exact clear [] rest (by rw [same, List.nil_append])
        · intro front back cut
          exact clear (symbol :: front) back (by rw [cut, List.cons_append])

theorem clear_iff_not_unescaped : Clear marker false text ↔ ¬ Unescaped marker text := by
  rw [clear_iff, Unescaped]
  simp only [not_exists, not_and, ← foldl_escapesNext_eq_false_iff, Bool.not_eq_false]

theorem clear_append_iff {front back : Text} :
    Clear marker escaped (front ++ back) ↔
      Clear marker escaped front ∧ Clear marker (front.foldl escapesNext escaped) back := by
  induction front generalizing escaped with
  | nil => exact (and_iff_right trivial).symm
  | cons symbol front inductionHypothesis =>
      rw [List.cons_append, clear_cons_iff, clear_cons_iff, inductionHypothesis, and_assoc]
      rfl

theorem clear_of_not_mem (absent : marker ∉ text) : Clear marker escaped text := by
  induction text generalizing escaped with
  | nil => trivial
  | cons symbol rest inductionHypothesis =>
      obtain ⟨other, later⟩ := List.ne_and_not_mem_of_not_mem_cons absent
      exact ⟨fun same => absurd same.symm other, inductionHypothesis later⟩

theorem clear_append_of_noEscape
    {word : Text} (noEscape : '\\' ∉ word) (absent : marker ∉ word) :
    Clear marker false (word ++ text) ↔ Clear marker false text := by
  rw [clear_append_iff, foldl_escapesNext_of_noEscape noEscape]
  exact and_iff_right (clear_of_not_mem absent)

/-- Where a character is always escaped, none of its occurrences is replaced. -/
theorem replaceUnescaped_of_clear (clear : Clear marker false text) (replacement : Draws Text) :
    replaceUnescaped marker replacement text = pure text := by
  suffices kept : ∀ escaped, Clear marker escaped text →
      render (fun _ => replacement) (unescapedPieces.go marker escaped [] text) = pure text from
    kept false clear
  clear clear
  induction text with
  | nil => exact fun _ _ => rfl
  | cons symbol rest inductionHypothesis =>
      intro escaped clear
      have here : ¬ (symbol == marker && !escaped) = true := by
        simpa using clear.1
      rw [unescapedPieces.go, if_neg here, unescapedPieces.go_eq, List.reverse_singleton,
        List.singleton_append, render_copied]
      rw [show (symbol == '\\' && !escaped) = escapesNext escaped symbol from rfl,
        inductionHypothesis _ clear.2]
      rfl

end Clear

/-- Replacing one character by words without backslashes leaves it escaped everywhere, and other
characters that the words do not have stay escaped where they are. -/
theorem clear_of_canReturn
    {marker : Char} (markerNoEscape : marker ≠ '\\') {replacement : Draws Text}
    (noEscape : ∀ word, replacement.CanReturn word → '\\' ∉ word)
    {other : Char} (absent : ∀ word, replacement.CanReturn word → other ∉ word)
    {text result : Text} (before : other = marker ∨ Clear other false text)
    (returned : (replaceUnescaped marker replacement text).CanReturn result) :
    Clear other false result := by
  suffices cleared : ∀ escaped result, other = marker ∨ Clear other escaped text →
      (render (fun _ => replacement) (unescapedPieces.go marker escaped [] text)).CanReturn result →
      Clear other escaped result from cleared false result before returned
  clear before returned result
  induction text with
  | nil =>
      intro escaped result _ returned
      rw [(Draws.canReturn_pure _ _).mp returned]
      trivial
  | cons symbol rest inductionHypothesis =>
      intro escaped result before returned
      have behind : other = marker ∨ Clear other (escapesNext escaped symbol) rest :=
        before.imp id And.right
      rw [unescapedPieces.go] at returned
      split at returned
      · rename_i found
        simp only [Bool.and_eq_true, beq_iff_eq, Bool.not_eq_true'] at found
        obtain ⟨rfl, rfl⟩ := found
        rw [escapesNext_of_ne markerNoEscape] at behind
        rw [unescapedPieces.go_eq, List.reverse_singleton, List.singleton_append, render_found]
          at returned
        obtain ⟨word, wordReturned, returned⟩ := (Draws.canReturn_bind _ _ _).mp returned
        obtain ⟨later, laterReturned, same⟩ := (Draws.canReturn_bind _ _ _).mp returned
        rw [(Draws.canReturn_pure _ _).mp same]
        exact (clear_append_of_noEscape (noEscape word wordReturned) (absent word wordReturned)).mpr
          (inductionHypothesis false later behind laterReturned)
      · rename_i passed
        rw [unescapedPieces.go_eq, List.reverse_singleton, List.singleton_append, render_copied]
          at returned
        obtain ⟨later, laterReturned, rfl⟩ := (Draws.canReturn_map _ _ _).mp returned
        refine ⟨?_, inductionHypothesis _ later behind laterReturned⟩
        intro same
        rcases before with rfl | clear
        · simpa [same] using passed
        · exact clear.1 same

variable {m : Type → Type} [Monad m] [LawfulMonad m] {marker symbol : Char} {replacement : m Text}
  {escaped : Bool} {text word : Text}

/-- Replaces every occurrence of `marker` that is not escaped, `escaped` saying whether the first
character of the text is. -/
def replaceFrom {m : Type → Type} [Monad m]
    (marker : Char) (replacement : m Text) (escaped : Bool) (text : Text) : m Text :=
  render (fun _ => replacement) (unescapedPieces.go marker escaped [] text)

omit [LawfulMonad m] in
theorem replaceUnescaped_eq_replaceFrom :
    replaceUnescaped marker replacement text = replaceFrom marker replacement false text := rfl

omit [LawfulMonad m] in
@[simp]
theorem replaceFrom_nil : replaceFrom marker replacement escaped [] = pure [] := rfl

theorem replaceFrom_marker (rest : Text) :
    replaceFrom marker replacement false (marker :: rest) = do
      let word ← replacement
      let others ← replaceFrom marker replacement false rest
      return word ++ others := by
  rw [replaceFrom, unescapedPieces.go, if_pos (by simp), unescapedPieces.go_eq]
  exact render_found _ _ _ _

theorem replaceFrom_cons_of_kept (kept : symbol = marker → escaped = true) (rest : Text) :
    replaceFrom marker replacement escaped (symbol :: rest) =
      (symbol :: ·) <$> replaceFrom marker replacement (escapesNext escaped symbol) rest := by
  have passed : ¬ (symbol == marker && !escaped) = true := by simpa using kept
  rw [replaceFrom, unescapedPieces.go, if_neg passed, unescapedPieces.go_eq]
  exact render_copied _ _ _

/-- The first character of a text is an occurrence that is replaced, or it is kept. -/
theorem replaced_or_kept (marker symbol : Char) (escaped : Bool) :
    (symbol = marker ∧ escaped = false) ∨ (symbol = marker → escaped = true) := by
  cases escaped with
  | true => exact .inr fun _ => rfl
  | false =>
      exact (em (symbol = marker)).imp (fun same => ⟨same, rfl⟩) fun other same => absurd same other

theorem replaceFrom_append (noEscape : marker ≠ '\\') (front back : Text) :
    replaceFrom marker replacement escaped (front ++ back) = do
      let first ← replaceFrom marker replacement escaped front
      let second ← replaceFrom marker replacement (front.foldl escapesNext escaped) back
      return first ++ second := by
  induction front generalizing escaped with
  | nil => simp
  | cons symbol front inductionHypothesis =>
      rw [List.cons_append, List.foldl_cons]
      rcases replaced_or_kept marker symbol escaped with ⟨rfl, rfl⟩ | kept
      · rw [replaceFrom_marker, replaceFrom_marker, inductionHypothesis, escapesNext_of_ne noEscape]
        simp only [bind_assoc, pure_bind, List.append_assoc]
      · rw [replaceFrom_cons_of_kept kept, replaceFrom_cons_of_kept kept, inductionHypothesis]
        simp

theorem replaceFrom_of_not_mem (absent : marker ∉ text) :
    replaceFrom marker replacement escaped text = pure text := by
  induction text generalizing escaped with
  | nil => rfl
  | cons symbol rest inductionHypothesis =>
      obtain ⟨other, later⟩ := List.ne_and_not_mem_of_not_mem_cons absent
      have kept : symbol = marker → escaped = true := fun same => absurd same.symm other
      rw [replaceFrom_cons_of_kept kept, inductionHypothesis later]
      simp

/-- A word without backslashes that has no marker is kept, and does not touch what follows it. -/
theorem replaceFrom_word_append
    (noEscape : '\\' ∉ word) (absent : marker ∉ word) (markerNoEscape : marker ≠ '\\')
    (rest : Text) :
    replaceFrom marker replacement false (word ++ rest) =
      (word ++ ·) <$> replaceFrom marker replacement false rest := by
  rw [replaceFrom_append markerNoEscape, replaceFrom_of_not_mem absent,
    foldl_escapesNext_of_noEscape noEscape]
  simp

end RandomCodes.Pattern

import RandomCodes.Proofs.Pattern.Acceptance
import RandomCodes.Proofs.Pattern.QuantifierPasses
/-!
# Fixed counts and markers

Writing fixed counts out and writing one kind of marker out are passes over quantifiers. After the
pass for fixed counts and those for all markers, every quantifier of a pattern is written as two
bounds.
-/

namespace RandomCodes.Pattern

open Construct (text language)

variable {pending : List Abbreviation}

def fixedCountReader : Reader Nat :=
  fixedCount.attempt.reader ()

theorem pure_normalizeFixedCounts (written : Text) :
    (pure (normalizeFixedCounts written) : Draws Text) =
      fixedCountReader.rewrite (fun count => pure (Quantifier.exactly count).toText) written := by
  rw [normalizeFixedCounts, Recogniser.pieces_eq fixedCount_accepts.uniform, pure_render]
  rfl

theorem fixedCountReader_of_ne {symbol : Char} (noBrace : symbol ≠ '{') (rest : Text) :
    fixedCountReader (symbol :: rest) = none := by
  have other : (symbol :: rest).head? ≠ some '{' := by simpa using noBrace
  simp only [fixedCountReader, Attempt.reader, Recogniser.attempt, Cursor.start,
    fixedCount_of_head?_ne other]
  rfl

theorem fixedCountReader_read (count : Numeral) (rest : Text) :
    fixedCountReader (fixedText count ++ rest) =
      some (min count.value Recogniser.greatestNumber, (fixedText count).length) := by
  simp only [fixedCountReader, Attempt.reader, Recogniser.attempt, Cursor.start,
    fixedCount_read]
  simp

theorem fixedCountReader_bounds (limits : Bounds) (rest : Text) :
    fixedCountReader (limits.text ++ rest) = none := by
  simp only [fixedCountReader, Attempt.reader, Recogniser.attempt, Cursor.start,
    limits.fixedCount_eq_none]
  rfl

/-- A quantifier after the pass for fixed counts. -/
def Mark.normalized : Mark (.fixed :: pending) → Mark pending
  | .absent => .absent
  | .bounds limits => .bounds limits
  | .fixed count small _ => .bounds (.ofNat count.value count.value le_rfl small)
  | .marker kind allowed => .marker kind (by simpa using allowed)

theorem exactly_toText {count : Numeral} (small : count.value ≤ 1000) :
    (Quantifier.exactly (min count.value Recogniser.greatestNumber)).toText =
      (Bounds.ofNat count.value count.value le_rfl small).text := by
  have clamp : Quantifier.greatestCount = 1000 ∧ 1000 ≤ Recogniser.greatestNumber := by decide
  have number : min (min count.value Recogniser.greatestNumber) Quantifier.greatestCount =
      count.value := by
    omega
  rw [Bounds.text_ofNat, Quantifier.exactly, number]

section FixedCounts

def fixedCountPass (written : Text) : Draws Text :=
  pure (normalizeFixedCounts written)

theorem fixedCountPass_eq :
    fixedCountPass =
      fixedCountReader.rewrite fun count => pure (Quantifier.exactly count).toText :=
  funext pure_normalizeFixedCounts

theorem fixedCountPass_keeps {symbol : Char} (noBrace : symbol ≠ '{') :
    Keeps .anything fixedCountPass [symbol] := by
  intro rest _
  rw [fixedCountPass_eq]
  exact Reader.rewrites_of_eq_none (fixedCountReader_of_ne noBrace rest) _

theorem fixedCountPass_keeps_bounds (limits : Bounds) (rest : Text) :
    Rewrites fixedCountPass limits.text rest {limits.text} := by
  refine Rewrites.keep fun before symbol after equality => ?_
  cases before with
  | nil =>
      rw [fixedCountPass_eq]
      refine Reader.rewrites_of_eq_none ?_ _
      rw [← List.cons_append, ← List.nil_append (symbol :: after), ← equality]
      exact fixedCountReader_bounds limits rest
  | cons first others =>
      have member : symbol ∈ limits.text.tail := by simp [equality]
      exact fixedCountPass_keeps (limits.ne_brace_of_mem_tail member) trivial

theorem fixedCountPass_keeps_atom (atom : Atom) :
    Keeps .anything fixedCountPass (text atom) := by
  refine Keeps.of_forall_anything fun symbol member => fixedCountPass_keeps ?_
  cases atom with
  | inl entries =>
      rcases mem_text_class member with ordinary | rfl | rfl
      · exact ne_of_not_special ordinary (by decide)
      · decide
      · decide
  | inr single =>
      rcases mem_text_single member with ordinary | rfl | escapable
      · exact ne_of_not_special ordinary (by decide)
      · decide
      · rintro rfl
        exact absurd escapable (by decide)

theorem expandedTexts_eq
    {remaining : List Abbreviation} {Expansion : Mark pending → Mark remaining → Prop}
    {mark : Mark pending} {expansion : Mark remaining}
    (only : ∀ other, Expansion mark other ↔ other = expansion) :
    expandedTexts Expansion mark = {expansion.text} := by
  ext word
  constructor
  · rintro ⟨other, expanded, rfl⟩
    rw [(only other).mp expanded]
    rfl
  · rintro rfl
    exact ⟨expansion, (only expansion).mpr rfl, rfl⟩

/-- A quantifier with a single expansion, written like itself, is kept. -/
theorem rewrites_of_only
    {remaining : List Abbreviation} {rewrite : Text → Draws Text}
    {Expansion : Mark pending → Mark remaining → Prop} {mark : Mark pending}
    {expansion : Mark remaining} (only : ∀ other, Expansion mark other ↔ other = expansion)
    (sameText : expansion.text = mark.text) (kept : Keeps .anything rewrite mark.text)
    (rest : Text) : Rewrites rewrite mark.text rest (expandedTexts Expansion mark) := by
  rw [expandedTexts_eq only, sameText]
  exact kept trivial

theorem fixedCountPass_expands :
    Expands fixedCountPass
      fun (mark : Mark (.fixed :: pending)) expansion => expansion = mark.normalized where
  turns mark rest := by
    rw [expandedTexts_eq fun _ => Iff.rfl]
    cases mark with
    | absent => exact Rewrites.nil
    | bounds limits => exact fixedCountPass_keeps_bounds limits rest
    | fixed count small allowed =>
        -- the only quantifier that this pass writes anew
        have read := fixedCountReader_read count rest
        have nonempty : fixedText count ≠ [] := by simp [fixedText]
        have written := Reader.rewrites_of_eq_some nonempty read
          fun count => pure (Quantifier.exactly count).toText
        rw [exactly_toText small, Draws.outcomes_pure, ← fixedCountPass_eq] at written
        exact written
    | marker kind allowed =>
        rw [Mark.normalized, Mark.text_marker, Mark.text_marker]
        refine fixedCountPass_keeps ?_ trivial
        cases kind <;> decide
  sound := by
    rintro mark expansion count rfl allows
    cases mark with
    | absent => exact allows
    | bounds limits => exact allows
    | fixed number small allowed =>
        simp only [Mark.normalized, Mark.Allows, Bounds.ofNat, Numeral.value_ofNat] at allows ⊢
        omega
    | marker kind allowed => exact allows
  best mark := by
    refine ⟨mark.normalized, rfl, fun count allows => ?_⟩
    cases mark with
    | absent => exact allows
    | bounds limits => exact allows
    | fixed number small allowed =>
        simp only [Mark.normalized, Mark.Allows, Bounds.ofNat, Numeral.value_ofNat] at allows ⊢
        omega
    | marker kind allowed => exact allows
  keeps := fixedCountPass_keeps_atom
  keepsFrame symbol member := by
    apply fixedCountPass_keeps
    rintro rfl
    exact absurd member (by decide)

end FixedCounts

/-! ## Markers -/

namespace Marker

/-- The bounds that a marker can be written as. -/
def Expansion : Marker → Bounds → Prop
  | .optional, limits => limits = .ofNat 0 1 (by decide) (by decide)
  | .zeroOrMore, limits => ∃ most, (1 ≤ most ∧ most ≤ 9) ∧
      limits = .ofNat 0 most (Nat.zero_le most) (by decide)
  | .oneOrMore, limits => ∃ most, ∃ positive : 1 ≤ most, most ≤ 9 ∧
      limits = .ofNat 1 most positive (by decide)

theorem canReturn_quantifier (kind : Marker) (written : Text) :
    (Quantifier.toText <$> kind.quantifier).CanReturn written ↔
      ∃ limits, kind.Expansion limits ∧ written = limits.text := by
  have drawn : 1 ≤ greatestDrawnBound := by decide
  cases kind with
  | optional =>
      simp only [quantifier, Expansion, Draws.canReturn_map, Draws.canReturn_pure]
      constructor
      · rintro ⟨_, rfl, rfl⟩
        exact ⟨_, rfl, (Bounds.text_ofNat _ _).symm⟩
      · rintro ⟨_, rfl, rfl⟩
        exact ⟨_, rfl, Bounds.text_ofNat _ _⟩
  | zeroOrMore =>
      simp only [quantifier, Expansion, Draws.canReturn_map, Draws.canReturn_bind,
        Draws.canReturn_between drawn, Draws.canReturn_pure]
      constructor
      · rintro ⟨_, ⟨most, bounded, rfl⟩, rfl⟩
        exact ⟨_, ⟨most, bounded, rfl⟩, (Bounds.text_ofNat _ _).symm⟩
      · rintro ⟨_, ⟨most, bounded, rfl⟩, rfl⟩
        exact ⟨_, ⟨most, bounded, rfl⟩, Bounds.text_ofNat _ _⟩
  | oneOrMore =>
      simp only [quantifier, Expansion, Draws.canReturn_map, Draws.canReturn_bind,
        Draws.canReturn_between drawn, Draws.canReturn_pure]
      constructor
      · rintro ⟨_, ⟨most, ⟨positive, bounded⟩, rfl⟩, rfl⟩
        exact ⟨_, ⟨most, positive, bounded, rfl⟩, (Bounds.text_ofNat _ _).symm⟩
      · rintro ⟨_, ⟨most, positive, bounded, rfl⟩, rfl⟩
        exact ⟨_, ⟨most, ⟨positive, bounded⟩, rfl⟩, Bounds.text_ofNat _ _⟩

theorem sound_expansion
    {kind : Marker} {limits : Bounds} (expansion : kind.Expansion limits) {count : Nat}
    (allows : (Mark.bounds limits : Mark pending).Allows count) : kind.Allows count := by
  cases kind with
  | optional =>
      obtain rfl := expansion
      simp only [Mark.Allows, Bounds.ofNat, Numeral.value_ofNat, Allows] at allows ⊢
      omega
  | zeroOrMore =>
      obtain ⟨most, bounded, rfl⟩ := expansion
      simp only [Mark.Allows, Bounds.ofNat, Numeral.value_ofNat, Allows] at allows ⊢
      omega
  | oneOrMore =>
      obtain ⟨most, positive, bounded, rfl⟩ := expansion
      simp only [Mark.Allows, Bounds.ofNat, Numeral.value_ofNat, Allows] at allows ⊢
      omega

/-- The greatest bound that can be drawn allows every number of copies. -/
theorem exists_best_expansion (kind : Marker) :
    ∃ limits, kind.Expansion limits ∧
      ∀ count, kind.Allows count → (Mark.bounds limits : Mark pending).Allows count := by
  cases kind with
  | optional =>
      refine ⟨_, rfl, fun count allows => ?_⟩
      simp only [Mark.Allows, Bounds.ofNat, Numeral.value_ofNat, Allows] at allows ⊢
      omega
  | zeroOrMore =>
      refine ⟨_, ⟨9, ⟨by decide, le_rfl⟩, rfl⟩, fun count allows => ?_⟩
      simp only [Mark.Allows, Bounds.ofNat, Numeral.value_ofNat, Allows] at allows ⊢
      omega
  | oneOrMore =>
      refine ⟨_, ⟨9, by decide, le_rfl, rfl⟩, fun count allows => ?_⟩
      simp only [Mark.Allows, Bounds.ofNat, Numeral.value_ofNat, Allows] at allows ⊢
      omega

theorem symbol_ne_escape (kind : Marker) : kind.symbol ≠ '\\' := by
  cases kind <;> decide

theorem expand_keeps
    (kind : Marker) {symbol : Char} (other : symbol ≠ kind.symbol) (noEscape : symbol ≠ '\\') :
    Keeps .anything kind.expand [symbol] :=
  fun {rest} _ => rewrites_unescaped_of_ne _ other noEscape rest

theorem expand_keeps_escaped (kind : Marker) (symbol : Char) :
    Keeps .anything kind.expand ['\\', symbol] :=
  fun {rest} _ => rewrites_escaped _ kind.symbol_ne_escape symbol rest

theorem expand_keeps_shorthand (kind : Marker) (shorthand : Shorthand) :
    Keeps .anything kind.expand shorthand.spelling := by
  rw [shorthand.spelling_eq]
  exact kind.expand_keeps_escaped shorthand.symbol

theorem expand_keeps_ordinary
    (kind : Marker) {symbol : Char} (ordinary : symbol ∉ specialCharacters) :
    Keeps .anything kind.expand [symbol] := by
  refine kind.expand_keeps (ne_of_not_special ordinary ?_) (ne_of_not_special ordinary (by decide))
  cases kind <;> decide

theorem expand_keeps_atom (kind : Marker) (atom : Atom) :
    Keeps .anything kind.expand (text atom) := by
  cases atom with
  | inl entries =>
      refine Keeps.of_forall_anything fun symbol member => ?_
      rcases mem_text_class member with ordinary | rfl | rfl
      · exact kind.expand_keeps_ordinary ordinary
      · exact kind.expand_keeps (by cases kind <;> decide) (by decide)
      · exact kind.expand_keeps (by cases kind <;> decide) (by decide)
  | inr single =>
      cases single with
      | plain symbol ordinary => exact kind.expand_keeps_ordinary ordinary
      | escaped symbol escapable => exact kind.expand_keeps_escaped symbol
      | shorthand shorthand allowed => exact kind.expand_keeps_shorthand shorthand
      | wildcard => exact kind.expand_keeps (by cases kind <;> decide) (by decide)

theorem expand_keeps_frame
    (kind : Marker) {symbol : Char} (frame : symbol.isDigit ∨ symbol ∈ ['{', ',', '}']) :
    Keeps .anything kind.expand [symbol] := by
  rcases frame with digit | brace
  · exact kind.expand_keeps_ordinary (not_special_of_isDigit digit)
  · apply kind.expand_keeps
    · rintro rfl
      cases kind <;> exact absurd brace (by decide)
    · rintro rfl
      exact absurd brace (by decide)

end Marker

/-- What the pass for one kind of marker makes of a quantifier. -/
inductive Mark.Expanded (kind : Marker) {pending : List Abbreviation} :
    Mark (.marker kind :: pending) → Mark pending → Prop
  | absent : Expanded kind .absent .absent
  | bounds (limits : Bounds) : Expanded kind (.bounds limits) (.bounds limits)
  | fixed {count small allowed stillAllowed} :
      Expanded kind (.fixed count small allowed) (.fixed count small stillAllowed)
  | other {another allowed stillAllowed} :
      another ≠ kind → Expanded kind (.marker another allowed) (.marker another stillAllowed)
  | written {allowed limits} :
      kind.Expansion limits → Expanded kind (.marker kind allowed) (.bounds limits)

theorem Marker.expand_turns_marker (kind : Marker)
    (allowed : .marker kind ∈ .marker kind :: pending) (rest : Text) :
    Rewrites kind.expand [kind.symbol] rest
      (expandedTexts (Mark.Expanded kind) (.marker kind allowed)) := by
  have results : expandedTexts (Mark.Expanded kind) (.marker kind allowed) =
      (Quantifier.toText <$> kind.quantifier).outcomes := by
    ext written
    rw [Draws.mem_outcomes, kind.canReturn_quantifier]
    constructor
    · intro member
      obtain ⟨_, expanded, rfl⟩ := member
      cases expanded with
      | other different => exact absurd rfl different
      | written expansion => exact ⟨_, expansion, rfl⟩
    · intro bounds
      obtain ⟨limits, expansion, rfl⟩ := bounds
      exact ⟨.bounds limits, .written expansion, rfl⟩
  rw [results]
  exact rewrites_marker _ rest

theorem Marker.expand_turns
    (kind : Marker) (mark : Mark (.marker kind :: pending)) (rest : Text) :
    Rewrites kind.expand mark.text rest (expandedTexts (Mark.Expanded kind) mark) := by
  cases mark with
  | absent =>
      have only : ∀ other, Mark.Expanded kind (.absent : Mark (.marker kind :: pending)) other ↔
          other = .absent := by
        intro other
        constructor
        · intro expanded
          cases expanded
          rfl
        · intro same
          exact same ▸ .absent
      exact rewrites_of_only only rfl (fun {_} _ => Rewrites.nil) rest
  | bounds limits =>
      have only : ∀ other,
          Mark.Expanded kind (.bounds limits : Mark (.marker kind :: pending)) other ↔
            other = .bounds limits := by
        intro other
        constructor
        · intro expanded
          cases expanded
          rfl
        · intro same
          exact same ▸ .bounds limits
      have kept : Keeps .anything kind.expand limits.text :=
        Keeps.of_forall_anything fun symbol member =>
          kind.expand_keeps_frame (Bounds.mem_text member)
      exact rewrites_of_only only rfl kept rest
  | fixed count small allowed =>
      have stillAllowed : Abbreviation.fixed ∈ pending := by simpa using allowed
      have only : ∀ other, Mark.Expanded kind (.fixed count small allowed) other ↔
          other = .fixed count small stillAllowed := by
        intro other
        constructor
        · intro expanded
          cases expanded
          rfl
        · intro same
          exact same ▸ .fixed
      have kept : Keeps .anything kind.expand (fixedText count) :=
        Keeps.of_forall_anything fun symbol member =>
          kind.expand_keeps_frame (mem_fixedText member)
      exact rewrites_of_only only rfl kept rest
  | marker another allowed =>
      by_cases same : another = kind
      · subst same
        rw [Mark.text_marker]
        exact another.expand_turns_marker allowed rest
      · have stillAllowed : Abbreviation.marker another ∈ pending := by
          simpa [same] using allowed
        have only : ∀ other, Mark.Expanded kind (.marker another allowed) other ↔
            other = .marker another stillAllowed := by
          intro other
          constructor
          · intro expanded
            cases expanded with
            | other different => rfl
            | written expansion => exact absurd rfl same
          · intro written
            exact written ▸ .other same
        have different : another.symbol ≠ kind.symbol := by
          intro equal
          apply same
          cases another <;> cases kind <;> first | rfl | exact absurd equal (by decide)
        have kept : Keeps .anything kind.expand another.spelling := by
          rw [another.spelling_eq]
          exact kind.expand_keeps different another.symbol_ne_escape
        exact rewrites_of_only only rfl kept rest

theorem Marker.expand_expands (kind : Marker) :
    Expands kind.expand
      (Mark.Expanded kind : Mark (.marker kind :: pending) → Mark pending → Prop) where
  turns := kind.expand_turns
  sound := by
    intro mark expansion count expanded allows
    cases expanded with
    | absent => exact allows
    | bounds limits => exact allows
    | fixed => exact allows
    | other different => exact allows
    | written expansion => exact sound_expansion expansion allows
  best mark := by
    cases mark with
    | absent => exact ⟨.absent, .absent, fun _ => id⟩
    | bounds limits => exact ⟨.bounds limits, .bounds limits, fun _ => id⟩
    | fixed count small allowed =>
        exact ⟨.fixed count small (by simpa using allowed), .fixed, fun _ => id⟩
    | marker another allowed =>
        by_cases same : another = kind
        · subst same
          obtain ⟨limits, expansion, complete⟩ := another.exists_best_expansion
          exact ⟨.bounds limits, .written expansion, complete⟩
        · exact ⟨.marker another (by simpa [same] using allowed), .other same, fun _ => id⟩
  keeps := kind.expand_keeps_atom
  keepsFrame symbol member := by
    apply kind.expand_keeps
    · rintro rfl
      cases kind <;> exact absurd member (by decide)
    · rintro rfl
      exact absurd member (by decide)

theorem Marker.expand_nil (kind : Marker) : kind.expand [] = pure [] :=
  replaceUnescaped_nil _

/-- After the passes for all markers of a list, none of them is left. -/
theorem realizes_expandMarkers
    (markers : List Marker) {program : Text → Draws Text}
    (following : Realizes (List (Part [])) program) :
    Realizes (List (Part (markers.map .marker))) fun written =>
      markers.foldlM (fun text marker => marker.expand text) written >>= program := by
  -- Each pass takes the first of the pending markers, and the later ones meet what it leaves.
  induction markers with
  | nil => exact following
  | cons kind others inductionHypothesis =>
      have step := kind.expand_expands.realizes kind.expand_nil inductionHypothesis
      intro body
      have result := step body
      simp only [List.foldlM_cons, bind_assoc]
      exact result

end RandomCodes.Pattern

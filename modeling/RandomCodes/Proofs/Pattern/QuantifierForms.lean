import RandomCodes.Proofs.Pattern.EscapeParity
import RandomCodes.Proofs.Pattern.LiteralText
import RandomCodes.Proofs.Pattern.Remnants
/-!
# Short forms of quantifiers

A quantifier can be written as one number or as a marker. Whatever stands around it, such a short
form means what the two bounds written out in full mean: the stages before repetition treat the text
in front of it and the text behind it alike in both cases, and in between they make the full form of
the short one.
-/

namespace RandomCodes.Pattern

variable {α : Type} {front middle back : Text}

/-- The text without the delimiters that stand in front. -/
def withoutFront (text : Text) : Text :=
  Text.dropFirst '^' (Text.dropFirst '/' text)

/-- The text without the delimiters that stand at the end. -/
def withoutBack (text : Text) : Text :=
  Text.dropLast '$' (Text.dropLast '/' text)

theorem dropFirst_append {symbol : Char} (other : back.head? ≠ some symbol) (front : Text) :
    Text.dropFirst symbol (front ++ back) = Text.dropFirst symbol front ++ back := by
  cases front with
  | nil => exact dropFirst_of_head?_ne other
  | cons first front =>
      rw [List.cons_append, Text.dropFirst, Text.dropFirst]
      split <;> rfl

theorem dropLast_append {symbol : Char} (other : front.getLast? ≠ some symbol) (back : Text) :
    Text.dropLast symbol (front ++ back) = front ++ Text.dropLast symbol back := by
  rw [← List.head?_reverse] at other
  rw [Text.dropLast, List.reverse_append, dropFirst_append other, List.reverse_append,
    List.reverse_reverse]
  rfl

theorem stripDelimiters_around
    (nonempty : middle ≠ []) (undelimited : Undelimited middle) (front back : Text) :
    stripDelimiters (front ++ (middle ++ back)) =
      withoutFront front ++ (middle ++ withoutBack back) := by
  have first : (middle ++ back).head? = middle.head? := List.head?_append_of_ne_nil middle nonempty
  have last : (withoutFront front ++ middle).getLast? = middle.getLast? :=
    List.getLast?_append_of_ne_nil _ nonempty
  have slash := dropFirst_append (first.trans_ne undelimited.first.1) front
  have caret := dropFirst_append (first.trans_ne undelimited.first.2) (Text.dropFirst '/' front)
  have backSlash := dropLast_append (last.trans_ne undelimited.last.1) back
  have dollar := dropLast_append (last.trans_ne undelimited.last.2) (Text.dropLast '/' back)
  simp only [stripDelimiters]
  rw [slash, caret, ← List.append_assoc, ← List.append_assoc]
  exact (congrArg (Text.dropLast '$') backSlash).trans dollar

theorem foldl_dropFirst {symbol : Char} (noEscape : symbol ≠ '\\') (text : Text) :
    (Text.dropFirst symbol text).foldl escapesNext false = text.foldl escapesNext false := by
  cases text with
  | nil => rfl
  | cons first rest =>
      rw [Text.dropFirst]
      split
      · rename_i same
        rw [List.foldl_cons, same, escapesNext_of_ne noEscape]
      · rfl

theorem clear_dropFirst
    {marker symbol : Char} (noEscape : symbol ≠ '\\') {text : Text}
    (clear : Clear marker false text) :
    Clear marker false (Text.dropFirst symbol text) := by
  cases text with
  | nil => exact clear
  | cons first rest =>
      rw [Text.dropFirst]
      split
      · rename_i same
        have behind := (clear_cons_iff.mp clear).2
        rwa [same, escapesNext_of_ne noEscape] at behind
      · exact clear

/-- Two texts side by side are split as they are alone, if every span that begins in the front one
ends there. -/
theorem Splits.append
    {grammar : Grammar α} {parts others : List (Piece α)} (splits : Splits grammar front parts)
    (behind : Splits grammar back others)
    (inside : ∀ tail, tail ≠ [] → grammar.Begins (tail ++ back) → grammar.Begins tail) :
    Splits grammar (front ++ back) (parts ++ others) := by
  induction parts generalizing front with
  | nil =>
      obtain rfl : [] = front := splits.source
      exact behind
  | cons piece parts inductionHypothesis =>
      have joined := inductionHypothesis splits.tail
      rw [← splits.source, List.flatMap_cons, List.append_assoc]
      cases piece with
      | copied symbol =>
          have outside := splits.copied [] symbol parts rfl
          exact joined.copy fun begins => outside (inside _ (List.cons_ne_nil _ _) begins)
      | found span value => exact joined.find (splits.found span value List.mem_cons_self)

/-- A count that begins in front of a text ends there, unless the text begins with a part of one. -/
theorem begins_count_of_append
    (apart : ∀ symbol ∈ back.head?, symbol.isDigit = false ∧ symbol ≠ '}') {tail : Text}
    (nonempty : tail ≠ []) (begins : Grammar.Begins CountSpan (tail ++ back)) :
    Grammar.Begins CountSpan tail := by
  obtain ⟨span, count, construct, within⟩ := begins
  rcases List.prefix_or_prefix_of_prefix within (List.prefix_append tail back) with inside | across
  · exact ⟨span, count, construct, inside⟩
  · obtain ⟨rest, rfl⟩ := across
    cases rest with
    | nil => exact ⟨tail, count, by simpa using construct, List.prefix_rfl⟩
    | cons symbol rest =>
        -- The span would go on with the first character of the text behind.
        obtain ⟨first, tail, rfl⟩ := List.exists_cons_of_ne_nil nonempty
        have head : symbol ∈ back.head? := by
          obtain ⟨later, rfl⟩ := (List.prefix_append_right_inj _).mp within
          rfl
        generalize whole : first :: tail ++ symbol :: rest = span at construct
        obtain ⟨numeral⟩ := construct
        rw [fixedText, List.cons_append, List.cons_append] at whole
        have member : symbol ∈ numeral.digits ++ ['}'] := by
          rw [← (List.cons.inj whole).2]
          simp
        rcases List.mem_append.mp member with digit | close
        · have noDigit := (apart symbol head).1
          rw [numeral.isDigit symbol digit] at noDigit
          cases noDigit
        · exact absurd (List.mem_singleton.mp close) (apart symbol head).2

theorem render_append
    {m : Type → Type} [Monad m] [LawfulMonad m] (replacement : α → m Text)
    (parts others : List (Piece α)) :
    render replacement (parts ++ others) = do
      let first ← render replacement parts
      let second ← render replacement others
      return first ++ second := by
  simp [render_eq_mapM, List.mapM_append]

/-- Fixed counts in front of a text that begins with no part of a count are those of the front. -/
theorem normalizeFixedCounts_append
    (apart : ∀ symbol ∈ back.head?, symbol.isDigit = false ∧ symbol ≠ '}') (front : Text) :
    normalizeFixedCounts (front ++ back) =
      normalizeFixedCounts front ++ normalizeFixedCounts back := by
  have split := fun text => (Recogniser.agrees fixedCount).splits_pieces fixedCount_accepts
    countSpan_proper text
  have joined := (split front).append (split back)
    fun tail nonempty => begins_count_of_append apart nonempty
  have pieces : fixedCount.pieces front ++ fixedCount.pieces back =
      fixedCount.pieces (front ++ back) := by
    have only := fixedCount_accepts.obeys.pieces_eq_of_splits countSpan_proper joined
    rwa [← Recogniser.pieces_eq fixedCount_accepts.uniform] at only
  rw [normalizeFixedCounts, ← pieces, render_append]
  rfl

theorem normalizeFixedCounts_cons
    {symbol : Char} {rest : Text} (outside : ¬ Grammar.Begins CountSpan (symbol :: rest)) :
    normalizeFixedCounts (symbol :: rest) = symbol :: normalizeFixedCounts rest := by
  have refused := (fixedCount_accepts.obeys.eq_none_iff _).mpr outside
  have written := Reader.rewrite_cons_of_eq_none refused
    fun count => pure (Quantifier.exactly count).toText
  rw [← fixedCountReader, ← pure_normalizeFixedCounts, ← pure_normalizeFixedCounts] at written
  exact Draws.done.inj written

theorem normalizeFixedCounts_fixedText
    {count : Nat} (small : count ≤ 1000) (rest : Text) :
    normalizeFixedCounts (fixedText (.ofNat count) ++ rest) =
      Quantifier.toText { least := count, most := count } ++ normalizeFixedCounts rest := by
  have nonempty : fixedText (.ofNat count) ≠ [] := List.cons_ne_nil _ _
  have bounded : (Numeral.ofNat count).value ≤ 1000 := by simpa using small
  have word :
      (Quantifier.exactly (min (Numeral.ofNat count).value Recogniser.greatestNumber)).toText =
        Quantifier.toText { least := count, most := count } := by
    rw [exactly_toText bounded, Bounds.text_ofNat, Numeral.value_ofNat]
  have written := Reader.rewrite_append_of_eq_some nonempty
    (fixedCountReader_read (.ofNat count) rest) fun count => pure (Quantifier.exactly count).toText
  rw [← pure_normalizeFixedCounts, ← pure_normalizeFixedCounts, word] at written
  exact Draws.done.inj written

theorem normalizeFixedCounts_bounds (bounds : Bounds) (rest : Text) :
    normalizeFixedCounts (bounds.text ++ rest) = bounds.text ++ normalizeFixedCounts rest := by
  suffices kept : ∀ word, word <:+ bounds.text →
      normalizeFixedCounts (word ++ rest) = word ++ normalizeFixedCounts rest from
    kept _ List.suffix_rfl
  intro word suffix
  induction word with
  | nil => rfl
  | cons symbol word inductionHypothesis =>
      have outside := bounds.not_begins_count (List.cons_ne_nil symbol word) suffix rest
      have behind := inductionHypothesis ((List.suffix_cons symbol word).trans suffix)
      exact (normalizeFixedCounts_cons outside).trans (congrArg (symbol :: ·) behind)

/-- What follows the result is escaped as it is behind the text, and a marker that is always escaped
in the text is so in the result; `escaped` says whether the first character is. -/
structure LeavesEscapes (marker : Char) (escaped : Bool) (text result : Text) : Prop where
  behind : result.foldl escapesNext escaped = text.foldl escapesNext escaped
  clear : Clear marker escaped text → Clear marker escaped result

namespace LeavesEscapes

variable {marker symbol : Char} {escaped : Bool} {text result span word : Text}

theorem nil : LeavesEscapes marker escaped [] [] where
  behind := rfl
  clear := id

theorem cons (later : LeavesEscapes marker (escapesNext escaped symbol) text result) :
    LeavesEscapes marker escaped (symbol :: text) (symbol :: result) where
  behind := later.behind
  clear before := ⟨before.1, later.clear before.2⟩

theorem append
    (free : span.foldl escapesNext escaped = false)
    (wordFree : word.foldl escapesNext escaped = false)
    (absent : marker ∉ word) (later : LeavesEscapes marker false text result) :
    LeavesEscapes marker escaped (span ++ text) (word ++ result) where
  behind := by rw [List.foldl_append, List.foldl_append, free, wordFree, later.behind]
  clear before := by
    have rest := (clear_append_iff.mp before).2
    rw [free] at rest
    refine clear_append_iff.mpr ⟨clear_of_not_mem absent, ?_⟩
    rw [wordFree]
    exact later.clear rest

end LeavesEscapes

/-- Neither a count nor the bounds that are written for it have a backslash or a marker. -/
theorem leavesEscapes_normalizeFixedCounts (marker : Marker) (text : Text) :
    LeavesEscapes marker.symbol false text (normalizeFixedCounts text) := by
  have becomes := becomes_normalizeFixedCounts text
  generalize normalizeFixedCounts text = result at becomes ⊢
  suffices leaves : ∀ escaped, LeavesEscapes marker.symbol escaped text result from leaves false
  induction becomes with
  | nil => exact fun _ => .nil
  | kept symbol _ _ inductionHypothesis => exact fun _ => (inductionHypothesis _).cons
  | @word span word _ _ count construct written _ inductionHypothesis =>
      intro escaped
      obtain ⟨numeral⟩ := construct
      obtain rfl := written
      have noEscape : '\\' ∉ fixedText numeral := fun member =>
        absurd (mem_fixedText member) (by decide)
      refine .append (foldl_escapesNext_of_ne_nil (List.cons_ne_nil _ _) noEscape escaped)
        (foldl_escapesNext_of_ne_nil (List.cons_ne_nil _ _) ?_ escaped) ?_
        (inductionHypothesis false)
      · exact Quantifier.not_mem_toText (by decide) (by decide) _
      · exact Quantifier.not_mem_toText (by cases marker <;> decide) (by cases marker <;> decide) _

/-- The text with every unescaped `?` written out, `escaped` saying whether the first character is
escaped. -/
def optionalWritten (escaped : Bool) (text : Text) : Text :=
  Id.run (replaceFrom '?' (pure (Quantifier.toText { least := 0, most := 1 })) escaped text)

theorem optional_expand_eq (text : Text) :
    Marker.optional.expand text = pure (optionalWritten false text) :=
  (pure_render (fun _ => Quantifier.toText { least := 0, most := 1 })
    (unescapedPieces '?' text)).symm

theorem optionalWritten_append (escaped : Bool) (front back : Text) :
    optionalWritten escaped (front ++ back) =
      optionalWritten escaped front ++ optionalWritten (front.foldl escapesNext escaped) back :=
  replaceFrom_append (m := Id) (by decide) front back

theorem optionalWritten_marker (rest : Text) :
    optionalWritten false ('?' :: rest) =
      Quantifier.toText { least := 0, most := 1 } ++ optionalWritten false rest :=
  replaceFrom_marker (m := Id) rest

theorem optionalWritten_kept
    {symbol : Char} {escaped : Bool} (kept : symbol = '?' → escaped = true) (rest : Text) :
    optionalWritten escaped (symbol :: rest) =
      symbol :: optionalWritten (escapesNext escaped symbol) rest :=
  replaceFrom_cons_of_kept (m := Id) kept rest

theorem optionalWritten_quantifier (quantifier : Quantifier) (rest : Text) :
    optionalWritten false (quantifier.toText ++ rest) =
      quantifier.toText ++ optionalWritten false rest :=
  replaceFrom_word_append (m := Id) (quantifier.not_mem_toText (by decide) (by decide))
    (quantifier.not_mem_toText (by decide) (by decide)) (by decide) rest

theorem leavesEscapes_optionalWritten (escaped : Bool) (text : Text) :
    LeavesEscapes '*' escaped text (optionalWritten escaped text) := by
  induction text generalizing escaped with
  | nil => exact .nil
  | cons symbol rest inductionHypothesis =>
      rcases replaced_or_kept '?' symbol escaped with ⟨rfl, rfl⟩ | kept
      · rw [optionalWritten_marker]
        have free : ['?'].foldl escapesNext false = false := rfl
        refine .append free (foldl_escapesNext_of_noEscape ?_) ?_ (inductionHypothesis false)
        · exact Quantifier.not_mem_toText (by decide) (by decide) _
        · exact Quantifier.not_mem_toText (by decide) (by decide) _
      · rw [optionalWritten_kept kept]
        exact (inductionHypothesis _).cons

/-- Up to the markers, what stands around a quantifier is treated alone. -/
theorem normalized_around
    {word : Text} (nonempty : middle ≠ []) (undelimited : Undelimited middle)
    (apart : ∀ symbol ∈ middle.head?, symbol.isDigit = false ∧ symbol ≠ '}')
    (read : ∀ rest, normalizeFixedCounts (middle ++ rest) = word ++ normalizeFixedCounts rest)
    (front back : Text) :
    normalizeFixedCounts (stripDelimiters (front ++ (middle ++ back))) =
      normalizeFixedCounts (withoutFront front) ++
        (word ++ normalizeFixedCounts (withoutBack back)) := by
  rw [stripDelimiters_around nonempty undelimited, normalizeFixedCounts_append, read]
  rwa [List.head?_append_of_ne_nil middle nonempty]

/-- A text in braces has no delimiter at its ends. -/
theorem undelimited_braces (inside : Text) : Undelimited ('{' :: inside ++ ['}']) := by
  have last : ('{' :: inside ++ ['}']).getLast? = some '}' := List.getLast?_concat
  constructor
  · constructor <;> simp
  · rw [last]
    constructor <;> decide

theorem normalized_count
    {count : Nat} (small : count ≤ 1000) (front back : Text) :
    normalizeFixedCounts (stripDelimiters (front ++ ('{' :: Text.decimal count ++ ['}'] ++ back))) =
      normalizeFixedCounts (withoutFront front) ++
        (Quantifier.toText { least := count, most := count } ++
          normalizeFixedCounts (withoutBack back)) :=
  normalized_around (List.cons_ne_nil _ _) (undelimited_braces _) (by simp)
    (normalizeFixedCounts_fixedText small) front back

theorem normalized_quantifier
    {least most : Nat} (ordered : least ≤ most) (small : least ≤ 1000)
    (front back : Text) :
    normalizeFixedCounts
        (stripDelimiters (front ++ (Quantifier.toText { least, most } ++ back))) =
      normalizeFixedCounts (withoutFront front) ++
        (Quantifier.toText { least, most } ++ normalizeFixedCounts (withoutBack back)) := by
  have written := Bounds.text_ofNat ordered small
  refine normalized_around (List.cons_ne_nil _ _) ?_ ?_ ?_ front back
  · have braces := undelimited_braces (Text.decimal least ++ ',' :: Text.decimal most)
    simpa [Quantifier.toText] using braces
  · simp
  · have read := normalizeFixedCounts_bounds (Bounds.ofNat least most ordered small)
    rwa [written] at read

theorem normalized_marker (marker : Marker) (front back : Text) :
    normalizeFixedCounts (stripDelimiters (front ++ marker.symbol :: back)) =
      normalizeFixedCounts (withoutFront front) ++
        (marker.symbol :: normalizeFixedCounts (withoutBack back)) := by
  have undelimited : Undelimited [marker.symbol] := by
    cases marker <;> exact ⟨by decide, by decide⟩
  have apart : ∀ symbol ∈ [marker.symbol].head?, symbol.isDigit = false ∧ symbol ≠ '}' := by
    rintro symbol ⟨⟩
    cases marker <;> decide
  have noBrace : marker.symbol ≠ '{' := by cases marker <;> decide
  have kept : ∀ rest, normalizeFixedCounts ([marker.symbol] ++ rest) =
      [marker.symbol] ++ normalizeFixedCounts rest := fun rest =>
    normalizeFixedCounts_cons
      (not_begins_count_of_head?_ne fun same => noBrace (Option.some.inj same))
  exact normalized_around (List.cons_ne_nil _ _) undelimited apart kept front back

theorem normalized_front_behind {front : Text} (free : Even (escapeRun front)) :
    (normalizeFixedCounts (withoutFront front)).foldl escapesNext false = false := by
  rw [(leavesEscapes_normalizeFixedCounts .zeroOrMore _).behind, withoutFront,
    foldl_dropFirst (by decide), foldl_dropFirst (by decide)]
  exact (foldl_escapesNext_eq_false_iff front).mpr free

theorem normalized_front_clear {front : Text} (clear : ¬ Unescaped '*' front) :
    Clear '*' false (normalizeFixedCounts (withoutFront front)) := by
  have whole : Clear '*' false front := clear_iff_not_unescaped.mpr clear
  apply (leavesEscapes_normalizeFixedCounts .zeroOrMore _).clear
  exact clear_dropFirst (by decide) (clear_dropFirst (by decide) whole)

section Free

variable (free : front.foldl escapesNext false = false)
include free

theorem optionalWritten_around (quantifier : Quantifier) (back : Text) :
    optionalWritten false (front ++ (quantifier.toText ++ back)) =
      optionalWritten false front ++ (quantifier.toText ++ optionalWritten false back) := by
  rw [optionalWritten_append, free, optionalWritten_quantifier]

theorem expandMarkers_optional (back : Text) :
    expandMarkers (front ++ '?' :: back) =
      expandMarkers (front ++ (Quantifier.toText { least := 0, most := 1 } ++ back)) := by
  simp only [expandMarkers, Marker.all, List.foldlM_cons, optional_expand_eq, pure_bind,
    optionalWritten_around free]
  rw [optionalWritten_append, free, optionalWritten_marker]

/-- The first bound that is drawn is that of the first star. -/
theorem expand_zeroOrMore (clear : Clear '*' false front) (back : Text) :
    Marker.zeroOrMore.expand (front ++ '*' :: back) = (do
      let most ← Draws.between 1 9
      Marker.zeroOrMore.expand (front ++ (Quantifier.toText { least := 0, most } ++ back))) := by
  have escape := Marker.zeroOrMore.symbol_ne_escape
  have drawn : (Quantifier.toText <$> Marker.zeroOrMore.quantifier : Draws Text) =
      (fun most => Quantifier.toText { least := 0, most }) <$> Draws.between 1 9 := rfl
  have kept := replaceUnescaped_of_clear clear (Quantifier.toText <$> Marker.zeroOrMore.quantifier)
  -- No star of the front is free, so this pass draws nothing before it comes to the cut.
  have behind : ∀ rest, Marker.zeroOrMore.expand (front ++ rest) =
      (front ++ ·) <$> Marker.zeroOrMore.expand rest := by
    intro rest
    rw [Marker.expand, replaceUnescaped_eq_replaceFrom, replaceFrom_append escape,
      ← replaceUnescaped_eq_replaceFrom, free]
    exact congrArg (· >>= _) kept
  have word : ∀ most, Marker.zeroOrMore.expand (Quantifier.toText { least := 0, most } ++ back) =
      (Quantifier.toText { least := 0, most } ++ ·) <$> Marker.zeroOrMore.expand back := fun most =>
    replaceFrom_word_append (Quantifier.not_mem_toText (by decide) (by decide) _)
      (Quantifier.not_mem_toText (by decide) (by decide) _) escape back
  have star : Marker.zeroOrMore.expand ('*' :: back) = (do
      let word ← Quantifier.toText <$> Marker.zeroOrMore.quantifier
      let others ← Marker.zeroOrMore.expand back
      return word ++ others) := replaceFrom_marker back
  simp only [behind, word, star, drawn, map_eq_pure_bind, bind_assoc, pure_bind]

theorem expandMarkers_zeroOrMore (clear : Clear '*' false front) (back : Text) :
    expandMarkers (front ++ '*' :: back) = (do
      let most ← Draws.between 1 9
      expandMarkers (front ++ (Quantifier.toText { least := 0, most } ++ back))) := by
  have leaves := leavesEscapes_optionalWritten false front
  have other : '*' = '?' → false = true := fun same => absurd same (by decide)
  have star : optionalWritten false (front ++ '*' :: back) =
      optionalWritten false front ++ '*' :: optionalWritten false back := by
    rw [optionalWritten_append, free, optionalWritten_kept other, escapesNext_of_ne (by decide)]
  have expanded := expand_zeroOrMore (leaves.behind.trans free) (leaves.clear clear)
    (optionalWritten false back)
  simp only [expandMarkers, Marker.all, List.foldlM_cons, optional_expand_eq, pure_bind,
    optionalWritten_around free, star, expanded, bind_assoc]

end Free

/-! ## Whole expansions -/

/-- What is left to do after the markers depends on what they have made of the text only. -/
theorem exists_following :
    ∃ following : Text → Draws Text, ∀ text,
      expand text =
        expandMarkers (normalizeFixedCounts (stripDelimiters text)) >>= following :=
  ⟨_, fun text => expand_eq text⟩

/-- Whatever stands around it, a count in braces means the same as two equal bounds; behind an even
run of backslashes a `?` means the bounds 0 and 1; and there, if no earlier `*` is unescaped, a `*`
means the bounds 0 and a number that is drawn before anything else. The programs are the same ones,
so from every source they ask the same questions in the same order and have the same result. -/
theorem short_forms_mean_bounds (front back : Text) :
    (∀ count ≤ 1000,
      expand (front ++ ('{' :: Nat.toDigits 10 count ++ ['}'] ++ back)) =
        expand (front ++
          ('{' :: Nat.toDigits 10 count ++ ',' :: Nat.toDigits 10 count ++ ['}'] ++ back))) ∧
      (Even (escapeRun front) →
        expand (front ++ '?' :: back) = expand (front ++ (['{', '0', ',', '1', '}'] ++ back)) ∧
          (¬ Unescaped '*' front →
            expand (front ++ '*' :: back) = (do
              let most ← Draws.between 1 9
              expand
                (front ++ ('{' :: '0' :: ',' :: Nat.toDigits 10 most ++ ['}'] ++ back))))) := by
  obtain ⟨following, expanded⟩ := exists_following
  have fromZero := Quantifier.toText_of_digit (show Nat.toDigits 10 0 = ['0'] from rfl)
  simp only [← Quantifier.toText_zero_one, ← fromZero, expanded]
  refine ⟨fun count small => ?_, fun free => ⟨?_, fun clear => ?_⟩⟩
  · have equal := normalized_quantifier le_rfl small front back
    exact congrArg (expandMarkers · >>= following)
      ((normalized_count small front back).trans equal.symm)
  · have behind := normalized_front_behind free
    have marked : normalizeFixedCounts (stripDelimiters (front ++ '?' :: back)) =
      normalizeFixedCounts (withoutFront front) ++
        '?' :: normalizeFixedCounts (withoutBack back) := normalized_marker .optional front back
    rw [marked, normalized_quantifier (by decide) (by decide), expandMarkers_optional behind]
  · have behind := normalized_front_behind free
    have marked : normalizeFixedCounts (stripDelimiters (front ++ '*' :: back)) =
      normalizeFixedCounts (withoutFront front) ++
        '*' :: normalizeFixedCounts (withoutBack back) := normalized_marker .zeroOrMore front back
    have bounds := fun most => normalized_quantifier (Nat.zero_le most) (by decide) front back
    simp only [marked, bounds, expandMarkers_zeroOrMore behind (normalized_front_clear clear),
      bind_assoc]

/-- Behind an escaped star and an escaped backslash, and in front of a digit and a loose brace. -/
theorem short_forms_mean_bounds_loose :
    let front := "/^\\*a\\\\".toList
    let back := ['1', '}', '?']
    2 ≤ 1000 ∧ Even (escapeRun front) ∧ ¬ Unescaped '*' front ∧
      expand (front ++ (['{', '2', '}'] ++ back)) =
        expand (front ++ (['{', '2', ',', '2', '}'] ++ back)) ∧
      expand (front ++ '?' :: back) = expand (front ++ (['{', '0', ',', '1', '}'] ++ back)) ∧
      expand (front ++ '*' :: back) = (do
        let most ← Draws.between 1 9
        expand (front ++ ('{' :: '0' :: ',' :: Nat.toDigits 10 most ++ ['}'] ++ back))) := by
  intro front back
  have free : Even (escapeRun front) := by decide
  have clear : ¬ Unescaped '*' front :=
    clear_iff_not_unescaped.mp (by simp [front, Clear, escapesNext])
  have forms := short_forms_mean_bounds front back
  exact ⟨by decide, free, clear, forms.1 2 (by decide), (forms.2 free).1, (forms.2 free).2 clear⟩

end RandomCodes.Pattern

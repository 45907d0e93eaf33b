import RandomCodes.Proofs.Pattern.EscapeParity
import RandomCodes.Proofs.Pattern.Replacement
/-!
# Stages that leave nothing of their kind

The words that a pass writes are not read by it again. For fixed counts, markers and alternations
nothing is lost by that: no construct of the kind begins in a word, and none begins at a kept
character, since what follows it either is kept as well or was a construct of the text already. So
the stage has nothing to do in its own result.
-/

namespace RandomCodes.Pattern

variable {text result : Text}

/-- A count begins with a brace, which is nowhere else in it, and ends with another. -/
theorem CountSpan.exists_eq
    {span : Text} {count : Nat} (construct : CountSpan span count) :
    ∃ others, span = '{' :: others ∧ '{' ∉ others := by
  obtain ⟨numeral⟩ := construct
  refine ⟨numeral.digits ++ ['}'], by rw [fixedText, List.cons_append], ?_⟩
  intro member
  rcases List.mem_append.mp member with digit | close
  · exact numeral.ne_of_mem digit (by decide) rfl
  · exact absurd close (by decide)

theorem not_begins_count_of_head?_ne {rest : Text} (other : rest.head? ≠ some '{') :
    ¬ Grammar.Begins CountSpan rest := by
  intro begins
  obtain ⟨span, count, construct, behind, rfl⟩ := begins
  obtain ⟨others, rfl, _⟩ := construct.exists_eq
  exact other rfl

/-- The two bounds that a count is written out with. -/
theorem exists_exactly_toText_eq (count : Nat) :
    ∃ bounds : Bounds, (Quantifier.exactly count).toText = bounds.text := by
  have small : min count Quantifier.greatestCount ≤ 1000 := Nat.min_le_right _ _
  exact ⟨Bounds.ofNat _ _ (Nat.le_refl _) small, (Bounds.text_ofNat _ small).symm⟩

/-- Bounds written out begin no count, and neither does any place inside them. -/
theorem Bounds.not_begins_count
    (bounds : Bounds) {tail : Text} (nonempty : tail ≠ []) (suffix : tail <:+ bounds.text)
    (rest : Text) : ¬ Grammar.Begins CountSpan (tail ++ rest) := by
  obtain ⟨front, cut⟩ := suffix
  cases front with
  | nil =>
      rw [List.nil_append] at cut
      rw [cut]
      exact (fixedCount_accepts.eq_none_iff (Cursor.start (bounds.text ++ rest))).mp
        (bounds.fixedCount_eq_none 0 rest)
  | cons first front =>
      obtain ⟨head, others, rfl⟩ := List.exists_cons_of_ne_nil nonempty
      have inside : head ∈ bounds.text.tail := by simp [← cut]
      apply not_begins_count_of_head?_ne
      simpa using bounds.ne_brace_of_mem_tail inside

theorem counts_absent_normalizeFixedCounts (text : Text) :
    Grammar.Absent CountSpan (normalizeFixedCounts text) := by
  apply (becomes_normalizeFixedCounts text).absent countSpan_proper.not_begins_nil
  · intro symbol text result _ outside becomes begins
    obtain ⟨span, count, construct, behind, written⟩ := begins
    obtain ⟨others, rfl, noBrace⟩ := construct.exists_eq
    obtain ⟨rfl, cut⟩ := List.cons.inj written
    rcases becomes.of_append cut.symm with whole | interrupted
    · obtain ⟨later, rfl, _⟩ := whole
      exact outside ⟨_, count, construct, later, rfl⟩
    · -- A word begins with a brace, and there is none behind the first character of a count.
      obtain ⟨kept, rest, _, _, _, _, laterResult, rfl, nonempty, _, _, rfl, word⟩ := interrupted
      obtain ⟨first, rest, rfl⟩ := List.exists_cons_of_ne_nil nonempty
      obtain ⟨rfl, _⟩ := List.cons.inj word
      exact noBrace (List.mem_append_right kept List.mem_cons_self)
  · intro span count word text result _ _ written _ behind
    obtain ⟨bounds, same⟩ := exists_exactly_toText_eq count
    rw [written, same]
    exact behind.append fun tail nonempty suffix => bounds.not_begins_count nonempty suffix result

theorem normalizeFixedCounts_of_absent (absent : Grammar.Absent CountSpan text) :
    (pure (normalizeFixedCounts text) : Draws Text) = pure text := by
  rw [normalizeFixedCounts, pure_render]
  exact (composes_fixedCounts text).render_eq_pure absent _

theorem Marker.clear_of_canReturn_expand
    {marker other : Marker} (before : other = marker ∨ Clear other.symbol false text)
    (returned : (marker.expand text).CanReturn result) : Clear other.symbol false result := by
  have parts : ∀ word, (Quantifier.toText <$> marker.quantifier).CanReturn word →
      ∀ symbol ∈ word, symbol.isDigit ∨ symbol ∈ ['{', ',', '}'] := by
    intro word written
    obtain ⟨quantifier, _, rfl⟩ := (Draws.canReturn_map _ _ _).mp written
    exact fun symbol => Quantifier.mem_toText
  refine clear_of_canReturn ?_ ?_ ?_ (before.imp (congrArg Marker.symbol) id) returned
  · cases marker <;> decide
  · intro word written member
    exact absurd (parts word written _ member) (by decide)
  · intro word written member
    have impossible := parts word written _ member
    cases other <;> exact absurd impossible (by decide)

/-- After some markers have been expanded, no marker occurs unescaped but those that did before and
were not among them. -/
theorem clear_of_canReturn_foldlM
    {markers : List Marker} {other : Marker}
    (before : other ∈ markers ∨ Clear other.symbol false text)
    (returned :
      (markers.foldlM (fun text (marker : Marker) => marker.expand text) text).CanReturn result) :
    Clear other.symbol false result := by
  induction markers generalizing text with
  | nil =>
      rw [(Draws.canReturn_pure _ _).mp returned]
      exact before.resolve_left List.not_mem_nil
  | cons marker markers inductionHypothesis =>
      rw [List.foldlM_cons] at returned
      obtain ⟨between, first, later⟩ := (Draws.canReturn_bind _ _ _).mp returned
      refine inductionHypothesis ?_ later
      rcases before with among | clear
      · rcases List.mem_cons.mp among with same | among
        · exact .inr (Marker.clear_of_canReturn_expand (.inl same) first)
        · exact .inl among
      · exact .inr (Marker.clear_of_canReturn_expand (.inr clear) first)

theorem clear_of_canReturn_expandMarkers
    (returned : (expandMarkers text).CanReturn result) (marker : Marker) :
    Clear marker.symbol false result := by
  refine clear_of_canReturn_foldlM (.inl ?_) returned
  cases marker <;> decide

theorem expandMarkers_of_clear (clear : ∀ marker : Marker, Clear marker.symbol false text) :
    expandMarkers text = pure text := by
  have kept : ∀ marker : Marker, marker.expand text = pure text :=
    fun marker => replaceUnescaped_of_clear (clear marker) _
  simp only [expandMarkers, Marker.all, List.foldlM_cons, List.foldlM_nil, kept, pure_bind]

theorem not_begins_alternation_of_head?_ne {rest : Text} (other : rest.head? ≠ some '(') :
    ¬ Grammar.Begins AlternationSpan rest := by
  intro begins
  obtain ⟨span, body, construct, behind, rfl⟩ := begins
  cases construct
  exact other rfl

theorem Alternation.free_iff {run : Text} :
    (∀ symbol ∈ run, symbol ∉ stops) ↔ ')' ∉ run ∧ '\n' ∉ run := by
  simp only [stops, List.mem_cons, List.not_mem_nil, or_false, not_or]
  constructor
  · intro free
    exact ⟨fun member => (free _ member).1 rfl, fun member => (free _ member).2 rfl⟩
  · intro free symbol member
    exact ⟨fun same => free.1 (same ▸ member), fun same => free.2 (same ▸ member)⟩

/-- If the first stop in the result is a parenthesis, so it is in the text: a character is kept, and
an alternation has one itself. -/
theorem Becomes.closes
    {Word : Text → Text → Prop} (becomes : Becomes AlternationSpan Word text result)
    {run behind : Text} (free : ∀ symbol ∈ run, symbol ∉ Alternation.stops)
    (cut : result = run ++ ')' :: behind) :
    ∃ body later, (∀ symbol ∈ body, symbol ∉ Alternation.stops) ∧ text = body ++ ')' :: later := by
  induction becomes generalizing run with
  | nil => simp at cut
  | kept symbol _ _ inductionHypothesis =>
      cases run with
      | nil =>
          obtain ⟨rfl, _⟩ := List.cons.inj cut
          exact ⟨[], _, by simp, rfl⟩
      | cons first run =>
          obtain ⟨rfl, others⟩ := List.cons.inj cut
          obtain ⟨noStop, free⟩ := List.forall_mem_cons.mp free
          obtain ⟨body, later, bodyFree, rfl⟩ := inductionHypothesis free others
          exact ⟨symbol :: body, later, List.forall_mem_cons.mpr ⟨noStop, bodyFree⟩, rfl⟩
  | @word _ _ later _ inner construct _ _ =>
      obtain ⟨_, noClose, sameLine⟩ := construct
      have innerFree := Alternation.free_iff.mpr ⟨noClose, sameLine⟩
      exact ⟨'(' :: inner, later, List.forall_mem_cons.mpr ⟨by decide, innerFree⟩, by simp⟩

/-- The parentheses that open inside a body are closing ones in its branches. -/
theorem Alternation.noOpening_of_mem_branches
    {body branch : Text} (among : branch ∈ branches body) : '(' ∉ branch := by
  intro member
  obtain ⟨symbol, _, opening⟩ := List.mem_map.mp ((sublist_of_mem_split among).subset member)
  split at opening
  · cases opening
  · contradiction

theorem alternations_absent_of_canReturn (returned : (resolveAlternation text).CanReturn result) :
    Grammar.Absent AlternationSpan result := by
  apply (becomes_resolveAlternation returned).absent alternationSpan_proper.not_begins_nil
  · intro symbol text result _ outside becomes begins
    obtain ⟨span, body, construct, behind, written⟩ := begins
    obtain ⟨_, noClose, sameLine⟩ := construct
    rw [List.cons_append, List.append_assoc] at written
    obtain ⟨rfl, cut⟩ := List.cons.inj written
    have free := Alternation.free_iff.mpr ⟨noClose, sameLine⟩
    obtain ⟨inner, later, innerFree, rfl⟩ := becomes.closes free cut.symm
    obtain ⟨noClose, sameLine⟩ := Alternation.free_iff.mp innerFree
    exact outside ⟨_, inner, .body inner noClose sameLine, later, by simp⟩
  · intro span body word text result _ _ among _ behind
    apply behind.append
    intro tail nonempty suffix
    obtain ⟨head, others, rfl⟩ := List.exists_cons_of_ne_nil nonempty
    apply not_begins_alternation_of_head?_ne
    intro opening
    obtain rfl := Option.some.inj opening
    exact Alternation.noOpening_of_mem_branches among (suffix.subset List.mem_cons_self)

theorem resolveAlternation_of_absent (absent : Grammar.Absent AlternationSpan text) :
    resolveAlternation text = pure text :=
  (composes_alternations text).render_eq_pure absent _

/-- There is nothing left in the text that the stage is for: applied to it, from any source, the
stage gives it back and asks nothing. -/
structure Stage.Settles (stage : Stage) (Clean : Text → Prop) (text : Text) : Prop where
  clean : Clean text
  unchanged : ∀ {Other : Type} (other : Source Other) (start : Other),
    (stage.apply text).run other.recorded { state := start } = (text, { state := start })

theorem Stage.Settles.of_eq_pure
    {stage : Stage} {Clean : Text → Prop} (clean : Clean text) (kept : stage.apply text = pure text) :
    stage.Settles Clean text where
  clean := clean
  unchanged other start := by
    rw [kept]
    rfl

/-- From a lawful source, the stage for fixed counts leaves no fixed count, the stage for markers no
marker behind an even number of backslashes, and the stage for alternations no alternation; and none
of them changes its own result. -/
theorem stages_settle
    {State : Type} {source : Source State} (lawful : source.Lawful) (state : State) (text : Text) :
    Stage.normalizeFixedCounts.Settles (Grammar.Absent CountSpan)
        ((Stage.normalizeFixedCounts.apply text).run source state).1 ∧
      Stage.expandMarkers.Settles (fun result => ∀ marker : Marker, ¬ Unescaped marker.symbol result)
        ((Stage.expandMarkers.apply text).run source state).1 ∧
      Stage.resolveAlternation.Settles (Grammar.Absent AlternationSpan)
        ((Stage.resolveAlternation.apply text).run source state).1 := by
  refine ⟨?_, ?_, ?_⟩
  · have absent := counts_absent_normalizeFixedCounts text
    exact .of_eq_pure absent (normalizeFixedCounts_of_absent absent)
  · have clear := clear_of_canReturn_expandMarkers
      (Draws.canReturn_run lawful (expandMarkers text) state)
    exact .of_eq_pure (fun marker => clear_iff_not_unescaped.mp (clear marker))
      (expandMarkers_of_clear clear)
  · have absent := alternations_absent_of_canReturn
      (Draws.canReturn_run lawful (resolveAlternation text) state)
    exact .of_eq_pure absent (resolveAlternation_of_absent absent)

/-- A count in an open brace, a marker behind two backslashes and an alternation in another one. -/
theorem stages_settle_nested :
    let text := '{' :: '1' :: "{2}\\\\*((a|b)c)".toList
    let state : Script := { values := [1] }
    Script.source.Lawful ∧
      Stage.normalizeFixedCounts.Settles (Grammar.Absent CountSpan)
        ((Stage.normalizeFixedCounts.apply text).run Script.source state).1 ∧
      Stage.expandMarkers.Settles (fun result => ∀ marker : Marker, ¬ Unescaped marker.symbol result)
        ((Stage.expandMarkers.apply text).run Script.source state).1 ∧
      Stage.resolveAlternation.Settles (Grammar.Absent AlternationSpan)
        ((Stage.resolveAlternation.apply text).run Script.source state).1 :=
  ⟨Script.source_lawful, stages_settle Script.source_lawful { values := [1] } _⟩

end RandomCodes.Pattern

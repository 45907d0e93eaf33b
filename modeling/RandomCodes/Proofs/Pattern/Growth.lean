import RandomCodes.Proofs.Pattern.Passes
/-!
# How long an expansion can get

Each pass makes a construct longer by a factor that does not depend on the text. A count is written
twice, a marker becomes five characters, an atom is repeated at most as often as the greatest count
says, a range of three characters stands for at most seventy-five, and no other pass makes a text
longer. So no text of an expansion is longer than a fixed multiple of the pattern, whatever counts
are written in it.
-/

namespace RandomCodes.Pattern

variable {α : Type}

/-- All that can be made of a text is at most `factor` times as long. -/
def GrowsBy (factor : Nat) : (Text → Draws Text) → Prop :=
  Respects fun text result => result.length ≤ factor * text.length

theorem additive_length {factor : Nat} (positive : 1 ≤ factor) :
    Additive fun text result => result.length ≤ factor * text.length where
  nil := Nat.zero_le _
  symbol symbol := by
    simpa using positive
  append front back := by
    simp only [List.length_append, Nat.mul_add]
    omega

theorem GrowsBy.foldlM
    {rewrite : α → Text → Draws Text} {factor : α → Nat} {items : List α}
    (each : ∀ item ∈ items, GrowsBy (factor item) (rewrite item)) :
    GrowsBy (items.map factor).prod
      fun text => items.foldlM (fun text item => rewrite item text) text := by
  induction items with
  | nil =>
      intro text result returned
      obtain rfl := (Draws.canReturn_pure _ _).mp returned
      simp
  | cons item others inductionHypothesis =>
      intro text result returned
      simp only [List.foldlM_cons, Draws.canReturn_bind] at returned
      obtain ⟨between, first, later⟩ := returned
      have front := each item List.mem_cons_self text between first
      have back := inductionHypothesis (fun other member =>
        each other (List.mem_cons_of_mem item member)) between result later
      calc result.length ≤ (others.map factor).prod * between.length := back
        _ ≤ (others.map factor).prod * (factor item * text.length) :=
            Nat.mul_le_mul_left _ front
        _ = ((item :: others).map factor).prod * text.length := by
            rw [List.map_cons, List.prod_cons, Nat.mul_left_comm, Nat.mul_assoc]

theorem digitsValue_lt {digits : Text} (isDigit : ∀ symbol ∈ digits, symbol.isDigit) :
    Text.digitsValue digits < 10 ^ digits.length := by
  -- The digits read so far count too, so the bound is one for every value to go on from.
  suffices bound : ∀ value, digits.foldl
      (fun value digit => 10 * value + (digit.toNat - '0'.toNat)) value <
        (value + 1) * 10 ^ digits.length by
    have fromZero := bound 0
    rwa [Nat.zero_add, Nat.one_mul] at fromZero
  induction digits with
  | nil => simp
  | cons digit others inductionHypothesis =>
      intro value
      have small : digit.toNat - '0'.toNat ≤ 9 := by
        have last : '9'.toNat - '0'.toNat = 9 := by decide
        have bounds := Char.isDigit_iff_toNat.mp (isDigit digit List.mem_cons_self)
        omega
      have behind := inductionHypothesis
        (fun symbol member => isDigit symbol (List.mem_cons_of_mem digit member))
        (10 * value + (digit.toNat - '0'.toNat))
      rw [List.foldl_cons, List.length_cons, Nat.pow_succ]
      calc others.foldl _ (10 * value + (digit.toNat - '0'.toNat))
          < (10 * value + (digit.toNat - '0'.toNat) + 1) * 10 ^ others.length := behind
        _ ≤ ((value + 1) * 10) * 10 ^ others.length := Nat.mul_le_mul_right _ (by omega)
        _ = (value + 1) * (10 ^ others.length * 10) := by
            rw [Nat.mul_assoc, Nat.mul_comm 10]

/-- A number up to that of a numeral is written with no more digits. -/
theorem Numeral.length_decimal_le (numeral : Numeral) {number : Nat}
    (small : number ≤ numeral.value) :
    (Text.decimal number).length ≤ numeral.digits.length := by
  have positive : 0 < numeral.digits.length := List.length_pos_iff.mpr numeral.ne_nil
  apply (Nat.length_toDigits_le_iff (by decide) positive).mpr
  exact Nat.lt_of_le_of_lt small (digitsValue_lt numeral.isDigit)

theorem Quantifier.length_toText (quantifier : Quantifier) :
    quantifier.toText.length =
      (Text.decimal quantifier.least).length + (Text.decimal quantifier.most).length + 3 := by
  simp only [toText, List.cons_append, List.length_cons, List.length_append, List.length_nil]
  omega

theorem normalizeFixedCounts_growsBy : GrowsBy 2 fun text => pure (normalizeFixedCounts text) := by
  apply (additive_length (by decide)).respects_normalizeFixedCounts
  intro span value construct
  obtain ⟨count⟩ := construct
  have small : min (min count.value (UInt64.size - 1)) Quantifier.greatestCount ≤ count.value := by
    omega
  have digits := count.length_decimal_le small
  rw [Quantifier.length_toText]
  simp only [Quantifier.exactly, fixedText, List.cons_append, List.length_cons,
    List.length_append, List.length_nil]
  omega

namespace Marker

/-- The markers as they are written. -/
def symbols : List Char :=
  all.map symbol

/-- The length of a text with its markers written out: each counts five characters. -/
def fullLength (text : Text) : Nat :=
  text.length + 4 * text.countP (symbols.contains ·)

theorem fullLength_append (front back : Text) :
    fullLength (front ++ back) = fullLength front + fullLength back := by
  simp only [fullLength, List.length_append, List.countP_append]
  omega

theorem length_le_fullLength (text : Text) : text.length ≤ fullLength text :=
  Nat.le_add_right _ _

theorem fullLength_le (text : Text) : fullLength text ≤ 5 * text.length := by
  have markers : text.countP (symbols.contains ·) ≤ text.length := List.countP_le_length
  rw [fullLength]
  omega

/-- Without markers nothing is left to write out. -/
theorem fullLength_eq_length {text : Text} (unmarked : ∀ symbol ∈ text, symbol ∉ symbols) :
    fullLength text = text.length := by
  have markers : text.countP (symbols.contains ·) = 0 := by
    simpa [List.countP_eq_zero] using unmarked
  rw [fullLength, markers, Nat.mul_zero, Nat.add_zero]

theorem not_mem_toText {quantifier : Quantifier} :
    ∀ symbol ∈ quantifier.toText, symbol ∉ symbols := by
  have digits : ∀ other ∈ symbols, other.isDigit = false := forall_of_all (by decide)
  have frame : ∀ other ∈ symbols, other ∉ ['{', ',', '}'] := forall_of_all (by decide)
  intro symbol member marker
  rcases Quantifier.mem_toText member with digit | brace
  · rw [digits symbol marker] at digit
    cases digit
  · exact frame symbol marker brace

/-- What a marker stands for has bounds of one digit. -/
theorem length_toText_le
    {marker : Marker} {quantifier : Quantifier} (drawn : marker.quantifier.CanReturn quantifier) :
    quantifier.toText.length ≤ 5 := by
  have bounded : ∀ bound, (Draws.between 1 greatestDrawnBound).CanReturn bound → bound < 10 := by
    intro bound returned
    have most := ((Draws.canReturn_between (by decide) bound).mp returned).2
    exact Nat.lt_succ_of_le most
  have small : quantifier.least < 10 ∧ quantifier.most < 10 := by
    cases marker with
    | optional =>
        obtain rfl := (Draws.canReturn_pure _ _).mp drawn
        exact ⟨Nat.zero_lt_succ 9, Nat.lt_add_of_pos_left (Nat.zero_lt_succ 8)⟩
    | zeroOrMore =>
        obtain ⟨bound, returned, same⟩ := (Draws.canReturn_bind _ _ _).mp drawn
        obtain rfl := (Draws.canReturn_pure _ _).mp same
        exact ⟨Nat.zero_lt_succ 9, bounded bound returned⟩
    | oneOrMore =>
        obtain ⟨bound, returned, same⟩ := (Draws.canReturn_bind _ _ _).mp drawn
        obtain rfl := (Draws.canReturn_pure _ _).mp same
        exact ⟨Nat.lt_add_of_pos_left (Nat.zero_lt_succ 8), bounded bound returned⟩
  have digit : ∀ {number}, number < 10 → (Text.decimal number).length ≤ 1 := fun below =>
    (Nat.length_toDigits_le_iff (by decide) Nat.one_pos).mpr below
  have least := digit small.1
  have most := digit small.2
  rw [Quantifier.length_toText]
  omega

theorem expand_respects_fullLength (marker : Marker) :
    Respects (fun text result => fullLength result ≤ fullLength text) marker.expand := by
  have additive : Additive fun text result => fullLength result ≤ fullLength text := by
    refine ⟨Nat.le_refl _, fun _ => Nat.le_refl _, fun front back => ?_⟩
    rw [fullLength_append, fullLength_append]
    exact Nat.add_le_add front back
  apply additive.respects_replaceUnescaped
  intro word written
  obtain ⟨quantifier, drawn, rfl⟩ := (Draws.canReturn_map _ _ _).mp written
  have wide : fullLength [marker.symbol] = 5 := by cases marker <;> decide
  rw [wide, fullLength_eq_length not_mem_toText]
  exact length_toText_le drawn

end Marker

theorem expandMarkers_growsBy : GrowsBy 5 expandMarkers := by
  have widths : Respects (fun text result => Marker.fullLength result ≤ Marker.fullLength text)
      expandMarkers := by
    apply Respects.foldlM
    · exact fun _ => Nat.le_refl _
    · exact fun first second => Nat.le_trans second first
    · exact fun marker _ => marker.expand_respects_fullLength
  intro text result returned
  calc result.length ≤ Marker.fullLength result := Marker.length_le_fullLength result
    _ ≤ Marker.fullLength text := widths text result returned
    _ ≤ 5 * text.length := Marker.fullLength_le text

/-- No more than a thousand copies are drawn. -/
theorem QuantifierSpan.pick_le
    {bounds : Text} {quantifier : Quantifier} (bounded : QuantifierSpan bounds quantifier)
    {count : Nat} (picked : quantifier.pick.CanReturn count) :
    count ≤ 1000 := by
  obtain ⟨answer, permitted, same⟩ := picked
  obtain rfl := (Draws.canReturn_done _ _).mp same
  cases bounded with
  | numerals least most ordered =>
      simp only [Call.Permits] at permitted
      omega

theorem AtomKind.repeatAll_growsBy (kind : AtomKind) : GrowsBy 1000 kind.repeatAll := by
  apply (additive_length (by decide)).respects_repeatAll
  intro span repetition construct count picked
  obtain ⟨bounds, bounded, rfl⟩ := AtomKind.span_eq construct
  have few : count ≤ 1000 := bounded.pick_le picked
  rw [List.length_flatten, List.map_replicate, List.sum_replicate_nat, List.length_append]
  exact Nat.mul_le_mul few (Nat.le_add_right _ _)

theorem repeatQuantified_growsBy : GrowsBy (1000 ^ 3) repeatQuantified := by
  have each : ∀ kind ∈ AtomKind.all, GrowsBy ((fun _ => 1000) kind) kind.repeatAll :=
    fun kind _ => kind.repeatAll_growsBy
  exact GrowsBy.foldlM each

theorem resolveAlternation_growsBy : GrowsBy 1 resolveAlternation := by
  apply (additive_length (by decide)).respects_resolveAlternation
  intro span body construct branch member
  cases construct
  have shorter := (sublist_of_mem_split member).length_le
  rw [List.length_map] at shorter
  simp only [List.length_cons, List.length_append]
  omega

namespace CharacterClass

theorem length_charactersBetween_le (low high : Char) :
    (charactersBetween low high).length ≤ high.toNat + 1 - low.toNat := by
  apply Nat.le_trans (List.length_filterMap_le _ _)
  exact Nat.le_of_eq List.length_range'

/-- A range has at most as many members as there are codes from the first digit to the last
lower-case letter. -/
theorem length_members_le
    {span : Text} {entry : Element} (construct : ElementSpan span entry) :
    entry.members.length ≤ 25 * span.length := by
  cases construct with
  | literal symbol => exact Nat.le_add_left 1 24
  | range low high lowWord highWord =>
      have codes : 'z'.toNat + 1 - '0'.toNat = 75 := by decide
      have lower : '0'.toNat ≤ low.toNat := (isWord_bounds lowWord).1
      have upper : high.toNat ≤ 'z'.toNat := (isWord_bounds highWord).2
      have few := length_charactersBetween_le low high
      simp only [Element.members, List.length_cons, List.length_nil]
      omega

theorem length_spellOut_le (body : Text) : (spellOut body).length ≤ 25 * body.length + 2 := by
  have members := (composes_elements body).length_flatMap_le fun _ _ => length_members_le
  rw [← elements_eq] at members
  simp only [spellOut, List.length_cons, List.length_append, List.length_nil]
  omega

end CharacterClass

theorem expandClassRanges_growsBy : GrowsBy 25 fun text => pure (expandClassRanges text) := by
  apply (additive_length (by decide)).respects_expandClassRanges
  intro span body construct
  cases construct
  have spelled := CharacterClass.length_spellOut_le body
  simp only [List.length_cons, List.length_append, List.length_nil]
  omega

theorem resolveClasses_growsBy : GrowsBy 1 resolveClasses := by
  apply (additive_length (by decide)).respects_resolveClasses
  intro span body construct member _
  have nonempty := classSpan_proper span body construct
  rw [Nat.one_mul]
  exact List.length_pos_iff.mpr nonempty

theorem resolveShorthands_growsBy : GrowsBy 1 resolveShorthands := by
  have each : ∀ shorthand ∈ Shorthand.all, GrowsBy ((fun _ => 1) shorthand) shorthand.resolve := by
    intro shorthand _
    apply (additive_length (Nat.le_refl 1)).respects_resolve
    intro symbol _
    simp
  exact GrowsBy.foldlM each

theorem resolveWildcards_growsBy : GrowsBy 1 resolveWildcards := by
  apply (additive_length (by decide)).respects_resolveWildcards
  intro symbol _
  simp

theorem growsBy_of_sublist
    {function : Text → Text} (shorter : ∀ text, (function text).Sublist text) :
    GrowsBy 1 fun text => pure (function text) := by
  apply respects_pure
  intro text
  rw [Nat.one_mul]
  exact (shorter text).length_le

/-! ## Stages -/

namespace Stage

/-- By how much a stage can make a text longer. -/
def growth : Stage → Nat
  | normalizeFixedCounts => 2
  | expandMarkers => 5
  | repeatQuantified => 1000 ^ 3
  | expandClassRanges => 25
  | _ => 1

theorem one_le_growth (stage : Stage) : 1 ≤ stage.growth := by
  cases stage <;> decide

theorem apply_growsBy (stage : Stage) : GrowsBy stage.growth stage.apply := by
  cases stage with
  | stripDelimiters => exact growsBy_of_sublist sublist_stripDelimiters
  | normalizeFixedCounts => exact normalizeFixedCounts_growsBy
  | expandMarkers => exact expandMarkers_growsBy
  | repeatQuantified => exact repeatQuantified_growsBy
  | resolveAlternation => exact resolveAlternation_growsBy
  | expandClassRanges => exact expandClassRanges_growsBy
  | resolveClasses => exact resolveClasses_growsBy
  | resolveShorthands => exact resolveShorthands_growsBy
  | resolveWildcards => exact resolveWildcards_growsBy
  | stripEscapes => exact growsBy_of_sublist sublist_stripEscapes

theorem one_le_prod_growth (stages : List Stage) : 1 ≤ (stages.map growth).prod := by
  induction stages with
  | nil => exact Nat.le_refl 1
  | cons stage others inductionHypothesis =>
      rw [List.map_cons, List.prod_cons]
      exact Nat.mul_le_mul stage.one_le_growth inductionHypothesis

/-- The stages up to any one of them make a text no longer than all of them can. -/
theorem prod_growth_le
    {before after : List Stage} (split : before ++ after = all) :
    (before.map growth).prod ≤ 250 * 1000 ^ 3 := by
  have whole : ((before ++ after).map growth).prod = 250 * 1000 ^ 3 := by
    rw [split]
    decide
  rw [List.map_append, List.prod_append] at whole
  rw [← whole]
  exact Nat.le_mul_of_pos_right _ (one_le_prod_growth after)

end Stage

/-- From a lawful source, a pass that repeats atoms makes a text at most a thousand times as long,
and whichever stages of an expansion have run, their text is at most a fixed multiple of the
pattern. -/
theorem length_run_le
    {State : Type} {source : Source State} (lawful : source.Lawful) :
    (∀ (kind : AtomKind) (text : Text) (state : State),
      ((kind.repeatAll text).run source state).1.length ≤ 1000 * text.length) ∧
    (∀ (pattern : Text) (state : State) (before after : List Stage),
      before ++ after = Stage.all →
      ((Stage.applyAll before pattern).run source state).1.length ≤
          250 * 1000 ^ 3 * pattern.length ∧
        (expand pattern).run source state =
          (Stage.applyAll after ((Stage.applyAll before pattern).run source state).1).run source
            ((Stage.applyAll before pattern).run source state).2) ∧
    ∀ (pattern : Text) (state : State),
      ((expand pattern).run source state).1.length ≤ 250 * 1000 ^ 3 * pattern.length := by
  have between : ∀ (pattern : Text) (state : State) (before after : List Stage),
      before ++ after = Stage.all →
      ((Stage.applyAll before pattern).run source state).1.length ≤
        250 * 1000 ^ 3 * pattern.length := by
    intro pattern state before after split
    have grows : GrowsBy (before.map Stage.growth).prod (Stage.applyAll before) :=
      GrowsBy.foldlM fun stage _ => stage.apply_growsBy
    exact Nat.le_trans (grows pattern _ (Draws.canReturn_run lawful _ state))
      (Nat.mul_le_mul_right _ (Stage.prod_growth_le split))
  refine ⟨?_, ?_, ?_⟩
  · intro kind text state
    exact kind.repeatAll_growsBy text _ (Draws.canReturn_run lawful _ state)
  · intro pattern state before after split
    refine ⟨between pattern state before after split, ?_⟩
    rw [expand, ← split, ← Draws.run_bind]
    exact congrArg (Draws.run source · state) (Stage.applyAll_append before after pattern)
  · intro pattern state
    exact between pattern state Stage.all [] (List.append_nil _)

/-- A count beyond 64 bits around two others. -/
theorem length_run_le_nested_counts :
    ((expand "(([a-f]{3}b){2,7}){18446744073709551616}".toList).run Script.source
        { values := [5, 1000] }).1.length ≤
      250 * 1000 ^ 3 * "(([a-f]{3}b){2,7}){18446744073709551616}".toList.length :=
  (length_run_le Script.source_lawful).2.2 _ _

end RandomCodes.Pattern

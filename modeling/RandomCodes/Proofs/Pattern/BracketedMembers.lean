import RandomCodes.Proofs.Pattern.LastClass
/-!
# Characters between brackets

No stage but those for classes looks at brackets, so what is written between them keeps its meaning:
quantifiers and alternations inside are resolved before a member is chosen, and a dot that is chosen
is a wildcard. Which characters are chosen from is therefore decided by what the earlier stages make
of the whole text.
-/

namespace RandomCodes.Pattern

theorem forall₂_shows_singleton (symbol : Char) (result : Text) :
    List.Forall₂ Shows [symbol] result ↔ ∃ shown, Shows symbol shown ∧ result = [shown] := by
  simp [List.forall₂_cons_left_iff, List.forall₂_nil_left_iff]

/-- The text is a class of some of the members, without the dot. -/
def ChoosesAmong (members text : Text) : Prop :=
  ∃ kept, text = bracketed kept ∧ kept ≠ [] ∧ ∀ symbol ∈ kept, symbol ∈ members ∧ symbol ≠ '.'

/-- Whatever a lawful source answers, the brackets are expanded to one of the characters that stand
between them. -/
def AlwaysChooses (members : Text) : Prop :=
  ∀ (State : Type) (source : Source State), source.Lawful → ∀ state,
    ∃ symbol ∈ members, ((expand (bracketed members)).run source state).1 = [symbol]

theorem alwaysChooses_iff_forall_canReturn (members : Text) :
    AlwaysChooses members ↔ ∀ text, (expandBeforeClasses (bracketed members)).CanReturn text →
      ∀ result, (expandFromClasses text).CanReturn result →
        ∃ symbol ∈ members, result = [symbol] := by
  constructor
  · intro always text before result after
    have returned : (expand (bracketed members)).CanReturn result := by
      rw [expand_eq_beforeClasses, Draws.canReturn_bind]
      exact ⟨text, before, after⟩
    obtain ⟨answers, run, _⟩ := Replay.exists_run_eq_of_canReturn returned
    have chosen := always (List Nat) Replay.source Replay.source_permits answers
    rwa [run] at chosen
  · intro always State source lawful state
    have returned := Draws.canReturn_run lawful (expand (bracketed members)) state
    rw [expand_eq_beforeClasses, Draws.canReturn_bind, ← expand_eq_beforeClasses] at returned
    obtain ⟨text, before, after⟩ := returned
    exact always text before _ after

section Members

variable {members : Text} (plain : ∀ symbol ∈ members, symbol ∉ "[]\\-".toList)
include plain

theorem flat_of_plain : Flat members := by
  have subset : ∀ symbol ∈ [']', '-', '\\'], symbol ∈ "[]\\-".toList := forall_of_all (by decide)
  exact fun symbol member sealing => plain symbol member (subset symbol sealing)

theorem noOpening_of_plain : '[' ∉ members :=
  fun member => plain '[' member (by decide)

theorem exists_eq_singleton_of_choosesAmong
    {text : Text} (among : ChoosesAmong members text) {result : Text}
    (returned : (expandFromClasses text).CanReturn result) :
    ∃ symbol ∈ members, result = [symbol] := by
  obtain ⟨kept, rfl, nonempty, inside⟩ := among
  have flat : Flat kept := fun symbol member => flat_of_plain plain symbol (inside symbol member).1
  rw [← List.nil_append (bracketed kept),
    canReturn_expandFromClasses (by simp) (by simp) flat nonempty] at returned
  obtain ⟨symbol, member, shows⟩ := returned
  obtain ⟨shown, same, rfl⟩ := (forall₂_shows_singleton symbol result).mp shows
  have own := inside symbol member
  exact ⟨symbol, own.1, by rw [(shows_of_ne own.2 shown).mp same]⟩

/-- A text without a class is shown as long as it is, so it would have to be the bracket alone. -/
theorem not_forall_shows_of_append_closing
    (inside : Text) (always : ∀ result, List.Forall₂ Shows (inside ++ [']']) result →
      ∃ symbol ∈ members, result = [symbol]) : False := by
  obtain ⟨front, shows⟩ := exists_forall₂ exists_shows inside
  have closing : Shows ']' ']' := (shows_of_ne (by decide) _).mpr rfl
  have whole := List.rel_append shows (.cons closing .nil)
  obtain ⟨symbol, member, same⟩ := always (front ++ [']']) whole
  have last : symbol = ']' := by
    have ends := congrArg List.getLast? same
    simpa using ends.symm
  exact plain symbol member (last ▸ by decide)

theorem forall_mem_of_forall_shows
    {front body : Text} (nonempty : body ≠ [])
    (always : ∀ symbol ∈ body, ∀ result, List.Forall₂ Shows (front ++ [symbol]) result →
      ∃ other ∈ members, result = [other]) :
    front = [] ∧ ∀ symbol ∈ body, symbol ∈ members ∧ symbol ≠ '.' := by
  have empty : front = [] := by
    obtain ⟨symbol, others, rfl⟩ := List.exists_cons_of_ne_nil nonempty
    obtain ⟨result, shows⟩ := exists_forall₂ exists_shows (front ++ [symbol])
    obtain ⟨other, _, rfl⟩ := always symbol List.mem_cons_self result shows
    have length := shows.length_eq
    simpa using length
  subst empty
  have shownMember : ∀ symbol ∈ body, ∀ shown, Shows symbol shown → shown ∈ members := by
    intro symbol member shown shows
    obtain ⟨other, otherMember, same⟩ := always symbol member [shown] (.cons shows .nil)
    rwa [(List.cons.inj same).1]
  refine ⟨rfl, fun symbol member => ?_⟩
  have noDot : symbol ≠ '.' := by
    rintro rfl
    -- A wildcard can be an opening bracket, which is none of the members.
    have allowed : Wildcard.Allows '[' := by unfold Wildcard.Allows; decide
    exact noOpening_of_plain plain (shownMember '.' member '[' ((shows_dot '[').mpr allowed))
  exact ⟨shownMember symbol member symbol ((shows_of_ne noDot symbol).mpr rfl), noDot⟩

/-- From any other closed text something can come that is no member. -/
theorem choosesAmong_of_forall
    {text : Text} (closed : Closed text)
    (always : ∀ result, (expandFromClasses text).CanReturn result →
      ∃ symbol ∈ members, result = [symbol]) :
    ChoosesAmong members text := by
  have noEscape := closed.noEscape
  obtain ⟨inside, flat, rfl⟩ := closed
  have ends : chooseMembers (inside ++ [']']) ≠ pure (inside ++ [']']) := by
    intro kept
    refine not_forall_shows_of_append_closing plain inside fun result shows => always result ?_
    exact (canReturn_expandFromClasses_of_chooseMembers kept noEscape result).mpr shows
  by_cases opened : '[' ∈ inside
  · obtain ⟨front, body, rfl, free⟩ := List.eq_append_cons_of_mem opened
    have parts := flat_append_iff.mp flat
    have bodyFlat := (flat_cons_iff.mp parts.2).2
    have joined : (front ++ '[' :: body) ++ [']'] = front ++ bracketed body := by
      simp [bracketed]
    rw [joined] at ends always ⊢
    have nonempty : body ≠ [] := by
      rintro rfl
      exact ends (by rw [chooseMembers_bracketed free bodyFlat, if_pos rfl]; rfl)
    have returned := canReturn_expandFromClasses free parts.1.noEscape bodyFlat nonempty
    have chosen := forall_mem_of_forall_shows plain nonempty fun symbol member result shows =>
      always result ((returned result).mpr ⟨symbol, member, shows⟩)
    rw [chosen.1]
    exact ⟨body, rfl, nonempty, chosen.2⟩
  · have free : '[' ∉ inside ++ [']'] := by simp [opened]
    exact absurd (chooseMembers_of_noOpening free) ends

/-- The brackets are always expanded to one of the characters between them if and only if the stages
in front of those for classes always leave a class of such characters, without the dot. -/
theorem alwaysChooses_iff :
    AlwaysChooses members ↔ ∀ text, (expandBeforeClasses (bracketed members)).CanReturn text →
      ChoosesAmong members text := by
  have closed : Closed (bracketed members) :=
    ⟨'[' :: members, flat_cons_iff.mpr ⟨by decide, flat_of_plain plain⟩, rfl⟩
  rw [alwaysChooses_iff_forall_canReturn]
  refine forall₂_congr fun text before => ⟨fun always => ?_, fun among result => ?_⟩
  · exact choosesAmong_of_forall plain
      ((expandBeforeClasses_retains _ text before).closed closed) always
  · exact exists_eq_singleton_of_choosesAmong plain among

end Members

theorem suffix_bracketed {inside rest : Text} (suffix : rest <:+ bracketed inside) :
    rest = bracketed inside ∨ rest = [] ∨ ∃ inner, inner <:+ inside ∧ rest = inner ++ [']'] := by
  rcases List.suffix_cons_iff.mp suffix with whole | suffix
  · exact .inl whole
  · rcases List.suffix_concat_iff.mp suffix with empty | ⟨inner, same, suffix⟩
    · exact .inr (.inl empty)
    · exact .inr (.inr ⟨inner, suffix, same⟩)

/-- What is read in a text between brackets from somewhere behind the opening one is in the text, if
it does not end with the closing bracket. -/
theorem exists_suffix_of_suffix_bracketed
    {inside front behind : Text} {first last : Char} (opening : first ≠ '[') (closing : last ≠ ']')
    (suffix : first :: (front ++ last :: behind) <:+ bracketed inside) :
    ∃ rest, first :: (front ++ last :: rest) <:+ inside := by
  rcases suffix_bracketed suffix with whole | nothing | ⟨inner, ending, same⟩
  · exact absurd (List.cons.inj whole).1 opening
  · cases nothing
  · have cut : inner ++ [']'] = (first :: front) ++ last :: behind := same.symm
    obtain ⟨rest, written, _⟩ := of_append_singleton_eq closing cut
    rw [written] at ending
    exact ⟨rest, ending⟩

/-- Brackets around a text add no construct that begins and ends with other characters. -/
theorem absent_bracketed
    {α : Type} {grammar : Grammar α}
    (frame : ∀ span value, grammar span value →
      ∃ first front last, span = first :: (front ++ [last]) ∧ first ≠ '[' ∧ last ≠ ']')
    {members : Text} (absent : grammar.Absent members) : grammar.Absent (bracketed members) := by
  intro rest suffix begins
  obtain ⟨span, value, construct, behind, rfl⟩ := begins
  obtain ⟨first, front, last, rfl, opening, closing⟩ := frame span value construct
  rw [List.cons_append, List.append_assoc] at suffix
  obtain ⟨later, inside⟩ := exists_suffix_of_suffix_bracketed opening closing suffix
  refine absent _ inside ⟨_, value, construct, later, ?_⟩
  rw [List.cons_append, List.append_assoc]
  rfl

namespace Inert

variable {members : Text}

theorem counts_absent_bracketed (inert : Inert members) :
    Grammar.Absent CountSpan (bracketed members) := by
  apply absent_bracketed _ inert.counts_absent
  intro span value construct
  obtain ⟨count⟩ := construct
  exact ⟨'{', count.digits, '}', rfl, by decide, by decide⟩

theorem quantifiers_absent_bracketed (inert : Inert members) :
    Grammar.Absent QuantifierSpan (bracketed members) := by
  apply absent_bracketed _ inert.quantifiers_absent
  intro span value construct
  obtain ⟨least, most, _⟩ := construct
  exact ⟨'{', least.digits ++ ',' :: most.digits, '}', by simp [quantifierText], by decide, by decide⟩

theorem alternations_absent_bracketed (inert : Inert members) :
    Grammar.Absent AlternationSpan (bracketed members) := by
  apply absent_bracketed _ inert.alternations_absent
  intro span body construct
  cases construct
  exact ⟨'(', body, ')', rfl, by decide, by decide⟩

end Inert

theorem choosesAmong_bracketed_iff {members : Text} (nonempty : members ≠ []) :
    ChoosesAmong members (bracketed members) ↔ '.' ∉ members := by
  constructor
  · rintro ⟨kept, same, _, inside⟩ dot
    obtain rfl := List.append_cancel_right (List.cons.inj same).2
    exact (inside '.' dot).2 rfl
  · intro noDot
    exact ⟨members, rfl, nonempty, fun symbol member => ⟨member, fun same => noDot (same ▸ member)⟩⟩

section Members

variable {members : Text} (plain : ∀ symbol ∈ members, symbol ∉ "[]\\-".toList)
include plain

theorem marker_expand_bracketed
    {marker : Marker} (unmarked : marker.symbol ∉ members) :
    marker.expand (bracketed members) = pure (bracketed members) := by
  have noEscape : '\\' ∉ bracketed members := by
    have inside : '\\' ∉ members := (flat_of_plain plain).noEscape
    simp [bracketed, inside]
  have absent : marker.symbol ∉ bracketed members := by
    have brackets : marker.symbol ≠ '[' ∧ marker.symbol ≠ ']' := by cases marker <;> decide
    simp [bracketed, brackets, unmarked]
  rw [Marker.expand, replaceUnescaped_eq_rewrite _ _ noEscape]
  apply Reader.rewrite_eq_pure
  exact Reader.refuses_of_not_mem (fun _ rest other => characterReader_of_ne other rest) absent

theorem expandBeforeClasses_bracketed
    (inert : Inert members) (unmarked : ∀ marker : Marker, marker.symbol ∉ members) :
    expandBeforeClasses (bracketed members) = pure (bracketed members) := by
  have undelimited : Undelimited (bracketed members) := by
    refine ⟨⟨?_, ?_⟩, ⟨?_, ?_⟩⟩ <;> simp [bracketed, List.getLast?_cons]
  have counts : fixedCountPass (bracketed members) = pure (bracketed members) := by
    rw [fixedCountPass, normalizeFixedCounts, pure_render]
    exact (composes_fixedCounts _).render_eq_pure inert.counts_absent_bracketed _
  have markers : expandMarkers (bracketed members) = pure (bracketed members) := by
    simp only [expandMarkers, Marker.all, List.foldlM_cons, List.foldlM_nil,
      marker_expand_bracketed plain (unmarked _), pure_bind]
  have repeated : repeatQuantified (bracketed members) = pure (bracketed members) :=
    repeatQuantified_eq_pure inert.quantifiers_absent_bracketed
  have alternations : resolveAlternation (bracketed members) = pure (bracketed members) :=
    (composes_alternations _).render_eq_pure inert.alternations_absent_bracketed _
  rw [expandBeforeClasses_eq, stripDelimiters_eq_self undelimited, counts, pure_bind, markers,
    pure_bind, repeated, pure_bind, alternations]

theorem exists_shown_of_inert
    (nonempty : members ≠ []) (inert : Inert members)
    (unmarked : ∀ marker : Marker, marker.symbol ∉ members) {result : Text}
    (returned : (expand (bracketed members)).CanReturn result) :
    ∃ shown, result = [shown] ∧ (shown ∈ members ∨ '.' ∈ members ∧ Wildcard.Allows shown) := by
  rw [expand_eq_beforeClasses, expandBeforeClasses_bracketed plain inert unmarked, pure_bind,
    ← List.nil_append (bracketed members),
    canReturn_expandFromClasses (by simp) (by simp) (flat_of_plain plain) nonempty] at returned
  obtain ⟨symbol, member, shows⟩ := returned
  obtain ⟨shown, same, rfl⟩ := (forall₂_shows_singleton symbol result).mp shows
  refine ⟨shown, rfl, ?_⟩
  by_cases dot : symbol = '.'
  · subst dot
    exact .inr ⟨member, (shows_dot shown).mp same⟩
  · rw [(shows_of_ne dot shown).mp same]
    exact .inl member

end Members

/-! ## What the brackets are expanded to -/

/-- The brackets are always expanded to one of the characters between them exactly if the stages in
front of those for classes always leave a class of such characters, without the dot. Where no marker
stands between the brackets and no construct begins there, a single character is always shown, which
is always one of those between the brackets exactly if no dot is. -/
theorem expand_bracketed_choice
    {members : Text} (nonempty : members ≠ [])
    (plain : ∀ symbol ∈ members, symbol ∉ "[]\\-".toList) :
    (AlwaysChooses members ↔ ∀ text, (expandBeforeClasses (bracketed members)).CanReturn text →
        ChoosesAmong members text) ∧
      (Inert members → (∀ marker : Marker, marker.symbol ∉ members) →
        (AlwaysChooses members ↔ '.' ∉ members) ∧
          ∀ (State : Type) (source : Source State), source.Lawful → ∀ state,
            ∃ shown, ((expand (bracketed members)).run source state).1 = [shown] ∧
              (shown ∈ members ∨ '.' ∈ members ∧ Wildcard.Allows shown)) := by
  refine ⟨alwaysChooses_iff plain, fun inert unmarked => ⟨?_, ?_⟩⟩
  · rw [alwaysChooses_iff plain, expandBeforeClasses_bracketed plain inert unmarked]
    simp only [Draws.canReturn_pure, forall_eq]
    exact choosesAmong_bracketed_iff nonempty
  · intro State source lawful state
    exact exists_shown_of_inert plain nonempty inert unmarked (Draws.canReturn_run lawful _ state)

/-- Parentheses the wrong way round, a bar, and braces without a number. -/
def unpairedMarks : Text :=
  ")|{,}(".toList

theorem unpairedMarks_inert : Inert unpairedMarks where
  noEscape := by decide
  noFixedCount rest suffix := by
    have refused : ∀ rest ∈ unpairedMarks.tails, fixedCount (Cursor.start rest) = none := by decide
    exact refused rest ((List.mem_tails rest unpairedMarks).mpr suffix)
  noQuantifier rest suffix := by
    have refused : ∀ rest ∈ unpairedMarks.tails,
        Quantifier.recogniser (Cursor.start rest) = none := by decide
    exact refused rest ((List.mem_tails rest unpairedMarks).mpr suffix)
  noAlternation inner rest suffix := by
    have place := (List.mem_tails _ unpairedMarks).mpr suffix
    simp [unpairedMarks] at place
  noClass inner rest suffix := by
    have member : '[' ∈ unpairedMarks := suffix.subset List.mem_cons_self
    exact absurd member (by decide)

theorem alwaysChooses_unpairedMarks :
    unpairedMarks ≠ [] ∧ (∀ symbol ∈ unpairedMarks, symbol ∉ "[]\\-".toList) ∧
      Inert unpairedMarks ∧ (∀ marker : Marker, marker.symbol ∉ unpairedMarks) ∧
        AlwaysChooses unpairedMarks := by
  have nonempty : unpairedMarks ≠ [] := by decide
  have plain : ∀ symbol ∈ unpairedMarks, symbol ∉ "[]\\-".toList := forall_of_all (by decide)
  have unmarked : ∀ marker : Marker, marker.symbol ∉ unpairedMarks := by
    intro marker
    cases marker <;> decide
  have choice := (expand_bracketed_choice nonempty plain).2 unpairedMarks_inert unmarked
  exact ⟨nonempty, plain, unpairedMarks_inert, unmarked, choice.1.mpr (by decide)⟩

theorem not_alwaysChooses_of_run
    {members result : Text}
    (run : ((expand (bracketed members)).run Script.source { values := [0] }).1 = result)
    (other : ∀ symbol ∈ members, result ≠ [symbol]) : ¬AlwaysChooses members := by
  intro always
  obtain ⟨symbol, member, same⟩ :=
    always Script Script.source Script.source_lawful { values := [0] }
  exact other symbol member (run.symm.trans same)

/-- A marker or a count repeats the opening bracket, a dot is a wildcard, and an empty branch leaves
empty brackets. -/
theorem not_alwaysChooses_constructs :
    ¬AlwaysChooses "?".toList ∧ ¬AlwaysChooses "{2}".toList ∧ ¬AlwaysChooses ".".toList ∧
      ¬AlwaysChooses "()".toList := by
  refine ⟨?_, ?_, ?_, ?_⟩
  · exact not_alwaysChooses_of_run (show _ = "]".toList by decide) (forall_of_all (by decide))
  · exact not_alwaysChooses_of_run (show _ = "[".toList by decide) (forall_of_all (by decide))
  · exact not_alwaysChooses_of_run (show _ = "!".toList by decide) (forall_of_all (by decide))
  · exact not_alwaysChooses_of_run (show _ = "[]".toList by decide) (forall_of_all (by decide))

end RandomCodes.Pattern

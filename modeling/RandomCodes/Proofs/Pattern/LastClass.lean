import RandomCodes.Proofs.Pattern.ClassResolution
import RandomCodes.Proofs.Pattern.ClosedTexts
/-!
# A class at the end of a text

The stages from those for classes on are followed here on a text that ends with its only closing
bracket. The characters in front of the class are shown one by one, and in place of the class one of
its members is, where a dot can be shown as any character that a wildcard stands for.
-/

namespace RandomCodes.Pattern

open CharacterClass (members)

/-- A text between brackets. -/
def bracketed (inside : Text) : Text :=
  '[' :: (inside ++ [']'])

/-- Reads one character. -/
def characterReader (expected : Char) : Reader Unit
  | [] => none
  | symbol :: _ => if symbol = expected then some ((), 1) else none

theorem characterReader_self (expected : Char) (rest : Text) :
    characterReader expected ([expected] ++ rest) = some ((), [expected].length) :=
  if_pos rfl

theorem characterReader_of_ne {expected symbol : Char} (other : symbol ≠ expected) (rest : Text) :
    characterReader expected (symbol :: rest) = none :=
  if_neg other

/-- Where nothing is escaped, every occurrence is replaced. -/
theorem replaceUnescaped_eq_rewrite
    (marker : Char) (replacement : Draws Text) {text : Text} (noEscape : '\\' ∉ text) :
    replaceUnescaped marker replacement text =
      (characterReader marker).rewrite (fun _ => replacement) text := by
  induction text with
  | nil => rfl
  | cons symbol rest inductionHypothesis =>
      have plain : symbol ≠ '\\' := fun same => noEscape (same ▸ List.mem_cons_self)
      have behind := inductionHypothesis fun member => noEscape (List.mem_cons_of_mem symbol member)
      rw [replaceUnescaped] at behind ⊢
      by_cases found : symbol = marker
      · subst found
        rw [unescapedPieces_marker, render_found, behind]
        exact (Reader.rewrite_append_of_eq_some (List.cons_ne_nil _ _)
          (characterReader_self symbol rest) fun _ => replacement).symm
      · rw [unescapedPieces_of_ne found plain, render_copied, behind]
        exact (Reader.rewrite_cons_of_eq_none (characterReader_of_ne found rest) _).symm

/-- What a single character can be replaced by behind the stages for classes. -/
def Shows (symbol shown : Char) : Prop :=
  if symbol = '.' then Wildcard.Allows shown else shown = symbol

theorem shows_dot (shown : Char) : Shows '.' shown ↔ Wildcard.Allows shown := by
  rw [Shows, if_pos rfl]

theorem shows_of_ne {symbol : Char} (noDot : symbol ≠ '.') (shown : Char) :
    Shows symbol shown ↔ shown = symbol := by
  rw [Shows, if_neg noDot]

theorem exists_shows (symbol : Char) : ∃ shown, Shows symbol shown := by
  by_cases dot : symbol = '.'
  · have allowed : Wildcard.Allows '!' := by unfold Wildcard.Allows; decide
    exact ⟨'!', dot ▸ (shows_dot '!').mpr allowed⟩
  · exact ⟨symbol, (shows_of_ne dot symbol).mpr rfl⟩

theorem noEscape_of_forall₂_shows
    {text result : Text} (noEscape : '\\' ∉ text) (shows : List.Forall₂ Shows text result) :
    '\\' ∉ result := by
  induction shows with
  | nil => exact noEscape
  | @cons symbol shown rest others first _ inductionHypothesis =>
      have different : shown ≠ '\\' := by
        by_cases dot : symbol = '.'
        · subst dot
          exact ((shows_dot shown).mp first).2.2
        · rw [(shows_of_ne dot shown).mp first]
          exact fun same => noEscape (same ▸ List.mem_cons_self)
      have later := inductionHypothesis fun member => noEscape (List.mem_cons_of_mem symbol member)
      simp [later, different.symm]

theorem canReturn_rewrite_dots (text result : Text) :
    ((characterReader '.').rewrite (fun _ => return [← Wildcard.draw]) text).CanReturn result ↔
      List.Forall₂ Shows text result := by
  induction text generalizing result with
  | nil => simp [Reader.rewrite_nil]
  | cons symbol rest inductionHypothesis =>
      rw [List.forall₂_cons_left_iff]
      by_cases dot : symbol = '.'
      · subst dot
        have read := characterReader_self '.' rest
        have step := Reader.rewrite_append_of_eq_some (List.cons_ne_nil '.' []) read
          fun _ => return [← Wildcard.draw]
        rw [List.singleton_append] at step
        simp only [step, Draws.canReturn_bind, Draws.canReturn_pure, inductionHypothesis,
          Wildcard.canReturn_draw, shows_dot]
        constructor
        · rintro ⟨_, ⟨shown, allowed, rfl⟩, others, shows, rfl⟩
          exact ⟨shown, others, allowed, shows, rfl⟩
        · rintro ⟨shown, others, allowed, shows, rfl⟩
          exact ⟨[shown], ⟨shown, allowed, rfl⟩, others, shows, rfl⟩
      · rw [Reader.rewrite_cons_of_eq_none (characterReader_of_ne dot rest), Draws.canReturn_map]
        simp only [inductionHypothesis, shows_of_ne dot]
        constructor
        · rintro ⟨others, shows, rfl⟩
          exact ⟨symbol, others, rfl, shows, rfl⟩
        · rintro ⟨_, others, rfl, shows, rfl⟩
          exact ⟨others, shows, rfl⟩

theorem canReturn_resolveWildcards
    {text : Text} (noEscape : '\\' ∉ text) (result : Text) :
    (resolveWildcards text).CanReturn result ↔ List.Forall₂ Shows text result := by
  rw [resolveWildcards, replaceUnescaped_eq_rewrite _ _ noEscape]
  exact canReturn_rewrite_dots text result

theorem resolveShorthands_of_noEscape {text : Text} (noEscape : '\\' ∉ text) :
    resolveShorthands text = pure text := by
  have kept : ∀ kind : Shorthand, kind.resolve text = pure text := by
    intro kind
    rw [kind.resolve_eq]
    apply Reader.rewrite_eq_pure
    exact Reader.refuses_of_not_mem
      (fun _ rest other => shorthandReader_of_ne kind other rest) noEscape
  simp only [resolveShorthands, Shorthand.all, List.foldlM_cons, List.foldlM_nil, kept, pure_bind]

/-- The stages behind those for classes show every character on its own. -/
theorem canReturn_drawCharacters
    {text : Text} (noEscape : '\\' ∉ text) (result : Text) :
    (resolveShorthands text >>= fun lettered =>
      resolveWildcards lettered >>= escapePass).CanReturn result ↔
        List.Forall₂ Shows text result := by
  have stripped : ∀ shown, List.Forall₂ Shows text shown → stripEscapes shown = shown := by
    intro shown shows
    refine List.filter_eq_self.mpr fun symbol member => bne_iff_ne.mpr fun same => ?_
    exact noEscape_of_forall₂_shows noEscape shows (same ▸ member)
  rw [resolveShorthands_of_noEscape noEscape, pure_bind, Draws.canReturn_bind]
  simp only [canReturn_resolveWildcards noEscape, escapePass, Draws.canReturn_pure]
  constructor
  · rintro ⟨shown, shows, rfl⟩
    rwa [stripped shown shows]
  · exact fun shows => ⟨result, shows, (stripped result shows).symm⟩

theorem members_of_noDash {body : Text} (noDash : '-' ∉ body) : members body = body := by
  induction body with
  | nil => rfl
  | cons symbol rest inductionHypothesis =>
      have alone : ∀ high behind, rest = '-' :: high :: behind →
          ¬(CharacterClass.isWord symbol ∧ CharacterClass.isWord high) := by
        rintro high behind rfl
        simp at noDash
      have later := inductionHypothesis fun member => noDash (List.mem_cons_of_mem symbol member)
      rw [members, CharacterClass.elements_literal alone, List.flatMap_cons, ← members, later]
      rfl

theorem rewrite_bracketed
    (replacement : Text → Draws Text) {front body : Text} (free : '[' ∉ front)
    (noClosing : ']' ∉ body) :
    classBodyReader.rewrite replacement (front ++ bracketed body) =
      (front ++ ·) <$> if body = [] then pure (bracketed []) else replacement body := by
  induction front with
  | nil =>
      simp only [List.nil_append, id_map']
      by_cases empty : body = []
      · subst empty
        rw [if_pos rfl, bracketed, List.nil_append, rewrite_empty, Reader.rewrite_nil]
        rfl
      · rw [if_neg empty, bracketed, rewrite_spanned _ empty noClosing, Reader.rewrite_nil]
        simp only [pure_bind, List.append_nil]
        exact bind_pure (replacement body)
  | cons symbol rest inductionHypothesis =>
      have other : symbol ≠ '[' := fun same => free (same ▸ List.mem_cons_self)
      have behind := inductionHypothesis fun member => free (List.mem_cons_of_mem symbol member)
      rw [List.cons_append, rewrite_plain _ other, behind, Functor.map_map]
      rfl

/-- Spells out the ranges of all classes and chooses their members. -/
def chooseMembers (written : Text) : Draws Text :=
  classRangePass written >>= resolveClasses

theorem chooseMembers_bracketed
    {front body : Text} (free : '[' ∉ front) (flat : Flat body) :
    chooseMembers (front ++ bracketed body) =
      (front ++ ·) <$> if body = [] then pure (bracketed []) else CharacterClass.choose body := by
  have spelled : classRangePass (front ++ bracketed body) = pure (front ++ bracketed body) := by
    rw [classRangePass_eq, rewrite_bracketed _ free flat.noClosing]
    split
    · rename_i empty
      rw [empty]
      rfl
    · rw [CharacterClass.spellOut_eq, members_of_noDash flat.noDash]
      rfl
  rw [chooseMembers, spelled, pure_bind, resolveClasses_eq, rewrite_bracketed _ free flat.noClosing]

theorem chooseMembers_of_noOpening {text : Text} (free : '[' ∉ text) :
    chooseMembers text = pure text := by
  have refuses : classBodyReader.Refuses text :=
    Reader.refuses_of_not_mem (fun _ rest other => classBodyReader_of_ne other rest) free
  rw [chooseMembers, classRangePass_eq, Reader.rewrite_eq_pure refuses, pure_bind,
    resolveClasses_eq, Reader.rewrite_eq_pure refuses]

/-- The stages from those for classes on, one after the other. -/
def expandFromClasses (written : Text) : Draws Text :=
  chooseMembers written >>= fun plain =>
    resolveShorthands plain >>= fun lettered => resolveWildcards lettered >>= escapePass

theorem expandBeforeClasses_eq (pattern : Text) :
    expandBeforeClasses pattern = (fixedCountPass (stripDelimiters pattern) >>= fun normalized =>
      expandMarkers normalized >>= fun quantified =>
        repeatQuantified quantified >>= resolveAlternation) := by
  have early : Stage.all.takeWhile (· ≠ .expandClassRanges) =
      [.stripDelimiters, .normalizeFixedCounts, .expandMarkers, .repeatQuantified,
        .resolveAlternation] := by decide
  rw [expandBeforeClasses, early]
  simp only [List.foldlM_cons, List.foldlM_nil, Stage.apply, bind_pure, pure_bind]
  rfl

theorem expand_eq_beforeClasses (pattern : Text) :
    expand pattern = expandBeforeClasses pattern >>= expandFromClasses := by
  rw [expand_eq, expandInside, expandBeforeClasses_eq]
  simp only [bind_assoc]
  rfl

/-- A class that is not empty is replaced by what one of its members is shown as. -/
theorem canReturn_expandFromClasses
    {front body : Text} (free : '[' ∉ front) (noEscape : '\\' ∉ front) (flat : Flat body)
    (nonempty : body ≠ []) (result : Text) :
    (expandFromClasses (front ++ bracketed body)).CanReturn result ↔
      ∃ symbol ∈ body, List.Forall₂ Shows (front ++ [symbol]) result := by
  have plain : ∀ symbol ∈ body, '\\' ∉ front ++ [symbol] := by
    intro symbol member
    have different : '\\' ≠ symbol := fun same => flat.noEscape (same ▸ member)
    simp [noEscape, different]
  rw [expandFromClasses, chooseMembers_bracketed free flat, if_neg nonempty, Draws.canReturn_bind]
  simp only [Draws.canReturn_map, canReturn_choose nonempty]
  constructor
  · rintro ⟨_, ⟨_, ⟨symbol, member, rfl⟩, rfl⟩, returned⟩
    exact ⟨symbol, member, (canReturn_drawCharacters (plain symbol member) result).mp returned⟩
  · rintro ⟨symbol, member, shows⟩
    exact ⟨_, ⟨_, ⟨symbol, member, rfl⟩, rfl⟩,
      (canReturn_drawCharacters (plain symbol member) result).mpr shows⟩

/-- Without a class that could be resolved every character is shown on its own. -/
theorem canReturn_expandFromClasses_of_chooseMembers
    {text : Text} (kept : chooseMembers text = pure text) (noEscape : '\\' ∉ text) (result : Text) :
    (expandFromClasses text).CanReturn result ↔ List.Forall₂ Shows text result := by
  rw [expandFromClasses, kept, pure_bind, canReturn_drawCharacters noEscape]

end RandomCodes.Pattern

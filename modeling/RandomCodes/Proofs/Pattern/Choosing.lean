import RandomCodes.Proofs.Pattern.ClassEntries
import RandomCodes.Proofs.Pattern.Repeating
/-!
# Choosing branches and members

Without quantifiers a pattern is a list of copies and of groups of copies. One pass replaces every
group by one of its branches; two more spell the ranges of every class out and replace the class by
one of its members. From then on there are no choices left but those for single characters.
-/

namespace RandomCodes

open Pattern.Construct (text language)

namespace Text

theorem split_of_not_mem {separator : Char} {part : Text} (free : separator ∉ part) :
    split separator part = [part] := by
  induction part with
  | nil => rfl
  | cons symbol rest inductionHypothesis =>
      have other : symbol ≠ separator := fun same => free (by simp [same])
      have behind : split separator rest = [rest] :=
        inductionHypothesis fun member => free (List.mem_cons_of_mem symbol member)
      simp only [split, List.foldr_cons] at behind ⊢
      rw [behind, split.extend, if_neg other]

theorem split_append_cons
    {separator : Char} {part : Text} (free : separator ∉ part) (rest : Text) :
    split separator (part ++ separator :: rest) = part :: split separator rest := by
  induction part with
  | nil =>
      have nonempty : ∀ parts : List Text, split.extend separator separator parts ≠ [] := by
        intro parts
        cases parts <;> simp [split.extend]
      have parts : ∃ first others, split separator rest = first :: others := by
        cases rest with
        | nil => exact ⟨[], [], rfl⟩
        | cons symbol others =>
            rw [split, List.foldr_cons]
            unfold split.extend
            split
            · exact ⟨_, _, rfl⟩
            · split <;> exact ⟨_, _, rfl⟩
      obtain ⟨first, others, behind⟩ := parts
      simp only [split, List.nil_append, List.foldr_cons] at behind ⊢
      rw [behind, split.extend, if_pos rfl]
  | cons symbol others inductionHypothesis =>
      have other : symbol ≠ separator := fun same => free (by simp [same])
      have behind := inductionHypothesis fun member => free (List.mem_cons_of_mem symbol member)
      simp only [split, List.cons_append, List.foldr_cons] at behind ⊢
      rw [behind, split.extend, if_neg other]

/-- Parts without a separator are found again between the separators. -/
theorem split_flatMap
    {separator : Char} {first : Text} {others : List Text}
    (free : ∀ part ∈ first :: others, separator ∉ part) :
    split separator (first ++ others.flatMap fun part => separator :: part) =
      first :: others := by
  induction others generalizing first with
  | nil =>
      rw [List.flatMap_nil, List.append_nil]
      exact split_of_not_mem (free first List.mem_cons_self)
  | cons next others inductionHypothesis =>
      have behind := inductionHypothesis fun part member =>
        free part (List.mem_cons_of_mem first member)
      rw [List.flatMap_cons, List.cons_append,
        split_append_cons (free first List.mem_cons_self), behind]

end Text

namespace Pattern

variable {ι κ : Type} [Construct ι] [Construct κ]

theorem resolveAlternation_eq :
    resolveAlternation = alternationReader.rewrite Alternation.choose := by
  funext written
  exact congrArg (render Alternation.choose)
    ((Alternation.body.agrees Alternation.stops).pieces_eq_reader alternationBody_accepts written)

theorem resolveAlternation_keeps {surroundings : Surroundings} {written : Text}
    (free : '(' ∉ written) : Keeps surroundings resolveAlternation written := by
  have kept : ∀ symbol ∈ written, Keeps .anything resolveAlternation [symbol] := by
    intro symbol member rest _
    have other : symbol ≠ '(' := fun same => free (same ▸ member)
    rw [resolveAlternation_eq]
    exact Reader.rewrites_of_eq_none (alternationReader_of_ne other rest) _
  intro rest admitted
  exact Keeps.of_forall_anything kept admitted

/-- A body without parentheses and ends of lines is split at its bars. -/
theorem branches_inner [Bare ι] (group : Group ι) :
    Alternation.branches group.inner = group.branches.map text := by
  have same : (group.inner.map fun symbol => if symbol = '(' then ')' else symbol) =
      group.inner := by
    refine (List.map_congr_left fun symbol member => ?_).trans (List.map_id _)
    have other : symbol ≠ '(' := fun same => mem_inner member (by rw [same]; decide)
    exact if_neg other
  have free : ∀ part ∈ text group.first :: group.others.map text, '|' ∉ part := by
    intro part member bar
    rw [← List.map_cons, List.mem_map] at member
    obtain ⟨branch, _, rfl⟩ := member
    exact Bare.not_mem branch '|' bar (by decide)
  have parts := Text.split_flatMap free
  rw [List.flatMap_map] at parts
  rw [Alternation.branches, same, Group.branches, List.map_cons, ← parts]
  rfl

theorem outcomes_chooseBranch [Bare ι] (group : Group ι) :
    (Alternation.choose group.inner).outcomes =
      resolved (fun (group : Group ι) branch => branch ∈ group.branches) group := by
  have nonempty : group.branches.map text ≠ [] := by
    simp [Group.branches]
  ext word
  rw [Draws.mem_outcomes, Alternation.choose, branches_inner, Draws.canReturn_bind, mem_resolved]
  simp only [Draws.canReturn_sample? nonempty, Draws.canReturn_pure, List.mem_map]
  constructor
  · intro returned
    obtain ⟨choice, ⟨written, ⟨branch, member, rfl⟩, rfl⟩, rfl⟩ := returned
    exact ⟨branch, member, rfl⟩
  · intro resolution
    obtain ⟨branch, member, rfl⟩ := resolution
    exact ⟨some (text branch), ⟨text branch, ⟨branch, member, rfl⟩, rfl⟩, rfl⟩

/-- A group is replaced by one of its branches. -/
theorem chooseBranch_resolves [Bare ι] :
    Resolves resolveAlternation fun (group : Group ι) branch => branch ∈ group.branches where
  total group := ⟨group.first, List.mem_cons_self⟩
  turns group rest _ := by
    have free : ∀ symbol ∈ group.inner, symbol ∉ Alternation.stops := by
      have subset : ∀ stop ∈ Alternation.stops, stop ∈ "\n()".toList := forall_of_all (by decide)
      exact fun symbol member stop => mem_inner member (subset symbol stop)
    have written : text group ++ rest = '(' :: (group.inner ++ ')' :: rest) := by
      simp [text]
    have read : alternationReader (text group ++ rest) =
        some (group.inner, (text group).length) := by
      rw [written, alternationReader_span free]
      simp [text]
    have nonempty : text group ≠ [] := List.cons_ne_nil '(' _
    rw [← outcomes_chooseBranch, resolveAlternation_eq]
    exact Reader.rewrites_of_eq_some nonempty read _
  means _ _ := Iff.rfl

/-- What is left of a pattern when no alternation is: copies, and copies of branches of copies. -/
abbrev Nested (ι : Type) := List (ι ⊕ List (List ι))

theorem Resolves.nested
    [Separate ι] {rewrite : Text → Draws Text} {Resolution : ι → κ → Prop}
    (resolves : Resolves rewrite Resolution) :
    Resolves rewrite (List.Forall₂ (Sum.LiftRel Resolution
      (List.Forall₂ (List.Forall₂ Resolution))) : Nested ι → Nested κ → Prop) :=
  (resolves.sum resolves.list.list).list

theorem realizes_resolveAlternation
    {program : Text → Draws Text} (following : Realizes (Nested Copies) program) :
    Realizes (List (Copies ⊕ List (Group Copies))) fun written =>
      resolveAlternation written >>= program := by
  have kept : Resolves resolveAlternation (Eq : Copies → Copies → Prop) :=
    Resolves.keep fun copies =>
      resolveAlternation_keeps fun member => Bare.not_mem copies '(' member (by decide)
  have chosen : Resolves resolveAlternation
      fun (group : Group Copies) branch => branch ∈ group.branches := chooseBranch_resolves
  exact (kept.sum chosen.list).list.realizes (by rw [resolveAlternation_eq, Reader.rewrite_nil])
    following

/-- The members of a class, one by one. -/
structure SpelledClass where
  members : Text
  ne_nil : members ≠ []
  ordinary : ∀ member ∈ members, member ∉ specialCharacters

instance : Construct SpelledClass where
  text spelled := '[' :: spelled.members ++ [']']
  language spelled := {word | ∃ member ∈ spelled.members, word = [member]}

instance : Solid SpelledClass where
  head spelled := ⟨'[', _, rfl, by decide⟩

def ClassEntries.spelled (entries : ClassEntries) : SpelledClass where
  members := entries.elements.flatMap CharacterClass.Element.members
  ne_nil := by
    obtain ⟨element, others, elements⟩ := List.exists_cons_of_ne_nil entries.ne_nil
    have member : element ∈ entries.elements := by simp [elements]
    obtain ⟨symbol, allowed⟩ := (entries.supported element member).exists_allows
    have inside := (element.mem_members symbol).mpr allowed
    exact List.ne_nil_of_mem (List.mem_flatMap_of_mem member inside)
  ordinary := by
    intro symbol member
    obtain ⟨element, elementMember, inside⟩ := List.mem_flatMap.mp member
    exact (entries.supported element elementMember).not_special
      ((element.mem_members symbol).mp inside)

theorem language_spelled (entries : ClassEntries) :
    language entries.spelled = language entries := by
  ext word
  constructor
  · intro spelled
    obtain ⟨symbol, member, rfl⟩ := spelled
    obtain ⟨element, elementMember, inside⟩ := List.mem_flatMap.mp member
    exact ⟨symbol, ⟨element, elementMember, (element.mem_members symbol).mp inside⟩, rfl⟩
  · intro allowed
    obtain ⟨symbol, ⟨element, elementMember, inside⟩, rfl⟩ := allowed
    exact ⟨symbol, List.mem_flatMap_of_mem elementMember ((element.mem_members symbol).mpr inside),
      rfl⟩

/-- Spells out the ranges of all classes, as a pass. -/
def classRangePass (written : Text) : Draws Text :=
  pure (expandClassRanges written)

theorem classPieces_eq (written : Text) :
    CharacterClass.pieces written = classBodyReader.pieces written :=
  (CharacterClass.body.agrees CharacterClass.stops).pieces_eq_reader classBody_accepts written

theorem classRangePass_eq :
    classRangePass = classBodyReader.rewrite fun body => pure (CharacterClass.spellOut body) := by
  funext written
  rw [classRangePass, expandClassRanges, classPieces_eq, pure_render]
  rfl

theorem resolveClasses_eq : resolveClasses = classBodyReader.rewrite CharacterClass.choose := by
  funext written
  exact congrArg (render CharacterClass.choose) (classPieces_eq written)

theorem classBody_keeps
    {surroundings : Surroundings} {written : Text} (free : '[' ∉ written)
    (replacement : Text → Draws Text) :
    Keeps surroundings (classBodyReader.rewrite replacement) written := by
  have kept : ∀ symbol ∈ written,
      Keeps .anything (classBodyReader.rewrite replacement) [symbol] := by
    intro symbol member rest _
    have other : symbol ≠ '[' := fun same => free (same ▸ member)
    exact Reader.rewrites_of_eq_none (classBodyReader_of_ne other rest) _
  intro rest admitted
  exact Keeps.of_forall_anything kept admitted

theorem classBody_keeps_single
    {surroundings : Surroundings} {pending : List Shorthand} (replacement : Text → Draws Text)
    (single : Single pending) :
    Keeps surroundings (classBodyReader.rewrite replacement) (text single) := by
  refine classBody_keeps (fun member => ?_) replacement
  rcases mem_text_single member with ordinary | escape | escapable
  · exact ordinary (by decide)
  · exact absurd escape (by decide)
  · exact absurd escapable (by decide)

theorem classBody_rewrites
    {construct : ι} {body : Text} (written : text construct = '[' :: (body ++ [']']))
    (nonempty : body ≠ []) (free : ']' ∉ body) (replacement : Text → Draws Text) (rest : Text) :
    Rewrites (classBodyReader.rewrite replacement) (text construct) rest
      (replacement body).outcomes := by
  rw [written]
  exact Reader.rewrites_of_eq_some (List.cons_ne_nil _ _) (classBodyReader_span nonempty free rest)
    replacement

theorem spellClasses_resolves :
    Resolves classRangePass fun (entries : ClassEntries) spelled => spelled = entries.spelled where
  total entries := ⟨entries.spelled, rfl⟩
  turns entries rest _ := by
    have written : text entries =
        '[' :: (entries.elements.flatMap CharacterClass.Element.text ++ [']']) := rfl
    have results : resolved (fun (entries : ClassEntries) spelled => spelled = entries.spelled)
        entries = {text entries.spelled} := by
      ext word
      simp [mem_resolved, mem_singleton_language]
    have rewrites := classBody_rewrites written (text_entries_ne_nil entries)
      (fun member => mem_text_entries member (by decide))
      (fun body => pure (CharacterClass.spellOut body)) rest
    rw [Draws.outcomes_pure, CharacterClass.spellOut,
      CharacterClass.elements_flatMap_text entries.supported] at rewrites
    rw [results, classRangePass_eq]
    exact rewrites
  means entries word := by
    rw [← language_spelled]
    simp

theorem canReturn_choose {body : Text} (nonempty : body ≠ []) (word : Text) :
    (CharacterClass.choose body).CanReturn word ↔ ∃ symbol ∈ body, word = [symbol] := by
  rw [CharacterClass.choose, Draws.canReturn_bind]
  simp only [Draws.canReturn_sample? nonempty, Draws.canReturn_pure]
  constructor
  · intro returned
    obtain ⟨_, ⟨symbol, member, rfl⟩, rfl⟩ := returned
    exact ⟨symbol, member, rfl⟩
  · intro chosen
    obtain ⟨symbol, member, rfl⟩ := chosen
    exact ⟨some symbol, ⟨symbol, member, rfl⟩, rfl⟩

/-- A class is replaced by one of its members, which then stands for itself. -/
theorem chooseMember_resolves :
    Resolves resolveClasses fun (spelled : SpelledClass) (single : Single [.letter, .digit]) =>
      ∃ member ∈ spelled.members, ∃ ordinary, single = .plain member ordinary where
  total spelled := by
    obtain ⟨member, others, members⟩ := List.exists_cons_of_ne_nil spelled.ne_nil
    have inside : member ∈ spelled.members := by simp [members]
    exact ⟨_, member, inside, spelled.ordinary member inside, rfl⟩
  turns spelled rest _ := by
    have free : ']' ∉ spelled.members := fun member => spelled.ordinary _ member (by decide)
    have results : (CharacterClass.choose spelled.members).outcomes =
        resolved (fun (spelled : SpelledClass) (single : Single [.letter, .digit]) =>
          ∃ member ∈ spelled.members, ∃ ordinary, single = .plain member ordinary) spelled := by
      ext word
      rw [Draws.mem_outcomes, canReturn_choose spelled.ne_nil, mem_resolved]
      constructor
      · intro returned
        obtain ⟨member, inside, rfl⟩ := returned
        exact ⟨_, ⟨member, inside, spelled.ordinary member inside, rfl⟩, rfl⟩
      · intro resolution
        obtain ⟨_, ⟨member, inside, ordinary, rfl⟩, rfl⟩ := resolution
        exact ⟨member, inside, rfl⟩
    rw [← results, resolveClasses_eq]
    exact classBody_rewrites rfl spelled.ne_nil free _ rest
  means spelled word := by
    constructor
    · intro chosen
      obtain ⟨member, inside, rfl⟩ := chosen
      exact ⟨_, ⟨member, inside, spelled.ordinary member inside, rfl⟩, member, rfl, rfl⟩
    · intro resolution
      obtain ⟨_, ⟨member, inside, ordinary, rfl⟩, result, allowed, written⟩ := resolution
      have same : result = member := allowed
      exact ⟨member, inside, by rw [written, same]⟩

/-- Single characters, those that were chosen from a class apart from the others. -/
abbrev Characters (ι : Type) := List ι ⊕ List ι

theorem realizes_chooseMembers
    {program : Text → Draws Text}
    (following : Realizes (Nested (Characters (Single [.letter, .digit]))) program) :
    Realizes (Nested Copies) fun written =>
      classRangePass written >>= fun spelled => resolveClasses spelled >>= program := by
  have keptWhileSpelling : Resolves classRangePass
      (Eq : Single [.letter, .digit] → Single [.letter, .digit] → Prop) := by
    rw [classRangePass_eq]
    exact Resolves.keep (classBody_keeps_single _)
  have keptWhileChoosing : Resolves resolveClasses
      (Eq : Single [.letter, .digit] → Single [.letter, .digit] → Prop) := by
    rw [resolveClasses_eq]
    exact Resolves.keep (classBody_keeps_single _)
  have chosen := (chooseMember_resolves.list.sum keptWhileChoosing.list).nested.realizes
    (by rw [resolveClasses_eq, Reader.rewrite_nil]) following
  exact (spellClasses_resolves.list.sum keptWhileSpelling.list).nested.realizes
    (by rw [classRangePass_eq, Reader.rewrite_nil]) chosen

end Pattern

end RandomCodes

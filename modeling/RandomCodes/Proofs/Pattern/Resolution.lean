import Mathlib.Data.Sum.Basic
import RandomCodes.Proofs.ListsInStep
import RandomCodes.Proofs.Pattern.Rewriting
import RandomCodes.Proofs.Pattern.Syntax
/-!
# Passes that resolve constructs

A pass resolves a kind of construct when it turns the text of each into the text of one of its
resolutions, any of which can come out, and the construct stands for exactly the texts that its
resolutions stand for. A pass that resolves the members of a list, of a sum or of the branches of a
group resolves these, too. Where the rest of an expansion is known to give the texts that the
resolutions stand for, the pass and the rest together give those that the construct stands for.
-/

namespace RandomCodes.Pattern

variable {ι κ ι' κ' : Type} [Construct ι] [Construct κ] [Construct ι'] [Construct κ']

open Construct (text language)

theorem text_nil : text ([] : List ι) = [] := rfl

theorem text_cons (construct : ι) (others : List ι) :
    text (construct :: others) = text construct ++ text others :=
  List.flatMap_cons

theorem language_nil : language ([] : List ι) = 1 := rfl

theorem language_cons (construct : ι) (others : List ι) :
    language (construct :: others) = language construct * language others := by
  simp only [language, List.map_cons, List.prod_cons]

/-- A condition on the text behind a construct, which is met where that text begins with a
character other than an opening brace. -/
structure Surroundings where
  Admits : Text → Prop
  /-- Only an opening brace can break it. -/
  admits_cons : ∀ {symbol : Char}, symbol ≠ '{' → ∀ rest, Admits (symbol :: rest)

namespace Surroundings

/-- Any text. -/
def anything : Surroundings where
  Admits _ := True
  admits_cons _ _ := trivial

/-- A text that does not begin with a quantifier. -/
def unquantified : Surroundings where
  Admits text := text.head? ≠ some '{'
  admits_cons noBrace rest := by simpa using noBrace

theorem unquantified_nil : unquantified.Admits [] := by
  simp [unquantified]

end Surroundings

/-- Constructs that begin with a character other than an opening brace. -/
class Solid (ι : Type) [Construct ι] : Prop where
  head : ∀ construct : ι, ∃ symbol rest, text construct = symbol :: rest ∧ symbol ≠ '{'

/-- Constructs that never put an opening brace behind what is written before them. -/
class Separate (ι : Type) [Construct ι] : Prop where
  admits : ∀ (surroundings : Surroundings) (construct : ι) {rest : Text},
    surroundings.Admits rest → surroundings.Admits (text construct ++ rest)

instance [Solid ι] : Separate ι where
  admits surroundings construct rest _ := by
    obtain ⟨symbol, others, written, noBrace⟩ := Solid.head construct
    rw [written]
    exact surroundings.admits_cons noBrace _

instance [Separate ι] : Separate (List ι) where
  admits surroundings constructs rest admitted := by
    induction constructs with
    | nil => exact admitted
    | cons construct others inductionHypothesis =>
        rw [text_cons, List.append_assoc]
        exact Separate.admits surroundings construct inductionHypothesis

instance [Solid ι] [Solid ι'] : Solid (ι ⊕ ι') where
  head construct := by
    cases construct with
    | inl construct => exact Solid.head construct
    | inr construct => exact Solid.head construct

instance [Separate ι] [Separate ι'] : Separate (ι ⊕ ι') where
  admits surroundings construct rest admitted := by
    cases construct with
    | inl construct => exact Separate.admits surroundings construct admitted
    | inr construct => exact Separate.admits surroundings construct admitted

instance : Solid (Group ι) where
  head group := ⟨'(', group.inner ++ [')'], rfl, by decide⟩

instance {pending : List Abbreviation} [Solid ι] : Solid (Marked pending ι) where
  head marked := by
    obtain ⟨symbol, rest, written, noBrace⟩ := Solid.head marked.base
    exact ⟨symbol, rest ++ marked.mark.text, by
      show text marked.base ++ marked.mark.text = _
      rw [written, List.cons_append], noBrace⟩

/-- The texts of the resolutions of a construct. -/
def resolved (Resolution : ι → κ → Prop) (construct : ι) : Language Char :=
  {word | ∃ resolution, Resolution construct resolution ∧ word = text resolution}

omit [Construct ι] in
theorem mem_resolved (Resolution : ι → κ → Prop) (construct : ι) (word : Text) :
    word ∈ resolved Resolution construct ↔
      ∃ resolution, Resolution construct resolution ∧ word = text resolution := Iff.rfl

/-- In the given surroundings, the pass turns the text of each construct into that of any of its
resolutions. -/
def Turns
    (surroundings : Surroundings) (rewrite : Text → Draws Text) (Resolution : ι → κ → Prop) :
    Prop :=
  ∀ construct {rest : Text}, surroundings.Admits rest →
    Rewrites rewrite (text construct) rest (resolved Resolution construct)

/-- In the given surroundings, the pass leaves a text as it is. -/
def Keeps (surroundings : Surroundings) (rewrite : Text → Draws Text) (kept : Text) : Prop :=
  ∀ {rest : Text}, surroundings.Admits rest → Rewrites rewrite kept rest {kept}

section Turns

variable {surroundings : Surroundings} {rewrite : Text → Draws Text} {Resolution : ι → κ → Prop}

theorem turns_eq
    (kept : ∀ construct : ι, Keeps surroundings rewrite (text construct)) :
    Turns surroundings rewrite (Eq : ι → ι → Prop) := by
  intro construct rest admitted
  have single : resolved (Eq : ι → ι → Prop) construct = {text construct} := by
    ext word
    simp [mem_resolved, mem_singleton_language]
  rw [single]
  exact kept construct admitted

theorem Turns.sum
    {OtherResolution : ι' → κ' → Prop} (left : Turns surroundings rewrite Resolution)
    (right : Turns surroundings rewrite OtherResolution) :
    Turns surroundings rewrite (Sum.LiftRel Resolution OtherResolution) := by
  intro construct rest admitted
  cases construct with
  | inl construct =>
      have same : resolved (Sum.LiftRel Resolution OtherResolution) (.inl construct) =
          resolved Resolution construct := by
        ext word
        simp [mem_resolved, text]
      rw [same]
      exact left construct admitted
  | inr construct =>
      have same : resolved (Sum.LiftRel Resolution OtherResolution) (.inr construct) =
          resolved OtherResolution construct := by
        ext word
        simp [mem_resolved, text]
      rw [same]
      exact right construct admitted

omit [Construct ι] in
theorem resolved_nil : resolved (List.Forall₂ Resolution) [] = 1 := by
  ext word
  simp [mem_resolved, text_nil, Language.mem_one]

omit [Construct ι] in
theorem resolved_cons (construct : ι) (others : List ι) :
    resolved (List.Forall₂ Resolution) (construct :: others) =
      resolved Resolution construct * resolved (List.Forall₂ Resolution) others := by
  ext word
  rw [Language.mem_mul]
  constructor
  · rintro ⟨resolutions, resolves, rfl⟩
    obtain ⟨first, rest, firstResolves, restResolves, rfl⟩ :=
      List.forall₂_cons_left_iff.mp resolves
    exact ⟨_, ⟨first, firstResolves, rfl⟩, _, ⟨rest, restResolves, rfl⟩, (text_cons _ _).symm⟩
  · rintro ⟨_, ⟨first, firstResolves, rfl⟩, _, ⟨rest, restResolves, rfl⟩, rfl⟩
    exact ⟨first :: rest, .cons firstResolves restResolves, (text_cons _ _).symm⟩

theorem Turns.list
    [Separate ι] (turns : Turns surroundings rewrite Resolution) :
    Turns surroundings rewrite (List.Forall₂ Resolution) := by
  intro constructs rest admitted
  induction constructs with
  | nil =>
      rw [resolved_nil]
      exact Rewrites.nil
  | cons construct others inductionHypothesis =>
      rw [resolved_cons, text_cons]
      exact Rewrites.append
        (turns construct (Separate.admits surroundings others admitted)) inductionHypothesis

end Turns

namespace Group

/-- The branches are resolved one by one. -/
def Related (Resolution : ι → κ → Prop) (group : Group ι) (image : Group κ) : Prop :=
  List.Forall₂ (List.Forall₂ Resolution) group.branches image.branches

variable {Resolution : ι → κ → Prop}

omit [Construct ι] [Construct κ] in
theorem related_iff (group : Group ι) (image : Group κ) :
    group.Related Resolution image ↔
      List.Forall₂ Resolution group.first image.first ∧
        List.Forall₂ (List.Forall₂ Resolution) group.others image.others :=
  List.forall₂_cons

/-- The texts of further branches, each behind a bar. -/
def resolvedOthers (Resolution : ι → κ → Prop) (others : List (List ι)) : Language Char :=
  {word | ∃ images, List.Forall₂ (List.Forall₂ Resolution) others images ∧
    word = images.flatMap fun branch => '|' :: text branch}

omit [Construct ι] in
theorem mem_resolvedOthers (others : List (List ι)) (word : Text) :
    word ∈ resolvedOthers Resolution others ↔
      ∃ images, List.Forall₂ (List.Forall₂ Resolution) others images ∧
        word = images.flatMap fun branch => '|' :: text branch := Iff.rfl

omit [Construct ι] in
theorem resolvedOthers_nil : resolvedOthers Resolution [] = 1 := by
  ext word
  simp [mem_resolvedOthers, Language.mem_one]

omit [Construct ι] in
theorem resolvedOthers_cons (branch : List ι) (others : List (List ι)) :
    resolvedOthers Resolution (branch :: others) =
      {['|']} * resolved (List.Forall₂ Resolution) branch * resolvedOthers Resolution others := by
  ext word
  rw [mul_assoc, Language.mem_mul]
  simp only [mem_singleton_language, Language.mem_mul]
  constructor
  · rintro ⟨images, related, rfl⟩
    obtain ⟨first, rest, firstRelated, restRelated, rfl⟩ := List.forall₂_cons_left_iff.mp related
    exact ⟨['|'], rfl, _, ⟨_, ⟨first, firstRelated, rfl⟩, _, ⟨rest, restRelated, rfl⟩, rfl⟩, rfl⟩
  · rintro ⟨_, rfl, _, ⟨_, ⟨first, firstRelated, rfl⟩, _, ⟨rest, restRelated, rfl⟩, rfl⟩, rfl⟩
    exact ⟨first :: rest, .cons firstRelated restRelated, rfl⟩

omit [Construct ι] in
theorem resolved_eq (group : Group ι) :
    resolved (Related Resolution) group =
      {['(']} * (resolved (List.Forall₂ Resolution) group.first *
        (resolvedOthers Resolution group.others * {[')']})) := by
  ext word
  simp only [Language.mem_mul, mem_singleton_language]
  constructor
  · rintro ⟨image, related, rfl⟩
    obtain ⟨first, others⟩ := (related_iff group image).mp related
    exact ⟨_, rfl, _, ⟨_, ⟨_, first, rfl⟩, _, ⟨_, ⟨_, others, rfl⟩, _, rfl, rfl⟩, rfl⟩,
      by simp [text, inner]⟩
  · rintro ⟨_, rfl, _, ⟨_, ⟨first, firstRelated, rfl⟩, _,
      ⟨_, ⟨others, othersRelated, rfl⟩, _, rfl, rfl⟩, rfl⟩, rfl⟩
    exact ⟨{ first, others }, (related_iff _ _).mpr ⟨firstRelated, othersRelated⟩,
      by simp [text, inner]⟩

theorem admits_others
    {surroundings : Surroundings} {rest : Text} (admitted : surroundings.Admits rest)
    (others : List (List ι)) :
    surroundings.Admits ((others.flatMap fun branch => '|' :: text branch) ++ rest) := by
  cases others with
  | nil => exact admitted
  | cons branch behind => exact surroundings.admits_cons (by decide) _

theorem rewrites_others
    [Separate ι] {surroundings : Surroundings} {rewrite : Text → Draws Text}
    (turns : Turns surroundings rewrite Resolution) (bar : Keeps surroundings rewrite ['|'])
    (others : List (List ι)) {rest : Text} (admitted : surroundings.Admits rest) :
    Rewrites rewrite (others.flatMap fun branch => '|' :: text branch) rest
      (resolvedOthers Resolution others) := by
  induction others with
  | nil =>
      rw [resolvedOthers_nil]
      exact Rewrites.nil
  | cons branch others inductionHypothesis =>
      rw [resolvedOthers_cons, List.flatMap_cons, ← List.singleton_append]
      refine Rewrites.append (Rewrites.append ?_ ?_) inductionHypothesis
      · exact bar (Separate.admits surroundings branch (admits_others admitted others))
      · exact turns.list branch (admits_others admitted others)

/-- A pass that keeps parentheses and bars turns what stands between them. -/
theorem turns
    [Separate ι] {surroundings : Surroundings} {rewrite : Text → Draws Text}
    (turns : Turns surroundings rewrite Resolution)
    (kept : ∀ symbol ∈ ['(', '|', ')'], Keeps surroundings rewrite [symbol]) :
    Turns surroundings rewrite (Related Resolution) := by
  intro group rest admitted
  have closing : surroundings.Admits ([')'] ++ rest) := surroundings.admits_cons (by decide) _
  have behind := admits_others closing group.others
  have written : text group = ['('] ++ (text group.first ++
      ((group.others.flatMap fun branch => '|' :: text branch) ++ [')'])) := by
    simp [text, inner]
  rw [resolved_eq, written]
  refine Rewrites.append (kept '(' (by simp) ?_) (Rewrites.append ?_ (Rewrites.append ?_ ?_))
  · rw [List.append_assoc, List.append_assoc]
    exact Separate.admits surroundings group.first behind
  · rw [List.append_assoc]
    exact turns.list group.first behind
  · exact rewrites_others turns (kept '|' (by simp)) group.others closing
  · exact kept ')' (by simp) admitted

end Group

/-! ## Passes that resolve -/

/-- The pass turns the text of a construct into that of any of its resolutions, and the construct
stands for what its resolutions stand for. -/
structure Resolves (rewrite : Text → Draws Text) (Resolution : ι → κ → Prop) : Prop where
  total : ∀ construct, ∃ resolution, Resolution construct resolution
  turns : Turns .unquantified rewrite Resolution
  means : ∀ construct word, word ∈ language construct ↔
    ∃ resolution, Resolution construct resolution ∧ word ∈ language resolution

/-- What a pass that resolves constructs does to one of them. -/
structure ResolvesAt
    (rewrite : Text → Draws Text) (Resolution : ι → κ → Prop) (construct : ι) : Prop where
  total : ∃ resolution, Resolution construct resolution
  turns : ∀ {rest : Text}, Surroundings.unquantified.Admits rest →
    Rewrites rewrite (text construct) rest (resolved Resolution construct)
  means : ∀ word, word ∈ language construct ↔
    ∃ resolution, Resolution construct resolution ∧ word ∈ language resolution

/-- A construct whose only resolution is written like itself and stands for the same. -/
theorem ResolvesAt.keep
    {rewrite : Text → Draws Text} {Resolution : ι → κ → Prop} {construct : ι} {resolution : κ}
    (related : Resolution construct resolution)
    (only : ∀ {other}, Resolution construct other → other = resolution)
    (sameText : text resolution = text construct)
    (sameLanguage : language resolution = language construct)
    (kept : Keeps .unquantified rewrite (text construct)) :
    ResolvesAt rewrite Resolution construct where
  total := ⟨resolution, related⟩
  turns := by
    intro rest admitted
    have single : resolved Resolution construct = {text construct} := by
      ext word
      rw [mem_resolved, mem_singleton_language]
      constructor
      · intro found
        obtain ⟨other, otherRelated, rfl⟩ := found
        rw [only otherRelated, sameText]
      · intro same
        exact ⟨resolution, related, same.trans sameText.symm⟩
    rw [single]
    exact kept admitted
  means word := by
    constructor
    · intro member
      exact ⟨resolution, related, sameLanguage ▸ member⟩
    · intro found
      obtain ⟨other, otherRelated, member⟩ := found
      rw [only otherRelated, sameLanguage] at member
      exact member

/-- The program turns the text of each construct into the texts that the construct stands for. -/
def Realizes (ι : Type) [Construct ι] (program : Text → Draws Text) : Prop :=
  ∀ construct : ι, (program (text construct)).outcomes = language construct

namespace Resolves

variable {rewrite : Text → Draws Text} {Resolution : ι → κ → Prop}

theorem realizes
    (resolves : Resolves rewrite Resolution) (empty : rewrite [] = pure [])
    {program : Text → Draws Text} (following : Realizes κ program) :
    Realizes ι fun text => rewrite text >>= program := by
  intro construct
  have results : (rewrite (text construct)).outcomes = resolved Resolution construct :=
    Rewrites.outcomes_eq empty (resolves.turns construct Surroundings.unquantified_nil)
  ext word
  rw [Draws.mem_outcomes, Draws.canReturn_bind, resolves.means]
  constructor
  · rintro ⟨middle, returned, followed⟩
    rw [← Draws.mem_outcomes, results] at returned
    obtain ⟨resolution, resolves, rfl⟩ := returned
    rw [← Draws.mem_outcomes, following] at followed
    exact ⟨resolution, resolves, followed⟩
  · rintro ⟨resolution, resolves, member⟩
    rw [← following, Draws.mem_outcomes] at member
    refine ⟨text resolution, ?_, member⟩
    rw [← Draws.mem_outcomes, results]
    exact ⟨resolution, resolves, rfl⟩

/-- A construct that can be taken for another with the same text and the same language is resolved
as that one is. -/
theorem through
    (view : ι' → ι) (sameText : ∀ construct, text (view construct) = text construct)
    (sameLanguage : ∀ construct, language (view construct) = language construct)
    (resolves : Resolves rewrite Resolution) :
    Resolves rewrite fun construct => Resolution (view construct) where
  total construct := resolves.total (view construct)
  turns construct rest admitted := by
    rw [← sameText construct]
    exact resolves.turns (view construct) admitted
  means construct word := by
    rw [← sameLanguage construct]
    exact resolves.means (view construct) word

theorem of_forall (each : ∀ construct, ResolvesAt rewrite Resolution construct) :
    Resolves rewrite Resolution where
  total construct := (each construct).total
  turns construct _ admitted := (each construct).turns admitted
  means construct := (each construct).means

/-- A pass that leaves every construct as it is. -/
theorem keep (kept : ∀ construct : ι, Keeps .unquantified rewrite (text construct)) :
    Resolves rewrite (Eq : ι → ι → Prop) where
  total construct := ⟨construct, rfl⟩
  turns := turns_eq kept
  means construct word := by simp

theorem sum
    {OtherResolution : ι' → κ' → Prop} (left : Resolves rewrite Resolution)
    (right : Resolves rewrite OtherResolution) :
    Resolves rewrite (Sum.LiftRel Resolution OtherResolution) where
  total construct := by
    cases construct with
    | inl construct =>
        obtain ⟨resolution, resolves⟩ := left.total construct
        exact ⟨.inl resolution, .inl resolves⟩
    | inr construct =>
        obtain ⟨resolution, resolves⟩ := right.total construct
        exact ⟨.inr resolution, .inr resolves⟩
  turns := left.turns.sum right.turns
  means construct word := by
    cases construct with
    | inl construct => simpa [language] using left.means construct word
    | inr construct => simpa [language] using right.means construct word

theorem list [Separate ι] (resolves : Resolves rewrite Resolution) :
    Resolves rewrite (List.Forall₂ Resolution) where
  total constructs := exists_forall₂ resolves.total constructs
  turns := resolves.turns.list
  means constructs word := by
    induction constructs generalizing word with
    | nil => simp [language_nil, Language.mem_one]
    | cons construct others inductionHypothesis =>
        rw [language_cons, Language.mem_mul]
        constructor
        · rintro ⟨front, frontMember, back, backMember, rfl⟩
          obtain ⟨first, firstResolves, firstMember⟩ := (resolves.means _ _).mp frontMember
          obtain ⟨rest, restResolves, restMember⟩ := (inductionHypothesis back).mp backMember
          refine ⟨first :: rest, .cons firstResolves restResolves, ?_⟩
          rw [language_cons]
          exact Language.append_mem_mul firstMember restMember
        · rintro ⟨resolutions, related, member⟩
          obtain ⟨first, rest, firstResolves, restResolves, rfl⟩ :=
            List.forall₂_cons_left_iff.mp related
          rw [language_cons, Language.mem_mul] at member
          obtain ⟨front, frontMember, back, backMember, rfl⟩ := member
          exact ⟨front, (resolves.means _ _).mpr ⟨first, firstResolves, frontMember⟩,
            back, (inductionHypothesis back).mpr ⟨rest, restResolves, backMember⟩, rfl⟩

theorem group
    [Separate ι] (resolves : Resolves rewrite Resolution)
    (kept : ∀ symbol ∈ ['(', '|', ')'], Keeps .unquantified rewrite [symbol]) :
    Resolves rewrite (Group.Related Resolution) where
  total group := by
    obtain ⟨first, firstRelated⟩ := exists_forall₂ resolves.total group.first
    obtain ⟨others, othersRelated⟩ := exists_forall₂ resolves.list.total group.others
    exact ⟨{ first, others }, .cons firstRelated othersRelated⟩
  turns := Group.turns resolves.turns kept
  means group word := by
    constructor
    · rintro ⟨branch, member, inside⟩
      obtain ⟨image, related, imageInside⟩ := (resolves.list.means branch word).mp inside
      obtain ⟨images, allRelated, imageMember⟩ :=
        exists_forall₂_mem resolves.list.total member related
      obtain ⟨first, others, firstRelated, othersRelated, rfl⟩ :=
        List.forall₂_cons_left_iff.mp allRelated
      exact ⟨{ first, others }, .cons firstRelated othersRelated, image, imageMember, imageInside⟩
    · rintro ⟨image, related, branch, member, inside⟩
      obtain ⟨origin, originMember, originRelated⟩ := exists_mem_of_forall₂ related member
      exact ⟨origin, originMember, (resolves.list.means origin word).mpr
        ⟨branch, originRelated, inside⟩⟩

end Resolves

end RandomCodes.Pattern

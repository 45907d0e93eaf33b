import Mathlib.Algebra.BigOperators.Group.List.Defs
import RandomCodes.Proofs.Pattern.Acceptance
import RandomCodes.Proofs.Pattern.Characters
/-!
# Repeating groups, classes and single characters

Once every quantifier is written as two bounds, three passes write the copies out. Each pass repeats
one kind of construct, and turns a construct with a quantifier into a list of copies, among which
every number of copies that the quantifier allows can come out. The construct stands for what such
lists stand for, since each copy is expanded on its own from then on.
-/

namespace RandomCodes.Pattern

open Construct (text language)

variable {ι κ : Type} [Construct ι] [Construct κ]

/-- Constructs that are written without parentheses, bars and ends of lines. -/
class Bare (ι : Type) [Construct ι] : Prop where
  not_mem : ∀ (construct : ι), ∀ symbol ∈ text construct, symbol ∉ "\n(|)".toList

theorem not_frame_of_not_special {symbol : Char} (ordinary : symbol ∉ specialCharacters) :
    symbol ∉ "\n(|)".toList := by
  have subset : ∀ frame ∈ "\n(|)".toList, frame ∈ specialCharacters := forall_of_all (by decide)
  exact fun member => ordinary (subset symbol member)

instance [Bare ι] : Bare (List ι) where
  not_mem constructs symbol member := by
    obtain ⟨construct, _, inside⟩ := List.mem_flatMap.mp member
    exact Bare.not_mem construct symbol inside

instance [Bare ι] [Bare κ] : Bare (ι ⊕ κ) where
  not_mem construct symbol member := by
    cases construct with
    | inl construct => exact Bare.not_mem construct symbol member
    | inr construct => exact Bare.not_mem construct symbol member

instance : Bare ClassEntries where
  not_mem entries symbol member := by
    rcases mem_text_class member with ordinary | rfl | rfl
    · exact not_frame_of_not_special ordinary
    · decide
    · decide

instance {pending : List Shorthand} : Bare (Single pending) where
  not_mem single symbol member := by
    rcases mem_text_single member with ordinary | rfl | escapable
    · exact not_frame_of_not_special ordinary
    · decide
    · have distinct : ∀ other ∈ escapableCharacters, other ∉ "\n(|)".toList :=
        forall_of_all (by decide)
      exact distinct symbol escapable

/-- Nothing but two bounds is left of the ways to write a quantifier. -/
theorem Mark.eq_absent_or_bounds (mark : Mark []) :
    mark = .absent ∨ ∃ limits, mark = .bounds limits := by
  cases mark with
  | absent => exact .inl rfl
  | bounds limits => exact .inr ⟨limits, rfl⟩
  | fixed count small allowed => cases allowed
  | marker kind allowed => cases allowed

theorem Mark.exists_allows (mark : Mark []) : ∃ count, mark.Allows count := by
  rcases mark.eq_absent_or_bounds with rfl | ⟨limits, rfl⟩
  · exact ⟨1, rfl⟩
  · exact ⟨limits.least.value, le_rfl, limits.quantifier_ordered⟩

instance [Bare ι] : Bare (Marked [] ι) where
  not_mem marked symbol member := by
    have either : symbol ∈ text marked.base ∨ symbol ∈ marked.mark.text := List.mem_append.mp member
    rcases either with base | quantifier
    · exact Bare.not_mem marked.base symbol base
    · rcases marked.mark.eq_absent_or_bounds with absent | ⟨limits, bounds⟩
      · rw [absent] at quantifier
        cases quantifier
      · rw [bounds] at quantifier
        rcases Bounds.mem_text quantifier with digit | frame
        · exact not_frame_of_not_special (not_special_of_isDigit digit)
        · have distinct : ∀ other ∈ ['{', ',', '}'], other ∉ "\n(|)".toList :=
            forall_of_all (by decide)
          exact distinct symbol frame

theorem text_replicate (construct : ι) (count : Nat) :
    text (List.replicate count construct) =
      (List.replicate count (text construct)).flatten :=
  List.flatMap_replicate

theorem language_replicate (construct : ι) (count : Nat) :
    language (List.replicate count construct) = language construct ^ count := by
  simp only [language, List.map_replicate, List.prod_replicate]

namespace Marked

/-- The copies that a construct with a quantifier can be written as. -/
def Copied (marked : Marked [] ι) (copies : List ι) : Prop :=
  ∃ count, marked.mark.Allows count ∧ copies = List.replicate count marked.base

omit [Construct ι] in
theorem exists_copied (marked : Marked [] ι) : ∃ copies, marked.Copied copies := by
  obtain ⟨count, allowed⟩ := marked.mark.exists_allows
  exact ⟨_, count, allowed, rfl⟩

theorem mem_language_iff_copied (marked : Marked [] ι) (word : Text) :
    word ∈ language marked ↔ ∃ copies, marked.Copied copies ∧ word ∈ language copies := by
  constructor
  · intro member
    obtain ⟨count, allowed, power⟩ := member
    refine ⟨_, ⟨count, allowed, rfl⟩, ?_⟩
    rwa [language_replicate]
  · intro copied
    obtain ⟨_, ⟨count, allowed, rfl⟩, member⟩ := copied
    rw [language_replicate] at member
    exact ⟨count, allowed, member⟩

end Marked

/-- Any number of copies within the bounds can be drawn. -/
theorem outcomes_copies (kind : AtomKind) (construct : ι) (limits : Bounds) :
    (Repetition.copies
        { kind, atom := text construct, quantifier := limits.quantifier }).outcomes =
      resolved Marked.Copied { base := construct, mark := (.bounds limits : Mark []) } := by
  ext word
  rw [Draws.mem_outcomes, Repetition.copies, Draws.canReturn_bind, mem_resolved]
  constructor
  · intro returned
    obtain ⟨count, drawn, rfl⟩ := returned
    rw [Quantifier.pick, Draws.canReturn_between limits.quantifier_ordered] at drawn
    exact ⟨_, ⟨count, drawn, rfl⟩, (text_replicate construct count).symm⟩
  · intro resolution
    obtain ⟨_, ⟨count, allowed, rfl⟩, rfl⟩ := resolution
    refine ⟨count, ?_, text_replicate construct count⟩
    rw [Quantifier.pick, Draws.canReturn_between limits.quantifier_ordered]
    exact allowed

/-- The pass for a kind of atoms keeps a construct without a quantifier and writes out the copies
of one that has a quantifier. -/
structure Repeats (kind : AtomKind) (construct : ι) : Prop where
  keeps : Keeps .unquantified kind.repeatAll (text construct)
  copies : ∀ (limits : Bounds) (rest : Text),
    Rewrites kind.repeatAll (text construct ++ limits.text) rest
      (Repetition.copies
        { kind, atom := text construct, quantifier := limits.quantifier }).outcomes

theorem Repeats.rewrites
    {kind : AtomKind} {marked : Marked [] ι} (repeats : Repeats kind marked.base) {rest : Text}
    (admitted : Surroundings.unquantified.Admits rest) :
    Rewrites kind.repeatAll (text marked) rest (resolved Marked.Copied marked) := by
  obtain ⟨base, mark⟩ := marked
  rcases mark.eq_absent_or_bounds with rfl | ⟨limits, rfl⟩
  · have single : resolved Marked.Copied { base, mark := (.absent : Mark []) } = {text base} := by
      ext word
      rw [mem_resolved, mem_singleton_language]
      constructor
      · intro resolution
        obtain ⟨_, ⟨_, rfl, rfl⟩, rfl⟩ := resolution
        simp [text]
      · rintro rfl
        exact ⟨[base], ⟨1, rfl, rfl⟩, by simp [text]⟩
    have written : text ({ base, mark := .absent } : Marked [] ι) = text base :=
      List.append_nil (text base)
    rw [single, written]
    exact repeats.keeps admitted
  · rw [← outcomes_copies kind]
    exact repeats.copies limits rest

theorem Repeats.resolves
    {kind : AtomKind} (repeats : ∀ construct : ι, Repeats kind construct) :
    Resolves kind.repeatAll (Marked.Copied : Marked [] ι → List ι → Prop) where
  total := Marked.exists_copied
  turns marked _ admitted := (repeats marked.base).rewrites admitted
  means := Marked.mem_language_iff_copied

section Span

variable {kind : AtomKind} {opening close : Char}
  (pass : kind.repeatAll = (repeatedReader opening close kind).rewrite Repetition.copies)

include pass

theorem span_keeps_of_ne {symbol : Char} (other : symbol ≠ opening) :
    Keeps .anything kind.repeatAll [symbol] := by
  intro rest _
  rw [pass]
  exact Reader.rewrites_of_eq_none (repeatedReader_of_ne other rest) _

theorem span_keeps {written : Text} (free : opening ∉ written) {surroundings : Surroundings} :
    Keeps surroundings kind.repeatAll written := by
  refine Keeps.of_forall_anything fun symbol member => span_keeps_of_ne pass ?_
  rintro rfl
  exact free member

theorem span_repeats
    {construct : ι} {body : Text} (written : text construct = opening :: (body ++ [close]))
    (nonempty : body ≠ []) (noOpening : opening ∉ body) (noClose : close ∉ body)
    (distinct : opening ≠ close) :
    Repeats kind construct where
  keeps := by
    intro rest admitted
    have behind : Keeps .anything kind.repeatAll (body ++ [close]) :=
      span_keeps pass (by simp [noOpening, distinct])
    rw [written, ← List.singleton_append, ← singleton_mul_singleton]
    refine Rewrites.append ?_ (behind trivial)
    rw [pass]
    refine Reader.rewrites_of_eq_none ?_ _
    rw [List.append_assoc]
    exact repeatedReader_unquantified noClose admitted
  copies := by
    intro limits rest
    have joined : text construct ++ limits.text =
        opening :: (body ++ close :: limits.text) := by
      simp [written]
    have read : repeatedReader opening close kind
          (opening :: (body ++ close :: (limits.text ++ rest))) = some _ :=
      repeatedReader_quantified nonempty noClose limits rest
    rw [joined, written, pass]
    refine Reader.rewrites_of_eq_some (by simp) ?_ _
    simpa using read

end Span

theorem repeatAll_group :
    AtomKind.group.repeatAll =
      (repeatedReader '(' ')' .group).rewrite Repetition.copies := by
  funext written
  exact congrArg (render Repetition.copies)
    (AtomKind.group.agrees.pieces_eq_reader AtomKind.group.recogniser_accepts written)

theorem inner_ne_nil [Solid ι] {group : Group ι} (nonblank : group.Nonblank) :
    group.inner ≠ [] := by
  rcases nonblank with first | others
  · obtain ⟨construct, behind, branch⟩ := List.exists_cons_of_ne_nil first
    obtain ⟨symbol, rest, written, _⟩ := Solid.head construct
    simp [Group.inner, branch, text_cons, written]
  · obtain ⟨branch, behind, branches⟩ := List.exists_cons_of_ne_nil others
    simp [Group.inner, branches]

theorem mem_inner [Bare ι] {group : Group ι} {symbol : Char} (member : symbol ∈ group.inner) :
    symbol ∉ "\n()".toList := by
  have fewer : ∀ frame ∈ "\n()".toList, frame ∈ "\n(|)".toList := forall_of_all (by decide)
  have bare : ∀ branch : List ι, symbol ∈ text branch → symbol ∉ "\n()".toList :=
    fun branch inside frame => Bare.not_mem branch symbol inside (fewer symbol frame)
  rcases List.mem_append.mp member with first | others
  · exact bare group.first first
  · obtain ⟨branch, _, inside⟩ := List.mem_flatMap.mp others
    rcases List.mem_cons.mp inside with rfl | later
    · decide
    · exact bare branch later

/-- Groups with something between the parentheses. -/
abbrev NonblankGroup (ι : Type) := { group : Group ι // group.Nonblank }

instance : Construct (NonblankGroup ι) where
  text group := text group.val
  language group := language group.val

instance : Solid (NonblankGroup ι) where
  head group := Solid.head group.val

theorem repeats_group [Solid ι] [Bare ι] (group : NonblankGroup ι) : Repeats .group group := by
  have written : text group = '(' :: (group.val.inner ++ [')']) := rfl
  apply span_repeats repeatAll_group written (inner_ne_nil group.property)
  · exact fun member => mem_inner member (by decide)
  · exact fun member => mem_inner member (by decide)
  · decide

/-- An atom or a group, with the quantifier in either case. -/
def Part.split {pending : List Abbreviation} :
    Part pending → Marked pending Atom ⊕ Marked pending (NonblankGroup (Marked pending Atom))
  | .atom marked => .inl marked
  | .group marked nonblank => .inr { base := ⟨marked.base, nonblank⟩, mark := marked.mark }

theorem repeatGroups_resolves :
    Resolves AtomKind.group.repeatAll fun part : Part [] =>
      Sum.LiftRel Eq Marked.Copied part.split := by
  have atoms : Resolves AtomKind.group.repeatAll (Eq : Marked [] Atom → Marked [] Atom → Prop) :=
    Resolves.keep fun marked =>
      span_keeps repeatAll_group fun member => Bare.not_mem marked '(' member (by decide)
  apply (atoms.sum (Repeats.resolves repeats_group)).through Part.split
  · intro part
    cases part <;> rfl
  · intro part
    cases part <;> rfl

theorem repeatAll_characterClass :
    AtomKind.characterClass.repeatAll =
      (repeatedReader '[' ']' .characterClass).rewrite Repetition.copies := by
  funext written
  exact congrArg (render Repetition.copies)
    (AtomKind.characterClass.agrees.pieces_eq_reader AtomKind.characterClass.recogniser_accepts
      written)

theorem text_entries_ne_nil (entries : ClassEntries) :
    entries.elements.flatMap CharacterClass.Element.text ≠ [] := by
  obtain ⟨element, others, elements⟩ := List.exists_cons_of_ne_nil entries.ne_nil
  rw [elements]
  cases element <;> simp [CharacterClass.Element.text]

theorem repeats_characterClass (entries : ClassEntries) : Repeats .characterClass entries := by
  have written : text entries =
      '[' :: (entries.elements.flatMap CharacterClass.Element.text ++ [']']) := rfl
  apply span_repeats repeatAll_characterClass written (text_entries_ne_nil entries)
  · exact fun member => mem_text_entries member (by decide)
  · exact fun member => mem_text_entries member (by decide)
  · decide

theorem repeatClasses_keeps_marked (marked : Marked [] (Single [.letter, .digit])) :
    Keeps .unquantified AtomKind.characterClass.repeatAll (text marked) := by
  refine span_keeps repeatAll_characterClass fun member => ?_
  have either : '[' ∈ text marked.base ∨ '[' ∈ marked.mark.text := List.mem_append.mp member
  rcases either with base | quantifier
  · rcases mem_text_single base with ordinary | escape | escapable
    · exact ordinary (by decide)
    · exact absurd escape (by decide)
    · exact absurd escapable (by decide)
  · rcases marked.mark.eq_absent_or_bounds with absent | ⟨limits, bounds⟩
    · rw [absent] at quantifier
      cases quantifier
    · rw [bounds] at quantifier
      exact limits.not_mem_text (by decide) (by decide) quantifier

/-- A class or a single character, with the quantifier in either case. -/
def Marked.split {pending : List Abbreviation} :
    Marked pending (ι ⊕ κ) → Marked pending ι ⊕ Marked pending κ
  | { base := .inl base, mark } => .inl { base, mark }
  | { base := .inr base, mark } => .inr { base, mark }

theorem repeatClasses_resolves :
    Resolves AtomKind.characterClass.repeatAll fun marked : Marked [] Atom =>
      Sum.LiftRel Marked.Copied Eq marked.split := by
  refine ((Repeats.resolves repeats_characterClass).sum
    (Resolves.keep repeatClasses_keeps_marked)).through Marked.split ?_ ?_
  · intro marked
    obtain ⟨base, mark⟩ := marked
    cases base <;> rfl
  · intro marked
    obtain ⟨base, mark⟩ := marked
    cases base <;> rfl

theorem repeatAll_single :
    AtomKind.single.repeatAll = singleReader.rewrite Repetition.copies := by
  funext written
  exact congrArg (render Repetition.copies)
    (AtomKind.single.agrees.pieces_eq_reader AtomKind.single.recogniser_accepts written)

theorem repeatSingles_keeps
    {symbol : Char} (noEscape : symbol ≠ '\\') (sameLine : symbol ≠ '\n') :
    Keeps .unquantified AtomKind.single.repeatAll [symbol] := by
  intro rest admitted
  rw [repeatAll_single]
  exact Reader.rewrites_of_eq_none (singleReader_unquantified noEscape sameLine admitted) _

theorem repeats_plain
    {construct : ι} {symbol : Char} (written : text construct = [symbol])
    (noEscape : symbol ≠ '\\') (sameLine : symbol ≠ '\n') : Repeats .single construct where
  keeps := by
    rw [written]
    exact repeatSingles_keeps noEscape sameLine
  copies := by
    intro limits rest
    have read := singleReader_quantified noEscape sameLine limits rest
    rw [repeatAll_single, written]
    exact Reader.rewrites_of_eq_some (by simp) read _

theorem repeats_escaped
    {construct : ι} {symbol : Char} (written : text construct = ['\\', symbol])
    (noEscape : symbol ≠ '\\') (sameLine : symbol ≠ '\n') (noBrace : symbol ≠ '{') :
    Repeats .single construct where
  keeps := by
    intro rest admitted
    rw [written, ← List.singleton_append, ← singleton_mul_singleton]
    refine Rewrites.append ?_ (repeatSingles_keeps noEscape sameLine admitted)
    rw [repeatAll_single]
    exact Reader.rewrites_of_eq_none
      (singleReader_escape_unquantified sameLine noBrace admitted) _
  copies := by
    intro limits rest
    have read := singleReader_escape_quantified sameLine limits rest
    rw [repeatAll_single, written]
    exact Reader.rewrites_of_eq_some (by simp) read _

theorem repeats_single {pending : List Shorthand} (single : Single pending) :
    Repeats .single single := by
  cases single with
  | plain symbol ordinary =>
      exact repeats_plain rfl (ne_of_not_special ordinary (by decide))
        (ne_of_not_special ordinary (by decide))
  | escaped symbol escapable =>
      have other : ∀ known ∈ escapableCharacters, known ≠ '\\' ∧ known ≠ '\n' ∧ known ≠ '{' :=
        forall_of_all (by decide)
      obtain ⟨noEscape, sameLine, noBrace⟩ := other symbol escapable
      exact repeats_escaped rfl noEscape sameLine noBrace
  | shorthand kind allowed =>
      have ordinary := symbol_not_special kind
      exact repeats_escaped (Single.text_shorthand allowed) (ne_of_not_special ordinary (by decide))
        (ne_of_not_special ordinary (by decide)) (ne_of_not_special ordinary (by decide))
  | wildcard => exact repeats_plain rfl (by decide) (by decide)

theorem repeatSingles_keeps_class (entries : ClassEntries) :
    Keeps .unquantified AtomKind.single.repeatAll (text entries) := by
  have other : ∀ symbol ∈ text entries, ∀ special ∈ ['\\', '\n', '{'], symbol ≠ special := by
    rintro symbol member special among rfl
    rcases mem_text_class member with ordinary | rfl | rfl
    · have subset : ∀ known ∈ ['\\', '\n', '{'], known ∈ specialCharacters :=
        forall_of_all (by decide)
      exact ordinary (subset symbol among)
    · exact absurd among (by decide)
    · exact absurd among (by decide)
  have noBrace : '{' ∉ text entries := fun member => other '{' member '{' (by simp) rfl
  have kept : ∀ symbol ∈ text entries, Keeps .unquantified AtomKind.single.repeatAll [symbol] :=
    fun symbol member =>
      repeatSingles_keeps (other symbol member _ (by simp)) (other symbol member _ (by simp))
  intro rest admitted
  exact Keeps.of_forall noBrace kept admitted

theorem repeatSingles_resolves :
    Resolves AtomKind.single.repeatAll
      (Sum.LiftRel (List.Forall₂ Eq) Marked.Copied :
        List ClassEntries ⊕ Marked [] (Single [.letter, .digit]) →
          List ClassEntries ⊕ List (Single [.letter, .digit]) → Prop) :=
  (Resolves.keep repeatSingles_keeps_class).list.sum (Repeats.resolves repeats_single)

/-! ## All three passes -/

/-- Copies of a class, or copies of a single character. -/
abbrev Copies := List ClassEntries ⊕ List (Single [.letter, .digit])

theorem realizes_repeatQuantified
    {program : Text → Draws Text}
    (following : Realizes (List (Copies ⊕ List (Group Copies))) program) :
    Realizes (List (Part [])) fun written => repeatQuantified written >>= program := by
  have singles := repeatSingles_resolves
  have keptBySingles : ∀ symbol ∈ ['(', '|', ')'],
      Keeps .unquantified AtomKind.single.repeatAll [symbol] := by
    intro symbol member
    apply repeatSingles_keeps
    · rintro rfl
      exact absurd member (by decide)
    · rintro rfl
      exact absurd member (by decide)
  have afterSingles :=
    (singles.sum (singles.group keptBySingles).list).list.realizes
      (by rw [repeatAll_single, Reader.rewrite_nil]) following
  have classes := repeatClasses_resolves
  have keptByClasses : ∀ symbol ∈ ['(', '|', ')'],
      Keeps .unquantified AtomKind.characterClass.repeatAll [symbol] := by
    intro symbol member
    refine span_keeps repeatAll_characterClass fun bracket => ?_
    obtain rfl := List.mem_singleton.mp bracket
    exact absurd member (by decide)
  have nonblankGroups := (classes.group keptByClasses).through
    (Subtype.val : NonblankGroup (Marked [] Atom) → _) (fun _ => rfl) (fun _ => rfl)
  have afterClasses :=
    (classes.sum nonblankGroups.list).list.realizes
      (by rw [repeatAll_characterClass, Reader.rewrite_nil]) afterSingles
  have afterGroups :=
    repeatGroups_resolves.list.realizes
      (by rw [repeatAll_group, Reader.rewrite_nil]) afterClasses
  intro body
  have result := afterGroups body
  simp only [repeatQuantified, AtomKind.all, List.foldlM_cons, List.foldlM_nil, bind_assoc,
    pure_bind]
  exact result

end RandomCodes.Pattern

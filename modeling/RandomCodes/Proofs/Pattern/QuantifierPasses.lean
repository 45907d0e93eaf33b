import Mathlib.Algebra.Order.Monoid.Unbundled.Pow
import Mathlib.Order.CompletePartialOrder
import RandomCodes.Proofs.Pattern.Characters
import RandomCodes.Proofs.Pattern.SpanReading
/-!
# Writing quantifiers out

The passes that write fixed counts and markers out change nothing but quantifiers. What a construct
stands for can only shrink when the bound of a marker is drawn, since the bound then holds for all
copies of the text around it; but the greatest bound that can be drawn loses nothing. So these passes
settle a construct: whatever they turn it into stands for no more texts than it does, and one of the
possible results stands for all of them.
-/

namespace RandomCodes.Pattern

open Construct (text language)

variable {ι κ : Type} [Construct ι] [Construct κ]

/-- Whatever comes out stands for no more than the construct, and something that can come out stands
for no less. -/
structure Settles (rewrite : Text → Draws Text) (Settlement : ι → κ → Prop) : Prop where
  turns : Turns .anything rewrite Settlement
  sound : ∀ {construct settled}, Settlement construct settled → language settled ≤ language construct
  best : ∀ construct, ∃ settled, Settlement construct settled ∧ language construct ≤ language settled

namespace Settles

variable {rewrite : Text → Draws Text} {Settlement : ι → κ → Prop}

theorem resolves (settles : Settles rewrite Settlement) : Resolves rewrite Settlement where
  total construct := by
    obtain ⟨settled, settlement, _⟩ := settles.best construct
    exact ⟨settled, settlement⟩
  turns construct _ _ := settles.turns construct trivial
  means construct word := by
    constructor
    · intro member
      obtain ⟨settled, settlement, complete⟩ := settles.best construct
      exact ⟨settled, settlement, complete member⟩
    · rintro ⟨settled, settlement, member⟩
      exact settles.sound settlement member

theorem keep (kept : ∀ construct : ι, Keeps .anything rewrite (text construct)) :
    Settles rewrite (Eq : ι → ι → Prop) where
  turns := turns_eq kept
  sound := by
    rintro construct _ rfl
    exact le_rfl
  best construct := ⟨construct, rfl, le_rfl⟩

theorem list [Separate ι] (settles : Settles rewrite Settlement) :
    Settles rewrite (List.Forall₂ Settlement) where
  turns := settles.turns.list
  sound := by
    intro constructs settled related
    induction related with
    | nil => exact le_rfl
    | cons first others inductionHypothesis =>
        rw [language_cons, language_cons]
        exact mul_le_mul' (settles.sound first) inductionHypothesis
  best constructs := by
    induction constructs with
    | nil => exact ⟨[], .nil, le_rfl⟩
    | cons construct others inductionHypothesis =>
        obtain ⟨first, firstSettled, firstComplete⟩ := settles.best construct
        obtain ⟨rest, restSettled, restComplete⟩ := inductionHypothesis
        refine ⟨first :: rest, .cons firstSettled restSettled, ?_⟩
        rw [language_cons, language_cons]
        exact mul_le_mul' firstComplete restComplete

theorem group
    [Separate ι] (settles : Settles rewrite Settlement)
    (kept : ∀ symbol ∈ ['(', '|', ')'], Keeps .anything rewrite [symbol]) :
    Settles rewrite (Group.Related Settlement) where
  turns := Group.turns settles.turns kept
  sound := by
    intro group settled related word member
    obtain ⟨branch, branchMember, inside⟩ := member
    obtain ⟨origin, originMember, settlement⟩ := exists_mem_of_forall₂ related branchMember
    exact ⟨origin, originMember, settles.list.sound settlement inside⟩
  best group := by
    have total : ∀ branch : List ι, ∃ settled,
        List.Forall₂ Settlement branch settled ∧ language branch ≤ language settled :=
      settles.list.best
    obtain ⟨first, firstSettled, firstComplete⟩ := total group.first
    obtain ⟨others, othersSettled⟩ := exists_forall₂ total group.others
    refine ⟨{ first, others }, .cons firstSettled (othersSettled.imp fun _ _ both => both.1), ?_⟩
    intro word member
    obtain ⟨branch, branchMember, inside⟩ := member
    rcases List.mem_cons.mp branchMember with rfl | later
    · exact ⟨first, List.mem_cons_self, firstComplete inside⟩
    · obtain ⟨settled, settledMember, _, complete⟩ := exists_mem_image othersSettled later
      exact ⟨settled, List.mem_cons_of_mem first settledMember, complete inside⟩

end Settles

section Marks

variable {pending remaining : List Abbreviation}

/-- The texts that a pass writes for a quantifier. -/
def expandedTexts
    (Expansion : Mark pending → Mark remaining → Prop) (mark : Mark pending) : Language Char :=
  {word | ∃ expansion, Expansion mark expansion ∧ word = expansion.text}

/-- The pass writes out some abbreviations of quantifiers, whatever stands around them, and leaves
everything else in a pattern as it is. -/
structure Expands
    (rewrite : Text → Draws Text) (Expansion : Mark pending → Mark remaining → Prop) : Prop where
  turns : ∀ mark rest, Rewrites rewrite mark.text rest (expandedTexts Expansion mark)
  sound : ∀ {mark expansion count}, Expansion mark expansion →
    expansion.Allows count → mark.Allows count
  best : ∀ mark, ∃ expansion, Expansion mark expansion ∧
    ∀ count, mark.Allows count → expansion.Allows count
  keeps : ∀ atom : Atom, Keeps .anything rewrite (text atom)
  keepsFrame : ∀ symbol ∈ ['(', '|', ')'], Keeps .anything rewrite [symbol]

/-- What is repeated and how often are settled apart. -/
structure Marked.Related
    (Settlement : ι → κ → Prop) (Expansion : Mark pending → Mark remaining → Prop)
    (marked : Marked pending ι) (settled : Marked remaining κ) : Prop where
  base : Settlement marked.base settled.base
  mark : Expansion marked.mark settled.mark

theorem mem_language_marked (marked : Marked pending ι) (word : Text) :
    word ∈ language marked ↔
      ∃ count, marked.mark.Allows count ∧ word ∈ language marked.base ^ count := Iff.rfl

omit [Construct ι] in
theorem resolved_marked
    (Settlement : ι → κ → Prop) (Expansion : Mark pending → Mark remaining → Prop)
    (marked : Marked pending ι) :
    resolved (Marked.Related Settlement Expansion) marked =
      resolved Settlement marked.base * expandedTexts Expansion marked.mark := by
  ext word
  rw [Language.mem_mul]
  constructor
  · rintro ⟨settled, ⟨base, mark⟩, rfl⟩
    exact ⟨_, ⟨settled.base, base, rfl⟩, _, ⟨settled.mark, mark, rfl⟩, rfl⟩
  · rintro ⟨_, ⟨base, baseSettled, rfl⟩, _, ⟨mark, markSettled, rfl⟩, rfl⟩
    exact ⟨{ base, mark }, ⟨baseSettled, markSettled⟩, rfl⟩

theorem Settles.marked
    {rewrite : Text → Draws Text} {Settlement : ι → κ → Prop}
    {Expansion : Mark pending → Mark remaining → Prop} (settles : Settles rewrite Settlement)
    (expands : Expands rewrite Expansion) :
    Settles rewrite (Marked.Related Settlement Expansion) where
  turns marked rest _ := by
    rw [resolved_marked]
    exact Rewrites.append (settles.turns marked.base trivial) (expands.turns marked.mark rest)
  sound := by
    intro marked settled related word member
    obtain ⟨count, allowed, power⟩ := (mem_language_marked _ _).mp member
    exact ⟨count, expands.sound related.mark allowed,
      pow_le_pow_left' (settles.sound related.base) count power⟩
  best marked := by
    obtain ⟨base, baseSettled, baseComplete⟩ := settles.best marked.base
    obtain ⟨mark, markSettled, markComplete⟩ := expands.best marked.mark
    refine ⟨{ base, mark }, ⟨baseSettled, markSettled⟩, ?_⟩
    intro word member
    obtain ⟨count, allowed, power⟩ := (mem_language_marked _ _).mp member
    exact ⟨count, markComplete count allowed, pow_le_pow_left' baseComplete count power⟩

/-- The parts are settled by settling their quantifiers. -/
inductive Part.Related (Expansion : Mark pending → Mark remaining → Prop) :
    Part pending → Part remaining → Prop
  | atom {marked settled} :
      Marked.Related Eq Expansion marked settled →
      Part.Related Expansion (.atom marked) (.atom settled)
  | group {marked settled nonblank settledNonblank} :
      Marked.Related (Group.Related (Marked.Related Eq Expansion)) Expansion marked settled →
      Part.Related Expansion (.group marked nonblank) (.group settled settledNonblank)

omit [Construct ι] [Construct κ] in
theorem Group.nonblank_of_related
    {Settlement : ι → κ → Prop} {group : Group ι} {settled : Group κ}
    (related : group.Related Settlement settled) (nonblank : group.Nonblank) :
    settled.Nonblank := by
  obtain ⟨first, others⟩ := (Group.related_iff group settled).mp related
  rcases nonblank with firstNonempty | othersNonempty
  · refine .inl fun empty => firstNonempty ?_
    rw [empty] at first
    exact List.forall₂_nil_right_iff.mp first
  · refine .inr fun empty => othersNonempty ?_
    rw [empty] at others
    exact List.forall₂_nil_right_iff.mp others

namespace Expands

variable {rewrite : Text → Draws Text} {Expansion : Mark pending → Mark remaining → Prop}

theorem settlesAtom (expands : Expands rewrite Expansion) :
    Settles rewrite (Marked.Related (Eq : Atom → Atom → Prop) Expansion) :=
  Settles.marked (Settles.keep expands.keeps) expands

theorem settlesGroup (expands : Expands rewrite Expansion) :
    Settles rewrite
      (Marked.Related (Group.Related (Marked.Related (Eq : Atom → Atom → Prop) Expansion))
        Expansion) :=
  Settles.marked (expands.settlesAtom.group expands.keepsFrame) expands

theorem settlesPart (expands : Expands rewrite Expansion) :
    Settles rewrite (Part.Related Expansion) where
  turns part rest admitted := by
    cases part with
    | atom marked =>
        have same : resolved (Part.Related Expansion) (.atom marked) =
            resolved (Marked.Related Eq Expansion) marked := by
          ext word
          constructor
          · rintro ⟨_, ⟨related⟩, rfl⟩
            exact ⟨_, related, rfl⟩
          · rintro ⟨settled, related, rfl⟩
            exact ⟨.atom settled, .atom related, rfl⟩
        rw [same]
        exact expands.settlesAtom.turns marked admitted
    | group marked nonblank =>
        have same : resolved (Part.Related Expansion) (.group marked nonblank) =
            resolved (Marked.Related (Group.Related (Marked.Related Eq Expansion)) Expansion)
              marked := by
          ext word
          constructor
          · rintro ⟨_, related, rfl⟩
            cases related with
            | group related => exact ⟨_, related, rfl⟩
          · rintro ⟨settled, related, rfl⟩
            exact ⟨.group settled (Group.nonblank_of_related related.base nonblank),
              .group related, rfl⟩
        rw [same]
        exact expands.settlesGroup.turns marked admitted
  sound := by
    intro part settled related
    cases related with
    | atom related => exact expands.settlesAtom.sound related
    | group related => exact expands.settlesGroup.sound related
  best part := by
    cases part with
    | atom marked =>
        obtain ⟨settled, related, complete⟩ := expands.settlesAtom.best marked
        exact ⟨.atom settled, .atom related, complete⟩
    | group marked nonblank =>
        obtain ⟨settled, related, complete⟩ := expands.settlesGroup.best marked
        exact ⟨.group settled (Group.nonblank_of_related related.base nonblank),
          .group related, complete⟩

/-- A pass that writes quantifiers out brings a whole pattern one step further. -/
theorem realizes
    (expands : Expands rewrite Expansion) (empty : rewrite [] = pure [])
    {program : Text → Draws Text} (following : Realizes (List (Part remaining)) program) :
    Realizes (List (Part pending)) fun text => rewrite text >>= program :=
  expands.settlesPart.list.resolves.realizes empty following

end Expands

end Marks

end RandomCodes.Pattern

import RandomCodes.Proofs.Outcomes
import RandomCodes.Proofs.Pattern.Choosing
/-!
# Two passes for classes and one

The passes that spell ranges out and choose members meet in a text: what the first one writes between
brackets is read again by the second. They are meant to do what one pass over the original text does
that chooses a member for each class. This holds as long as no range runs over the closing bracket;
where one does, the class ends too early for the second pass, which then chooses among fewer
characters.
-/

namespace RandomCodes.Pattern

namespace CharacterClass

/-- The members of all entries of a body. -/
def members (body : Text) : Text :=
  (elements body).flatMap Element.members

/-- Chooses one of the members of a body; where there is none, empty brackets stay. -/
def chooseMember (body : Text) : Draws Text :=
  if members body = [] then pure ['[', ']'] else choose (members body)

theorem spellOut_eq (body : Text) : spellOut body = '[' :: (members body ++ [']']) := rfl

end CharacterClass

open CharacterClass (members chooseMember)

/-- Replaces every class by one of its members, ranges included. -/
def resolveDirectly (text : Text) : Draws Text :=
  render chooseMember (CharacterClass.pieces text)

/-- The bodies of the classes in a text. -/
def classBodies (text : Text) : List Text :=
  (CharacterClass.pieces text).filterMap Piece.value?

theorem resolveDirectly_eq : resolveDirectly = classBodyReader.rewrite chooseMember := by
  funext text
  exact congrArg (render chooseMember) (classPieces_eq text)

theorem classBodyReader_unclosed {text : Text} (unclosed : ']' ∉ text) :
    classBodyReader.Refuses text := by
  intro symbol rest suffix
  by_cases opens : symbol = '['
  · subst opens
    have free : ∀ inside ∈ rest, inside ∉ CharacterClass.stops := by
      intro inside member stop
      have inText : inside ∈ text := suffix.subset (List.mem_cons_of_mem '[' member)
      exact unclosed (List.mem_singleton.mp stop ▸ inText)
    rw [classBodyReader_opening, firstStop_eq_none free]
    rfl
  · exact classBodyReader_of_ne opens rest

theorem classBodyReader_empty (rest : Text) : classBodyReader ('[' :: ']' :: rest) = none := by
  have stop : ']' ∈ CharacterClass.stops := by decide
  rw [classBodyReader_opening, firstStop_cons_of_mem stop]
  rfl

/-- A text without a closing bracket has no class; any other begins with a character that opens
none, with empty brackets or with a class. -/
theorem induction_on_classes
    {motive : Text → Prop} (unclosed : ∀ text, ']' ∉ text → motive text)
    (plain : ∀ symbol rest, symbol ≠ '[' → motive rest → motive (symbol :: rest))
    (empty : ∀ rest, motive rest → motive ('[' :: ']' :: rest))
    (spanned : ∀ body rest, body ≠ [] → ']' ∉ body → motive rest →
      motive ('[' :: (body ++ ']' :: rest)))
    (text : Text) : motive text := by
  by_cases closed : ']' ∈ text
  · match text with
    | symbol :: rest =>
        by_cases opens : symbol = '['
        · subst opens
          have later : ']' ∈ rest := by simpa using closed
          obtain ⟨body, behind, rfl, free⟩ := List.eq_append_cons_of_mem later
          have shorter : motive behind :=
            induction_on_classes unclosed plain empty spanned behind
          cases body with
          | nil => exact empty behind shorter
          | cons first others => exact spanned (first :: others) behind (by simp) free shorter
        · exact plain symbol rest opens (induction_on_classes unclosed plain empty spanned rest)
  · exact unclosed text closed
termination_by text.length
decreasing_by
  all_goals simp_all
  all_goals omega

section Steps

variable (replacement : Text → Draws Text)

theorem rewrite_plain {symbol : Char} (other : symbol ≠ '[') (rest : Text) :
    classBodyReader.rewrite replacement (symbol :: rest) =
      (symbol :: ·) <$> classBodyReader.rewrite replacement rest :=
  Reader.rewrite_cons_of_eq_none (classBodyReader_of_ne other rest) replacement

theorem rewrite_empty (rest : Text) :
    classBodyReader.rewrite replacement ('[' :: ']' :: rest) =
      ('[' :: ']' :: ·) <$> classBodyReader.rewrite replacement rest := by
  rw [Reader.rewrite_cons_of_eq_none (classBodyReader_empty rest), rewrite_plain _ (by decide),
    Functor.map_map]

theorem rewrite_spanned
    {body : Text} (nonempty : body ≠ []) (free : ']' ∉ body) (rest : Text) :
    classBodyReader.rewrite replacement ('[' :: (body ++ ']' :: rest)) = do
      let front ← replacement body
      let back ← classBodyReader.rewrite replacement rest
      return front ++ back := by
  have joined : '[' :: (body ++ ']' :: rest) = ('[' :: (body ++ [']'])) ++ rest := by simp
  have read := classBodyReader_span nonempty free rest
  rw [joined]
  exact Reader.rewrite_append_of_eq_some (List.cons_ne_nil _ _) read replacement

end Steps

section Spelling

theorem pure_expandClassRanges (text : Text) :
    (pure (expandClassRanges text) : Draws Text) =
      classBodyReader.rewrite (fun body => pure (CharacterClass.spellOut body)) text :=
  congrFun classRangePass_eq text

theorem expandClassRanges_unclosed {text : Text} (unclosed : ']' ∉ text) :
    expandClassRanges text = text := by
  have same := pure_expandClassRanges text
  rw [Reader.rewrite_eq_pure (classBodyReader_unclosed unclosed)] at same
  exact Draws.done.inj same

theorem expandClassRanges_plain {symbol : Char} (other : symbol ≠ '[') (rest : Text) :
    expandClassRanges (symbol :: rest) = symbol :: expandClassRanges rest := by
  have same := pure_expandClassRanges (symbol :: rest)
  rw [rewrite_plain _ other, ← pure_expandClassRanges] at same
  exact Draws.done.inj same

theorem expandClassRanges_empty (rest : Text) :
    expandClassRanges ('[' :: ']' :: rest) = '[' :: ']' :: expandClassRanges rest := by
  have same := pure_expandClassRanges ('[' :: ']' :: rest)
  rw [rewrite_empty, ← pure_expandClassRanges] at same
  exact Draws.done.inj same

theorem expandClassRanges_spanned
    {body : Text} (nonempty : body ≠ []) (free : ']' ∉ body) (rest : Text) :
    expandClassRanges ('[' :: (body ++ ']' :: rest)) =
      '[' :: (members body ++ ']' :: expandClassRanges rest) := by
  have same := pure_expandClassRanges ('[' :: (body ++ ']' :: rest))
  rw [rewrite_spanned _ nonempty free, ← pure_expandClassRanges, CharacterClass.spellOut_eq] at same
  have joined := Draws.done.inj same
  simpa using joined

end Spelling

section Bodies

theorem classBodies_plain {symbol : Char} (other : symbol ≠ '[') (rest : Text) :
    classBodies (symbol :: rest) = classBodies rest := by
  rw [classBodies, classBodies, classPieces_eq, classPieces_eq,
    Reader.pieces_of_eq_none (classBodyReader_of_ne other rest)]
  rfl

theorem classBodies_empty (rest : Text) :
    classBodies ('[' :: ']' :: rest) = classBodies rest := by
  have behind := classBodies_plain (show ']' ≠ '[' by decide) rest
  rw [← behind, classBodies, classBodies, classPieces_eq, classPieces_eq,
    Reader.pieces_of_eq_none (classBodyReader_empty rest)]
  rfl

theorem classBodies_spanned
    {body : Text} (nonempty : body ≠ []) (free : ']' ∉ body) (rest : Text) :
    classBodies ('[' :: (body ++ ']' :: rest)) = body :: classBodies rest := by
  have joined : '[' :: (body ++ ']' :: rest) = ('[' :: (body ++ [']'])) ++ rest := by simp
  have read := classBodyReader_span nonempty free rest
  rw [classBodies, classBodies, classPieces_eq, classPieces_eq, joined,
    Reader.pieces_of_eq_some (List.cons_ne_nil _ _) read]
  rfl

theorem classBodies_unclosed {text : Text} (unclosed : ']' ∉ text) : classBodies text = [] := by
  have refuses := classBodyReader_unclosed unclosed
  induction text with
  | nil => rfl
  | cons symbol rest inductionHypothesis =>
      have later : ']' ∉ rest := fun member => unclosed (List.mem_cons_of_mem symbol member)
      have behind := inductionHypothesis later (classBodyReader_unclosed later)
      rw [classBodies, classPieces_eq] at behind ⊢
      rw [Reader.pieces_of_eq_none (refuses symbol rest List.suffix_rfl)]
      exact behind

end Bodies

/-! ## Where the passes agree -/

/-- As long as no class has a closing bracket among its members, the two passes do what the one
does. -/
theorem resolveClasses_expandClassRanges
    {text : Text} (closed : ∀ body ∈ classBodies text, ']' ∉ members body) :
    resolveClasses (expandClassRanges text) = resolveDirectly text := by
  rw [resolveClasses_eq, resolveDirectly_eq]
  induction text using induction_on_classes with
  | unclosed text unclosed =>
      have refuses := classBodyReader_unclosed unclosed
      rw [expandClassRanges_unclosed unclosed, Reader.rewrite_eq_pure refuses,
        Reader.rewrite_eq_pure refuses]
  | plain symbol rest other inductionHypothesis =>
      rw [classBodies_plain other] at closed
      rw [expandClassRanges_plain other, rewrite_plain _ other, rewrite_plain _ other,
        inductionHypothesis closed]
  | empty rest inductionHypothesis =>
      rw [classBodies_empty] at closed
      rw [expandClassRanges_empty, rewrite_empty, rewrite_empty, inductionHypothesis closed]
  | spanned body rest nonempty free inductionHypothesis =>
      rw [classBodies_spanned nonempty free] at closed
      have behind := inductionHypothesis fun later member =>
        closed later (List.mem_cons_of_mem body member)
      have inside := closed body List.mem_cons_self
      rw [expandClassRanges_spanned nonempty free, rewrite_spanned _ nonempty free]
      by_cases none : members body = []
      · rw [none, List.nil_append, rewrite_empty, behind, chooseMember, if_pos none,
          map_eq_pure_bind]
        rfl
      · rw [rewrite_spanned _ none inside, behind, chooseMember, if_neg none]

/-! ## Where they do not -/

namespace CharacterClass

/-- An entry of a class body is a character of it, or a range that begins with a word character. -/
def Element.StandsIn (body : Text) : Element → Prop
  | .literal symbol => symbol ∈ body
  | .range low _ => isWord low

theorem standsIn_of_mem_elements (body : Text) :
    ∀ entry ∈ elements body, entry.StandsIn body := by
  intro entry member
  rw [elements_eq] at member
  obtain ⟨span, construct, within⟩ := (composes_elements body).exists_span_of_mem_values member
  cases construct with
  | literal symbol => exact within List.mem_cons_self
  | range low high lowWord highWord => exact lowWord

theorem head?_charactersBetween {low high first : Char}
    (head : (charactersBetween low high).head? = some first) : first = low := by
  rw [charactersBetween] at head
  cases count : high.toNat + 1 - low.toNat with
  | zero =>
      rw [count] at head
      cases head
  | succ others =>
      have valid : low.toNat.isValidChar := low.valid
      rw [count, List.range'_succ, List.filterMap_cons, dif_pos valid] at head
      exact (Option.some.inj head).symm.trans (Char.ext rfl)

theorem head?_flatMap_ne
    {α : Type} {items : List α} {function : α → Text} {symbol : Char}
    (other : ∀ item ∈ items, (function item).head? ≠ some symbol) :
    (items.flatMap function).head? ≠ some symbol := by
  induction items with
  | nil => simp
  | cons item rest inductionHypothesis =>
      have first := other item List.mem_cons_self
      have later := inductionHypothesis fun next member =>
        other next (List.mem_cons_of_mem item member)
      rw [List.flatMap_cons]
      cases written : function item with
      | nil => exact later
      | cons head tail =>
          rw [written] at first
          exact first

/-- The first member of a class is never the closing bracket, even where a range runs over it. -/
theorem head?_members_ne {body : Text} (free : ']' ∉ body) : (members body).head? ≠ some ']' := by
  apply head?_flatMap_ne
  intro entry member closes
  have stands := standsIn_of_mem_elements body entry member
  cases entry with
  | literal symbol =>
      have same : symbol = ']' := Option.some.inj closes
      exact free (same ▸ stands)
  | range low high =>
      have same := head?_charactersBetween closes
      rw [Element.StandsIn, ← same] at stands
      exact absurd stands (by decide)

theorem choose_of_ne_nil {body : Text} (nonempty : body ≠ []) :
    choose body = .ask (.index body.length) fun position => pure body[position]?.toList := by
  obtain ⟨head, tail, rfl⟩ := List.exists_cons_of_ne_nil nonempty
  rfl

end CharacterClass

/-- Where a class has a closing bracket among its members, the two passes ask for another index than
the one, whatever has been answered so far. -/
theorem diverges_of_mem_members
    {text body : Text} (member : body ∈ classBodies text) (closes : ']' ∈ members body) :
    (resolveClasses (expandClassRanges text)).Diverges (resolveDirectly text) := by
  rw [resolveClasses_eq, resolveDirectly_eq]
  induction text using induction_on_classes with
  | unclosed text unclosed =>
      rw [classBodies_unclosed unclosed] at member
      cases member
  | plain symbol rest other inductionHypothesis =>
      rw [classBodies_plain other] at member
      rw [expandClassRanges_plain other, rewrite_plain _ other, rewrite_plain _ other]
      exact (inductionHypothesis member).map _ _
  | empty rest inductionHypothesis =>
      rw [classBodies_empty] at member
      rw [expandClassRanges_empty, rewrite_empty, rewrite_empty]
      exact (inductionHypothesis member).map _ _
  | spanned first rest nonempty free inductionHypothesis =>
      rw [classBodies_spanned nonempty free, List.mem_cons] at member
      rw [expandClassRanges_spanned nonempty free, rewrite_spanned _ nonempty free]
      by_cases early : ']' ∈ members first
      · obtain ⟨front, back, cut, closed⟩ := List.eq_append_cons_of_mem early
        -- The members are cut at the bracket, and what stands before it is still a class.
        have frontNonempty : front ≠ [] := by
          intro none
          have head := CharacterClass.head?_members_ne free
          rw [cut, none] at head
          exact absurd rfl head
        have membersNonempty : members first ≠ [] := List.ne_nil_of_mem early
        have fewer : Call.index front.length ≠ Call.index (members first).length := by
          intro same
          have length := Call.index.inj same
          rw [cut, List.length_append, List.length_cons] at length
          omega
        rw [chooseMember, if_neg membersNonempty, CharacterClass.choose_of_ne_nil membersNonempty]
        rw [cut, List.append_assoc, List.cons_append, rewrite_spanned _ frontNonempty closed,
          CharacterClass.choose_of_ne_nil frontNonempty]
        rw [cut] at fewer
        exact .calls fewer
      -- This class is not the one: both programs ask the same here and part behind it.
      · have later : body ∈ classBodies rest := by
          rcases member with rfl | later
          · exact absurd closes early
          · exact later
        by_cases none : members first = []
        · rw [none, List.nil_append, rewrite_empty, chooseMember, if_pos none]
          rw [pure_bind, ← map_eq_pure_bind]
          exact (inductionHypothesis later).map _ _
        · rw [rewrite_spanned _ none early, chooseMember, if_neg none]
          exact .after _ fun chosen => (inductionHypothesis later).bind _ _

/-- The two passes give the same text and ask the same questions as the one, whatever a lawful
source answers, exactly if no class has a closing bracket among its members. -/
theorem resolveClasses_expandClassRanges_eq_iff (text : Text) :
    (∀ (State : Type) (source : Source State), source.Lawful → ∀ state : State,
      (resolveClasses (expandClassRanges text)).run source.recorded { state } =
        (resolveDirectly text).run source.recorded { state }) ↔
      ∀ body ∈ classBodies text, ']' ∉ members body := by
  constructor
  · intro same body member closes
    have diverges := diverges_of_mem_members member closes
    have runs := same (List Nat) Replay.source Replay.source_permits []
    exact diverges.recorded_ne Replay.source { state := [] } (by rw [runs])
  · intro closed State source _ state
    rw [resolveClasses_expandClassRanges closed]

/-- The range from `A` to `z` runs over the closing bracket: 28 of its 58 characters stand before
it, and those behind it are left in the text. -/
theorem resolve_letterRange :
    let passes := (resolveClasses (expandClassRanges "[A-z]".toList)).run Script.source.recorded
      { state := { values := [0] } }
    let direct := (resolveDirectly "[A-z]".toList).run Script.source.recorded
      { state := { values := [0] } }
    passes.1 = "A^_`abcdefghijklmnopqrstuvwxyz]".toList ∧ passes.2.calls = [(.index 28, 0)] ∧
      direct.1 = "A".toList ∧ direct.2.calls = [(.index 58, 0)] := by
  decide

end RandomCodes.Pattern

import RandomCodes.Draws.Script
import RandomCodes.Proofs.Pattern.Copying
/-!
# Closing brackets that are repeated as characters

Groups are repeated before classes and classes before single characters, so that the closing bracket
of a group or class is not taken for a character. It is taken for one all the same exactly where the
passes leave a quantifier behind a group or a class. There are three ways for this to happen: two
quantifiers behind one bracket, a span inside the bounds of a quantifier, and a parenthesis inside a
class, where classes come to overlap with groups. In texts without these it never happens.
-/

namespace RandomCodes.Pattern

/-- Repeats the groups and then the classes, as is done before the single characters. -/
def repeatBracketed (text : Text) : Draws Text :=
  AtomKind.group.repeatAll text >>= AtomKind.characterClass.repeatAll

theorem repeatQuantified_eq (text : Text) :
    repeatQuantified text = repeatBracketed text >>= AtomKind.single.repeatAll := by
  simp only [repeatQuantified, repeatBracketed, AtomKind.all, List.foldlM_cons, List.foldlM_nil,
    bind_pure, bind_assoc]

/-- A group or a class of the text ends at the place. -/
def EndsSpan (text : Text) (place : Nat) : Prop :=
  ∃ start atom next, next.position = place ∧
    (group.recogniser [')'] (Cursor.at text start) = some (atom, next) ∨
      characterClass.recogniser [']'] (Cursor.at text start) = some (atom, next))

/-- Some single character with a quantifier behind it is the end of a group or a class. -/
def RepeatsCloser (text : Text) : Prop :=
  ∃ front span repetition back,
    AtomKind.single.pieces text = front ++ .found span repetition :: back ∧
      EndsSpan text (front.flatMap Piece.source ++ repetition.atom).length

/-- An opening square bracket with a parenthesis before the next closing one. -/
abbrev Crossing : Grammar Unit :=
  Reaches '[' (fun symbol => symbol ∉ ['(', ')', ']']) ['(', ')']

/-- No bracket has two quantifiers behind it, no span stands inside the bounds of a quantifier, and
no parenthesis inside a class. -/
structure Orderly (text : Text) : Prop where
  groups : Grammar.Absent (Stacked ')') text
  classes : Grammar.Absent (Stacked ']') text
  broken : Grammar.Absent Broken text
  crossing : Grammar.Absent Crossing text

theorem Recogniser.Accepts.absent_iff
    {α : Type} {recogniser : Recogniser α} {grammar : Grammar α}
    (accepts : recogniser.Accepts grammar) {text : Text} :
    grammar.Absent text ↔ ∀ rest ∈ text.tails, recogniser (Cursor.start rest) = none := by
  simp only [Grammar.Absent, List.mem_tails]
  exact forall₂_congr fun rest _ => (accepts.eq_none_iff (Cursor.start rest)).symm

/-- Reads a closing bracket with two quantifiers behind it. -/
def stacked (close : Char) : Recogniser Unit := do
  Recogniser.char close
  let _ ← Quantifier.recogniser
  let _ ← Quantifier.recogniser
  return ()

theorem stacked_accepts (close : Char) : (stacked close).Accepts (Stacked close) := by
  have parts := (Recogniser.char_accepts close).bind fun _ =>
    Quantifier.recogniser_accepts.bind fun _ =>
      Quantifier.recogniser_accepts.bind fun _ => Recogniser.pure_accepts ()
  apply parts.congr
  intro span value
  constructor
  · intro parts
    obtain ⟨_, _, _, rfl, ⟨_, _, _, bounded, behind, rfl⟩, rfl⟩ := parts
    obtain ⟨_, _, _, again, ⟨rfl, _⟩, rfl⟩ := behind
    simpa using Stacked.quantified bounded again
  · intro construct
    obtain ⟨bounded, again⟩ := construct
    exact ⟨[close], (), _, rfl, ⟨_, _, _, bounded,
      ⟨_, _, [], again, ⟨rfl, rfl⟩, (List.append_nil _).symm⟩, rfl⟩, rfl⟩

theorem begins_reaches_iff
    {first : Char} {Between : Char → Prop} [DecidablePred Between] {ends : List Char}
    (outside : ∀ symbol ∈ ends, ¬ Between symbol) {rest : Text} :
    Grammar.Begins (Reaches first Between ends) rest ↔
      rest.head? = some first ∧ (rest.tail.dropWhile (Between ·)).head?.any (· ∈ ends) := by
  constructor
  · intro begins
    obtain ⟨_, _, ⟨inside, between, among⟩, behind, rfl⟩ := begins
    have all : ∀ symbol ∈ inside, decide (Between symbol) = true := by simpa using between
    simp [List.dropWhile_append_of_pos all, outside _ among, among]
  · intro parts
    obtain ⟨head, next⟩ := parts
    obtain ⟨tail, rfl⟩ := List.head?_eq_some_iff.mp head
    have cut := List.takeWhile_append_dropWhile (p := (Between ·)) (l := tail)
    rw [List.tail_cons] at next
    cases dropped : tail.dropWhile (Between ·) with
    | nil => simp [dropped] at next
    | cons last behind =>
        rw [dropped] at cut next
        have between : ∀ symbol ∈ tail.takeWhile (Between ·), Between symbol := fun symbol member =>
          of_decide_eq_true (List.all_eq_true.mp List.all_takeWhile symbol member)
        exact ⟨_, (), .run _ between (of_decide_eq_true next), behind, by simpa using cut⟩

theorem absent_reaches_iff
    {first : Char} {Between : Char → Prop} [DecidablePred Between] {ends : List Char}
    (outside : ∀ symbol ∈ ends, ¬ Between symbol) {text : Text} :
    Grammar.Absent (Reaches first Between ends) text ↔
      ∀ rest ∈ text.tails, ¬ (rest.head? = some first ∧
        (rest.tail.dropWhile (Between ·)).head?.any (· ∈ ends)) := by
  simp only [Grammar.Absent, List.mem_tails, begins_reaches_iff outside]

theorem orderly_iff (text : Text) :
    Orderly text ↔
      Grammar.Absent (Stacked ')') text ∧ Grammar.Absent (Stacked ']') text ∧
        Grammar.Absent Broken text ∧ Grammar.Absent Crossing text :=
  ⟨fun orderly => ⟨orderly.groups, orderly.classes, orderly.broken, orderly.crossing⟩,
    fun parts => ⟨parts.1, parts.2.1, parts.2.2.1, parts.2.2.2⟩⟩

instance (close : Char) (text : Text) : Decidable (Grammar.Absent (Stacked close) text) :=
  decidable_of_iff' _ (stacked_accepts close).absent_iff

instance (text : Text) : Decidable (Grammar.Absent Broken text) :=
  decidable_of_iff' _ (absent_reaches_iff (forall_of_all (by decide)))

instance (text : Text) : Decidable (Grammar.Absent Crossing text) :=
  decidable_of_iff' _ (absent_reaches_iff (forall_of_all (by decide)))

instance (text : Text) : Decidable (Orderly text) :=
  decidable_of_iff' _ (orderly_iff text)

/-- From an opening bracket to the first closing one, with something in between. -/
inductive BracketSpan (opening close : Char) : Grammar Text
  | body (body : Text) (nonempty : body ≠ []) (free : close ∉ body) :
      BracketSpan opening close (opening :: (body ++ [close])) (opening :: (body ++ [close]))

theorem enclosed_accepts (opening close : Char) :
    ((enclosed opening).recogniser [close]).Accepts (BracketSpan opening close) := by
  apply Bracketed.recogniser_accepts
  · intro span atom construct
    obtain ⟨body, nonempty, free⟩ := construct
    refine ⟨body, close, [], forall_not_mem_singleton_iff.mpr free, List.mem_singleton.mpr rfl, rfl, ?_⟩
    intro position after next moves
    exact enclosed_accept_iff.mpr ⟨nonempty, rfl, Cursor.Moves.nil_iff.mp moves⟩
  · intro run final position after atom next free closes accepted
    obtain rfl := List.mem_singleton.mp closes
    obtain ⟨nonempty, rfl, rfl⟩ := enclosed_accept_iff.mp accepted
    exact ⟨[], .body run nonempty (forall_not_mem_singleton_iff.mp free), Cursor.Moves.nil_iff.mpr rfl⟩

/-- A span that is read ends with its closing bracket. -/
theorem exists_eq_of_read
    {opening close : Char} {text atom : Text} {start : Nat} {next : Cursor}
    (read : (enclosed opening).recogniser [close] (Cursor.at text start) = some (atom, next)) :
    ∃ before, text = before ++ close :: text.drop next.position ∧
      next.position = before.length + 1 := by
  obtain ⟨_, ⟨body, _, _⟩, moves⟩ := (enclosed_accepts opening close _ _ _).mp read
  obtain ⟨⟨later, written⟩, rfl⟩ := Cursor.moves_at_iff.mp moves
  have inText : start ≤ text.length := by
    have lengths := congrArg List.length written
    simp only [List.length_append, List.length_cons, List.length_drop] at lengths
    omega
  refine ⟨text.take start ++ opening :: body, ?_, ?_⟩
  · rw [Cursor.at, ← List.drop_drop, ← written, List.drop_left]
    conv_lhs => rw [← List.take_append_drop start text, ← written]
    simp
  · simp only [Cursor.at, List.length_append, List.length_take_of_le inText, List.length_cons,
      List.length_nil]
    omega

/-- Some span has a quantifier if and only if a span is read and a quantifier stands behind it. -/
theorem not_absent_enclosed_iff {opening close : Char} {kind : AtomKind} {text : Text} :
    ¬ Grammar.Absent (EnclosedSpan opening close kind) text ↔
      ∃ start atom next,
        (enclosed opening).recogniser [close] (Cursor.at text start) = some (atom, next) ∧
          Grammar.Begins QuantifierSpan (text.drop next.position) := by
  constructor
  · intro present
    simp only [Grammar.Absent, not_forall, not_not] at present
    obtain ⟨_, suffix, begins⟩ := present
    obtain ⟨body, later, rfl, nonempty, free, quantified⟩ := begins_enclosed_iff.mp begins
    obtain ⟨before, rfl⟩ := suffix
    have written : opening :: (body ++ close :: later) = opening :: (body ++ [close]) ++ later := by
      simp
    refine ⟨before.length, _, _, (enclosed_accepts opening close _ _ _).mpr
      ⟨_, .body body nonempty free, Cursor.moves_at_iff.mpr ⟨⟨later, ?_⟩, rfl⟩⟩, ?_⟩
    · rw [List.drop_left, written]
    · rw [Cursor.at, ← List.drop_drop, List.drop_left, written, List.drop_left]
      exact quantified
  · intro parts absent
    obtain ⟨start, _, _, read, begins⟩ := parts
    obtain ⟨_, ⟨body, nonempty, free⟩, moves⟩ := (enclosed_accepts opening close _ _ _).mp read
    obtain ⟨⟨later, written⟩, rfl⟩ := Cursor.moves_at_iff.mp moves
    rw [Cursor.at, ← List.drop_drop, ← written, List.drop_left] at begins
    refine absent _ (List.drop_suffix start text) (begins_enclosed_iff.mpr ?_)
    exact ⟨body, later, by rw [← written]; simp, nonempty, free, begins⟩

/-- A class has no parentheses inside. -/
theorem not_parenthesis_of_absent_crossing
    {body rest : Text} (crossing : Grammar.Absent Crossing ('[' :: (body ++ ']' :: rest)))
    (free : ']' ∉ body) : ∀ symbol ∈ body, symbol ∉ ['(', ')'] := by
  intro symbol member parenthesis
  have some : (body.find? (· ∈ ['(', ')'])).isSome :=
    List.find?_isSome.mpr ⟨symbol, member, by simpa using parenthesis⟩
  obtain ⟨first, found⟩ := Option.isSome_iff_exists.mp some
  obtain ⟨among, inside, behind, rfl, before⟩ := List.find?_eq_some_iff_append.mp found
  refine crossing _ List.suffix_rfl ⟨_, (), .run inside ?_ (of_decide_eq_true among),
    behind ++ ']' :: rest, by simp⟩
  intro other inBody
  have noParenthesis : other ∉ ['(', ')'] := by simpa using before other inBody
  have noClose : other ≠ ']' := fun same => free (same ▸ List.mem_append_left _ inBody)
  simpa [noClose] using noParenthesis

/-- The copies are made of characters of the span. -/
theorem EnclosedSpan.subset_of_makes
    {opening close : Char} {kind : AtomKind} {span word : Text} {repetition : Repetition}
    (construct : EnclosedSpan opening close kind span repetition) (made : repetition.Makes word) :
    word ⊆ span := by
  obtain ⟨_, bounds, _, rfl⟩ := construct.exists_eq_concat
  obtain ⟨count, rfl⟩ := made
  intro symbol member
  obtain ⟨copy, among, inside⟩ := List.mem_flatten.mp member
  obtain rfl := List.eq_of_mem_replicate among
  exact List.mem_append_left bounds inside

section Classes

variable {text result : Text}

/-- A class that is repeated, and so its copies, have no parentheses. -/
theorem EnclosedSpan.not_parenthesis
    {kind : AtomKind} {span later : Text} {repetition : Repetition}
    (construct : EnclosedSpan '[' ']' kind span repetition)
    (crossing : Grammar.Absent Crossing (span ++ later)) :
    ∀ symbol ∈ span, symbol ∉ ['(', ')'] := by
  obtain ⟨body, _, free, bounded⟩ := construct
  rw [List.cons_append, List.append_assoc, List.cons_append] at crossing
  have inBody := not_parenthesis_of_absent_crossing crossing free
  intro symbol member
  simp only [List.mem_cons, List.mem_append] at member
  rcases member with rfl | inside | rfl | inBounds
  · decide
  · exact inBody symbol inside
  · decide
  · have noBracket := bounded.not_bracket symbol inBounds
    simp only [List.mem_cons, List.not_mem_nil, or_false, not_or] at noBracket ⊢
    exact ⟨noBracket.1, noBracket.2.1⟩

/-- Where the first closing parenthesis of a result is, the text has one, and behind it what
becomes of what stands behind the other. -/
theorem Becomes.closes_round
    (becomes : Repeated '[' ']' .characterClass text result)
    (crossing : Grammar.Absent Crossing text) {body behind : Text} (free : ')' ∉ body)
    (cut : result = body ++ ')' :: behind) :
    ∃ inner later, text = inner ++ ')' :: later ∧ ')' ∉ inner ∧ (body ≠ [] → inner ≠ []) ∧
      Repeated '[' ']' .characterClass later behind := by
  induction becomes generalizing body with
  | nil => simp at cut
  | kept symbol _ further inductionHypothesis =>
      cases body with
      | nil =>
          obtain ⟨rfl, rfl⟩ := List.cons.inj cut
          exact ⟨[], _, rfl, List.not_mem_nil, id, further⟩
      | cons first body =>
          obtain ⟨rfl, others⟩ := List.cons.inj cut
          obtain ⟨noClose, bodyFree⟩ := List.ne_and_not_mem_of_not_mem_cons free
          have laterCrossing := fun rest suffix =>
            crossing rest (List.IsSuffix.trans suffix (List.suffix_cons _ _))
          obtain ⟨inner, later, rfl, innerFree, _, behindBecomes⟩ :=
            inductionHypothesis laterCrossing bodyFree others
          refine ⟨symbol :: inner, later, rfl, ?_, fun _ => List.cons_ne_nil _ _, behindBecomes⟩
          simp [noClose, innerFree]
  | @word span word later laterResult repetition construct made further inductionHypothesis =>
      have spanFree := construct.not_parenthesis crossing
      have wordFree : ')' ∉ word := fun member =>
        spanFree ')' (construct.subset_of_makes made member) (by decide)
      have laterCrossing := fun rest suffix =>
        crossing rest (List.IsSuffix.trans suffix (List.suffix_append span later))
      -- The parenthesis is not in the copies, so they are all in front of it.
      obtain ⟨others, rfl, rest⟩ : ∃ others, body = word ++ others ∧
          laterResult = others ++ ')' :: behind := by
        rcases List.append_eq_append_iff.mp cut with inBody | inWord
        · obtain ⟨others, rfl, rest⟩ := inBody
          exact ⟨others, rfl, rest⟩
        · obtain ⟨others, rfl, rest⟩ := inWord
          cases others with
          | nil => exact ⟨[], by simp, by simpa using rest.symm⟩
          | cons first others =>
              obtain ⟨rfl, _⟩ := List.cons.inj rest
              simp at wordFree
      obtain ⟨inner, unread, rfl, innerFree, _, behindBecomes⟩ :=
        inductionHypothesis laterCrossing (fun member => free (List.mem_append_right word member)) rest
      refine ⟨span ++ inner, unread, by simp, ?_, fun _ => ?_, behindBecomes⟩
      · rw [List.mem_append, not_or]
        exact ⟨fun member => spanFree ')' member (by decide), innerFree⟩
      · cases construct
        simp

/-- Repeating classes leaves no group with a quantifier where there was none before. -/
theorem Becomes.absent_round
    (becomes : Repeated '[' ']' .characterClass text result)
    (sparse : Sparse ']' text) (crossing : Grammar.Absent Crossing text)
    (absent : Grammar.Absent (EnclosedSpan '(' ')' .group) text) :
    Grammar.Absent (EnclosedSpan '(' ')' .group) result := by
  apply becomes.absent (absent [] List.nil_suffix)
  · intro symbol later laterResult suffix _ further begins
    obtain ⟨body, _, written, nonempty, free, bounded⟩ := begins_enclosed_iff.mp begins
    obtain ⟨rfl, cut⟩ := List.cons.inj written.symm
    have laterSuffix := (List.suffix_cons '(' later).trans suffix
    have laterCrossing := fun rest inside => crossing rest (List.IsSuffix.trans inside laterSuffix)
    obtain ⟨inner, unread, rfl, innerFree, inhabited, behindBecomes⟩ :=
      further.closes_round laterCrossing free cut.symm
    have unreadSuffix : unread <:+ text :=
      List.IsSuffix.trans ⟨inner ++ [')'], by simp⟩ laterSuffix
    have quantified :=
      behindBecomes.begins_quantifier .square (sparse.of_suffix unreadSuffix) bounded
    exact absent _ suffix
      (begins_enclosed_iff.mpr ⟨inner, unread, rfl, inhabited nonempty, innerFree, quantified⟩)
  · intro span repetition word later laterResult suffix construct made _ behind
    have spanFree := construct.not_parenthesis fun rest inside => crossing rest (inside.trans suffix)
    apply behind.append
    intro tail nonempty inWord
    obtain ⟨first, others, rfl⟩ := List.exists_cons_of_ne_nil nonempty
    apply not_begins_enclosed_of_head?_ne
    intro opening
    obtain rfl := Option.some.inj opening
    have member := construct.subset_of_makes made (inWord.subset List.mem_cons_self)
    exact spanFree '(' member (by decide)

/-- Repeating the groups of an orderly text brings in none of what is not orderly behind classes. -/
theorem Becomes.sparse_and_absent_crossing
    (becomes : Repeated '(' ')' .group text result)
    (orderly : Orderly text) : Sparse ']' result ∧ Grammar.Absent Crossing result := by
  refine ⟨⟨?_, ?_⟩, ?_⟩
  · exact becomes.absent_stacked .round ⟨orderly.groups, orderly.broken⟩ (by decide) orderly.classes
  · exact becomes.absent_reaches (by decide) (by decide) (by decide) orderly.broken
  · exact becomes.absent_reaches (by decide) (by decide) (by decide) orderly.crossing

/-- After the groups and classes of an orderly text have been repeated, none has a quantifier. -/
theorem absent_of_canReturn_repeatBracketed
    (orderly : Orderly text) (returned : (repeatBracketed text).CanReturn result) :
    Grammar.Absent (EnclosedSpan '(' ')' .group) result ∧
      Grammar.Absent (EnclosedSpan '[' ']' .characterClass) result := by
  obtain ⟨between, groups, classes⟩ := (Draws.canReturn_bind _ _ _).mp returned
  have first : Repeated '(' ')' .group text between :=
    AtomKind.becomes_repeatAll groups
  have second : Repeated '[' ']' .characterClass between result :=
    AtomKind.becomes_repeatAll classes
  have noGroup := first.absent_enclosed .round ⟨orderly.groups, orderly.broken⟩
  obtain ⟨sparse, crossing⟩ := first.sparse_and_absent_crossing orderly
  exact ⟨second.absent_round sparse crossing noGroup, second.absent_enclosed .square sparse⟩

end Classes

/-! ## Where a closing bracket is repeated -/

theorem begins_single_of_bracket
    {bracket : Char} {later : Text} (among : bracket ∈ ['(', ')', '[', ']'])
    (quantified : Grammar.Begins QuantifierSpan later) :
    Grammar.Begins SingleSpan (bracket :: later) := by
  obtain ⟨bounds, quantifier, bounded, stands⟩ := quantified
  have sameLine : bracket ≠ '\n' := by
    rintro rfl
    exact absurd among (by decide)
  exact ⟨_, _, .plain bracket sameLine bounded, (List.prefix_cons_inj bracket).mpr stands⟩

/-- A bracket in a span is the end of its atom. -/
theorem SingleSpan.length_atom
    {span : Text} {repetition : Repetition} (construct : SingleSpan span repetition)
    {before behind : Text} {bracket : Char} (among : bracket ∈ ['(', ')', '[', ']'])
    (cut : span = before ++ bracket :: behind) : repetition.atom.length = before.length + 1 := by
  have outside : ∀ {bounds front : Text} {quantifier : Quantifier},
      QuantifierSpan bounds quantifier → bounds ≠ front ++ bracket :: behind := by
    rintro bounds front quantifier bounded rfl
    exact bounded.not_bracket bracket (List.mem_append_right front List.mem_cons_self) among
  cases construct with
  | plain symbol sameLine bounded =>
      cases before with
      | nil => rfl
      | cons first before => exact absurd (List.cons.inj cut).2 (outside bounded)
  | escaped symbol sameLine bounded =>
      cases before with
      | nil =>
          obtain ⟨rfl, _⟩ := List.cons.inj cut
          exact absurd among (by decide)
      | cons first before =>
          have others := (List.cons.inj cut).2
          cases before with
          | nil => rfl
          | cons second before => exact absurd (List.cons.inj others).2 (outside bounded)

/-- A bracket with a quantifier behind it is the end of an atom, whatever stands in front of it. -/
theorem Splits.exists_found_of_bracket
    {text : Text} {pieces : List (Piece Repetition)} (splits : Splits SingleSpan text pieces)
    {before later : Text} {bracket : Char} (among : bracket ∈ ['(', ')', '[', ']'])
    (cut : text = before ++ bracket :: later) (quantified : Grammar.Begins QuantifierSpan later) :
    ∃ front span repetition back, pieces = front ++ .found span repetition :: back ∧
      (front.flatMap Piece.source ++ repetition.atom).length = before.length + 1 := by
  induction pieces generalizing text before with
  | nil =>
      have source := splits.source.trans cut
      simp at source
  | cons piece rest inductionHypothesis =>
      have source := splits.source.trans cut
      rw [List.flatMap_cons] at source
      have further : ∀ others, before = piece.source ++ others →
          rest.flatMap Piece.source = others ++ bracket :: later →
          ∃ front span repetition back, piece :: rest = front ++ .found span repetition :: back ∧
            (front.flatMap Piece.source ++ repetition.atom).length = before.length + 1 := by
        rintro others rfl behind
        obtain ⟨front, span, repetition, back, rfl, place⟩ := inductionHypothesis splits.tail behind
        refine ⟨piece :: front, span, repetition, back, rfl, ?_⟩
        rw [List.flatMap_cons, List.append_assoc, List.length_append, place, List.length_append,
          Nat.add_assoc]
      rcases List.append_eq_append_iff.mp source with inRest | inPiece
      · obtain ⟨others, written, behind⟩ := inRest
        exact further others written behind
      · obtain ⟨others, written, behind⟩ := inPiece
        cases others with
        | nil => exact further [] (by simpa using written.symm) behind.symm
        | cons symbol others =>
            obtain ⟨rfl, rfl⟩ := List.cons.inj behind
            cases piece with
            | found span repetition =>
                have construct := splits.found span repetition List.mem_cons_self
                exact ⟨[], span, repetition, rest, rfl, construct.length_atom among written⟩
            | copied other =>
                cases before with
                | cons first before => exact absurd (List.cons.inj written).2 (by simp)
                | nil =>
                    obtain ⟨rfl, rfl⟩ := List.cons.inj written
                    exact absurd (begins_single_of_bracket among quantified)
                      (splits.copied [] other rest rfl)

theorem exists_found_of_read
    {opening close : Char} (among : close ∈ ['(', ')', '[', ']'])
    {text atom : Text} {start : Nat} {next : Cursor}
    (read : (enclosed opening).recogniser [close] (Cursor.at text start) = some (atom, next))
    (quantified : Grammar.Begins QuantifierSpan (text.drop next.position)) :
    ∃ front span repetition back,
      AtomKind.single.pieces text = front ++ .found span repetition :: back ∧
        next.position = (front.flatMap Piece.source ++ repetition.atom).length := by
  obtain ⟨before, cut, place⟩ := exists_eq_of_read read
  have splits : Splits SingleSpan text (AtomKind.single.pieces text) :=
    AtomKind.single.agrees.splits_pieces AtomKind.single.recogniser_accepts
      AtomKind.single.span_proper text
  obtain ⟨front, span, repetition, back, pieces, length⟩ :=
    splits.exists_found_of_bracket among cut quantified
  exact ⟨front, span, repetition, back, pieces, place.trans length.symm⟩

/-- A closing bracket is repeated exactly where some group or class still has a quantifier. -/
theorem repeatsCloser_iff {text : Text} :
    RepeatsCloser text ↔
      ¬ (Grammar.Absent (EnclosedSpan '(' ')' .group) text ∧
        Grammar.Absent (EnclosedSpan '[' ']' .characterClass) text) := by
  rw [not_and_or, not_absent_enclosed_iff, not_absent_enclosed_iff]
  constructor
  · intro repeats
    obtain ⟨front, span, repetition, back, cut, start, atom, next, place, read⟩ := repeats
    have composes := AtomKind.single.composes_pieces text
    have construct := composes.found span repetition (by rw [cut]; simp)
    obtain ⟨bounds, bounded, rfl⟩ := AtomKind.span_eq construct
    have written : text = (front.flatMap Piece.source ++ repetition.atom) ++
        (bounds ++ back.flatMap Piece.source) := by
      rw [← composes.source, cut]
      simp [Piece.source]
    have quantified : Grammar.Begins QuantifierSpan (text.drop next.position) := by
      rw [place, written, List.drop_left]
      exact ⟨bounds, _, bounded, List.prefix_append bounds _⟩
    rcases read with group | characterClass
    · exact .inl ⟨start, atom, next, group, quantified⟩
    · exact .inr ⟨start, atom, next, characterClass, quantified⟩
  · intro left
    rcases left with group | characterClass
    · obtain ⟨start, atom, next, read, quantified⟩ := group
      obtain ⟨front, span, repetition, back, pieces, place⟩ :=
        exists_found_of_read (by decide) read quantified
      exact ⟨front, span, repetition, back, pieces, start, atom, next, place, .inl read⟩
    · obtain ⟨start, atom, next, read, quantified⟩ := characterClass
      obtain ⟨front, span, repetition, back, pieces, place⟩ :=
        exists_found_of_read (by decide) read quantified
      exact ⟨front, span, repetition, back, pieces, start, atom, next, place, .inr read⟩

/-- From a lawful source, no single character that is repeated in an orderly text is the end of a
group or a class. -/
theorem not_repeatsCloser_of_orderly
    {State : Type} {source : Source State} (lawful : source.Lawful) (state : State)
    {text : Text} (orderly : Orderly text) :
    ¬ RepeatsCloser ((repeatBracketed text).run source state).1 := by
  rw [repeatsCloser_iff, not_not]
  exact absent_of_canReturn_repeatBracketed orderly
    (Draws.canReturn_run lawful (repeatBracketed text) state)

/-- A group and a class that are repeated, closing brackets that end nothing, and reversed bounds. -/
theorem not_repeatsCloser_unpaired :
    let text := "(a){2,2}[bc]{0,1}){3,1}]{2,2}".toList
    Script.source.Lawful ∧ Orderly text ∧
      ¬ RepeatsCloser ((repeatBracketed text).run Script.source { values := [1] }).1 :=
  ⟨Script.source_lawful, by decide,
    not_repeatsCloser_of_orderly Script.source_lawful _ (by decide)⟩

/-- None of the three conditions can be left out: there are texts that only break one of them, and
of which a closing bracket is repeated. The first becomes `(a)(a)))`. -/
theorem repeatsCloser_disorderly :
    let between (text : Text) := ((repeatBracketed text).run Script.source { values := [1] }).1
    let stacked := "(a){2,2}{3,3}".toList
    let broken := "(a){1(b){0,0},2}".toList
    let crossing := "[b){3,3}(a]{2,2}".toList
    (Grammar.Absent Broken stacked ∧ Grammar.Absent Crossing stacked ∧
        RepeatsCloser (between stacked)) ∧
      (Grammar.Absent (Stacked ')') broken ∧ Grammar.Absent (Stacked ']') broken ∧
        Grammar.Absent Crossing broken ∧ RepeatsCloser (between broken)) ∧
      (Grammar.Absent (Stacked ')') crossing ∧ Grammar.Absent (Stacked ']') crossing ∧
        Grammar.Absent Broken crossing ∧ RepeatsCloser (between crossing)) := by
  refine ⟨⟨by decide, by decide, ?_⟩, ⟨by decide, by decide, by decide, ?_⟩,
    ⟨by decide, by decide, by decide, ?_⟩⟩
  · exact ⟨"(a)(a".toList.map .copied, _, _, [], rfl, 3, "(a)".toList,
      { position := 6, rest := "{3,3}".toList }, rfl, .inl rfl⟩
  · exact ⟨"(a".toList.map .copied, _, _, [], rfl, 0, "(a)".toList,
      { position := 3, rest := "{1,2}".toList }, rfl, .inl rfl⟩
  · let first : Piece Repetition := .found "){3,3}".toList
      { kind := .single, atom := [')'], quantifier := { least := 3, most := 3 } }
    exact ⟨"[b".toList.map .copied ++ first :: "(a][b".toList.map .copied, _, _, _, rfl, 8,
      "(a][b)".toList, { position := 14, rest := "{3,3}(a]".toList }, rfl, .inl rfl⟩

end RandomCodes.Pattern

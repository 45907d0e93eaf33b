import RandomCodes.Proofs.Pattern.Acceptance
import RandomCodes.Proofs.Pattern.ClassEntries
/-!
# Attempts make progress, and passes come to an end

A pass goes on behind what it has read, so it would try for ever at a place where something without
characters is read. No attempt does this: where a span in brackets is read, reading goes on at its
stop or behind it, and the stop is behind the opening whatever the finder has been asked before. A
pass therefore moves on with every try, and has at most one try for each place of the text.
-/

namespace RandomCodes.Pattern

variable {α Memory : Type}

/-- A pass that begins at a cursor comes to an end. It tries the attempt at the places in `tried`,
one after the other, and finds the pieces. Where something is read it goes on behind that, otherwise
it copies one character, until nothing is read behind the last one. -/
inductive Ends (attempt : Attempt Memory α) :
    Cursor → Memory → (tried : List Nat) → List (Piece α) → Prop
  | exhausted {position : Nat} {memory later : Memory}
      (refused : attempt { position, rest := [] } memory = (none, later)) :
      Ends attempt { position, rest := [] } memory [position] []
  | copied {position : Nat} {symbol : Char} {rest : Text} {memory later : Memory}
      {tried : List Nat} {pieces : List (Piece α)}
      (refused : attempt { position, rest := symbol :: rest } memory = (none, later))
      (further : Ends attempt { position := position + 1, rest } later tried pieces) :
      Ends attempt { position, rest := symbol :: rest } memory (position :: tried)
        (.copied symbol :: pieces)
  | found {cursor next : Cursor} {value : α} {memory later : Memory}
      {tried : List Nat} {pieces : List (Piece α)}
      (read : attempt cursor memory = (some (value, next), later))
      (further : Ends attempt next later tried pieces) :
      Ends attempt cursor memory (cursor.position :: tried)
        (.found (cursor.textTo next) value :: pieces)

theorem pieces.go_of_read
    {attempt : Attempt Memory α} {cursor next : Cursor} {memory later : Memory} {value : α}
    (read : attempt cursor memory = (some (value, next), later)) {span : Text}
    (nonempty : span ≠ []) (moves : cursor.Moves span next) :
    pieces.go attempt memory cursor.position 0 [] cursor.rest =
      .found (cursor.textTo next) value ::
        pieces.go attempt later next.position 0 [] next.rest := by
  obtain ⟨position, rest⟩ := cursor
  obtain ⟨symbol, others, rfl⟩ := List.exists_cons_of_ne_nil nonempty
  obtain rfl : rest = symbol :: (others ++ next.rest) := moves.text
  have place : next.position = position + (others.length + 1) := moves.place
  have skipped : next.position - (position + 1) = others.length := by omega
  have behind : position + 1 + others.length = next.position := by omega
  rw [pieces.go]
  simp only [read]
  rw [pieces.go_eq, pieces.go_skip, skipped, behind, List.drop_left]
  rfl

theorem pieces.go_of_refused
    {attempt : Attempt Memory α} {position : Nat} {symbol : Char} {rest : Text}
    {memory later : Memory}
    (refused : attempt { position, rest := symbol :: rest } memory = (none, later)) :
    pieces.go attempt memory position 0 [] (symbol :: rest) =
      .copied symbol :: pieces.go attempt later (position + 1) 0 [] rest := by
  rw [pieces.go]
  simp only [refused]
  rw [pieces.go_eq]
  rfl

/-- A pass that comes to an end does so in one way. -/
theorem Ends.unique
    {attempt : Attempt Memory α} {cursor : Cursor} {memory : Memory}
    {tried others : List Nat} {pieces otherPieces : List (Piece α)}
    (ends : Ends attempt cursor memory tried pieces)
    (otherwise : Ends attempt cursor memory others otherPieces) :
    others = tried ∧ otherPieces = pieces := by
  induction ends generalizing others otherPieces with
  | exhausted refused =>
      cases otherwise with
      | exhausted => exact ⟨rfl, rfl⟩
      | found read _ =>
          rw [refused] at read
          cases read
  | copied refused _ inductionHypothesis =>
      cases otherwise with
      | copied again further =>
          rw [refused] at again
          obtain ⟨_, rfl⟩ := Prod.mk.inj again
          obtain ⟨sameTried, samePieces⟩ := inductionHypothesis further
          rw [sameTried, samePieces]
          exact ⟨rfl, rfl⟩
      | found read _ =>
          rw [refused] at read
          cases read
  | found read _ inductionHypothesis =>
      cases otherwise with
      | exhausted refused =>
          rw [read] at refused
          cases refused
      | copied refused _ =>
          rw [read] at refused
          cases refused
      | found again further =>
          rw [read] at again
          obtain ⟨same, rfl⟩ := Prod.mk.inj again
          obtain ⟨rfl, rfl⟩ := Prod.mk.inj (Option.some.inj same)
          obtain ⟨sameTried, samePieces⟩ := inductionHypothesis further
          rw [sameTried, samePieces]
          exact ⟨rfl, rfl⟩

/-- Places from `first` to `last`, each behind the one before it. -/
structure GoesForward (first last : Nat) (places : List Nat) : Prop where
  increasing : places.Pairwise (· < ·)
  within : ∀ place ∈ places, first ≤ place ∧ place ≤ last

namespace GoesForward

variable {first last place : Nat} {places : List Nat}

theorem singleton (place : Nat) : GoesForward place place [place] where
  increasing := List.pairwise_singleton _ _
  within := by simp

theorem cons
    (goes : GoesForward first last places) (before : place < first) (notBehind : place ≤ last) :
    GoesForward place last (place :: places) where
  increasing := by
    apply List.pairwise_cons.mpr
    constructor
    · intro other member
      exact Nat.lt_of_lt_of_le before (goes.within other member).1
    · exact goes.increasing
  within := by
    intro other member
    rcases List.mem_cons.mp member with same | later
    · omega
    · have bounds := goes.within other later
      omega

theorem length_le (goes : GoesForward first last places) :
    places.length ≤ last + 1 - first := by
  induction places generalizing first with
  | nil => exact Nat.zero_le _
  | cons place others inductionHypothesis =>
      obtain ⟨ahead, ordered⟩ := List.pairwise_cons.mp goes.increasing
      have behind : GoesForward (place + 1) last others := by
        refine ⟨ordered, ?_⟩
        intro other member
        exact ⟨ahead other member, (goes.within other (List.mem_cons_of_mem place member)).2⟩
      have few := inductionHypothesis behind
      have bounds := goes.within place List.mem_cons_self
      rw [List.length_cons]
      omega

end GoesForward

/-- The pass over a text comes to an end, in one way and with the pieces of the text, and no place is
tried again. -/
def Attempt.Finishes (attempt : Attempt Memory α) (memory : Memory) (text : Text) : Prop :=
  ∃ places : List Nat, places.Pairwise (· < ·) ∧ places.length ≤ text.length + 1 ∧
    ∀ tried found, Ends attempt (Cursor.start text) memory tried found ↔
      tried = places ∧ found = pieces attempt memory text

/-! ## Progress of attempts -/

/-- What is read has characters, and reading goes on behind them. -/
def Recogniser.Consumes (recogniser : Recogniser α) : Prop :=
  ∀ cursor value next, recogniser cursor = some (value, next) →
    ∃ span, span ≠ [] ∧ cursor.Moves span next

theorem Recogniser.Accepts.consumes
    {recogniser : Recogniser α} {grammar : Grammar α} (accepts : recogniser.Accepts grammar)
    (proper : grammar.Proper) : recogniser.Consumes := by
  intro cursor value next read
  obtain ⟨span, construct, moves⟩ := (accepts cursor value next).mp read
  exact ⟨span, proper span value construct, moves⟩

namespace Attempt

/-- With anything that can have been kept from earlier, what is read has characters and reading goes
on behind them, and what is kept then is such a thing again. -/
structure Progresses (attempt : Attempt Memory α) (Kept : Text → Memory → Prop) : Prop where
  consumes : ∀ text memory, Kept text memory → ∀ position value next,
    (attempt (Cursor.at text position) memory).1 = some (value, next) →
      ∃ span, span ≠ [] ∧ (Cursor.at text position).Moves span next
  keeps : ∀ text memory, Kept text memory → ∀ position,
    Kept text (attempt (Cursor.at text position) memory).2

variable {attempt : Attempt Memory α} {Kept : Text → Memory → Prop}

theorem Progresses.exists_ends
    (progresses : attempt.Progresses Kept) {text : Text} {memory : Memory}
    (kept : Kept text memory) {position : Nat} (inside : position ≤ text.length) :
    ∃ places, GoesForward position text.length places ∧
      Ends attempt (Cursor.at text position) memory places
        (pieces.go attempt memory position 0 [] (text.drop position)) := by
  -- What is read can be long, so the induction is on the number of characters that are left.
  induction size : text.length - position using Nat.strong_induction_on
    generalizing position memory with
  | _ size inductionHypothesis =>
  subst size
  have consumes := progresses.consumes text memory kept position
  have keeps := progresses.keeps text memory kept position
  cases attempted : attempt (Cursor.at text position) memory with
  | mk result later =>
  rw [attempted] at consumes keeps
  cases result with
  | some found =>
      obtain ⟨value, next⟩ := found
      obtain ⟨span, nonempty, moves⟩ := consumes value next rfl
      have positive := List.length_pos_iff.mpr nonempty
      obtain ⟨⟨behind, front⟩, same⟩ := Cursor.moves_at_iff.mp moves
      have enough : position + span.length ≤ text.length := by
        have lengths := congrArg List.length front
        rw [List.length_append, List.length_drop] at lengths
        omega
      obtain ⟨places, goes, ends⟩ :=
        inductionHypothesis _ (by omega) keeps enough rfl
      have made := pieces.go_of_read attempted nonempty moves
      rw [same] at attempted made
      rw [Cursor.at] at made
      rw [made]
      exact ⟨position :: places, goes.cons (by omega) inside, .found attempted ends⟩
  | none =>
      cases rest : text.drop position with
      | nil =>
          have last : text.length ≤ position := List.drop_eq_nil_iff.mp rest
          have place : position = text.length := Nat.le_antisymm inside last
          rw [Cursor.at, rest] at attempted ⊢
          rw [← place]
          exact ⟨[position], .singleton position, .exhausted attempted⟩
      | cons symbol behind =>
          have next : text.drop (position + 1) = behind := by
            rw [← List.drop_drop, rest, List.drop_succ_cons, List.drop_zero]
          have enough : position + 1 ≤ text.length := by
            have lengths := congrArg List.length rest
            rw [List.length_drop, List.length_cons] at lengths
            omega
          obtain ⟨places, goes, ends⟩ :=
            inductionHypothesis _ (by omega) keeps enough rfl
          rw [Cursor.at, next] at ends
          rw [Cursor.at, rest] at attempted ⊢
          rw [pieces.go_of_refused attempted]
          exact ⟨position :: places, goes.cons (Nat.lt_succ_self position) inside,
            .copied attempted ends⟩

theorem Progresses.finishes
    (progresses : attempt.Progresses Kept) {text : Text} {memory : Memory}
    (kept : Kept text memory) : attempt.Finishes memory text := by
  obtain ⟨places, goes, ends⟩ := progresses.exists_ends kept (Nat.zero_le text.length)
  refine ⟨places, goes.increasing, goes.length_le, ?_⟩
  intro tried found
  constructor
  · intro otherwise
    exact ends.unique otherwise
  · intro same
    rw [same.1, same.2]
    exact ends

end Attempt

theorem Recogniser.Consumes.progresses
    {recogniser : Recogniser α} (consumes : recogniser.Consumes) :
    recogniser.attempt.Progresses fun _ _ => True where
  consumes text _ _ position value next read := consumes (Cursor.at text position) value next read
  keeps _ _ _ _ := trivial

/-- The finders that a text and some stops can lead to: a new one, and what any question about any
place of the text makes of one. -/
inductive StopFinder.Consulted (stops : List Char) (text : Text) : StopFinder → Prop
  | unused : Consulted stops text { stops }
  | asked {finder : StopFinder} (position : Nat) (earlier : Consulted stops text finder) :
      Consulted stops text (finder.find (Cursor.at text position)).2

theorem StopFinder.Consulted.fits
    {stops : List Char} {text : Text} {finder : StopFinder}
    (consulted : Consulted stops text finder) : finder.stops = stops ∧ finder.Fits text := by
  induction consulted with
  | unused => exact ⟨rfl, fits_of_unused text stops⟩
  | asked position _ inductionHypothesis =>
      obtain ⟨_, kept, fits⟩ := find_spec inductionHypothesis.2 position
      exact ⟨kept.trans inductionHypothesis.1, fits⟩

namespace Bracketed

/-- Behind a span that is accepted, reading goes on at its stop or further on. -/
def GoesOn (bracketed : Bracketed α) : Prop :=
  ∀ body stop value next, bracketed.accept body stop = some (value, next) →
    ∃ back, stop.next.Moves back next

variable {bracketed : Bracketed α}

theorem GoesOn.consumes (goesOn : bracketed.GoesOn) (stops : List Char) :
    (bracketed.recogniser stops).Consumes := by
  intro cursor value next read
  obtain ⟨position, rest⟩ := cursor
  obtain ⟨run, close, after, free, closes, cut⟩ := rest_of_recogniser_eq_some read
  obtain rfl : rest = bracketed.opening :: (run ++ close :: after) := cut
  rw [recogniser_span free closes] at read
  obtain ⟨back, moves⟩ := goesOn _ _ _ _ read
  have front : Cursor.Moves { position, rest := bracketed.opening :: (run ++ close :: after) }
      (bracketed.opening :: (run ++ [close]))
      { position := position + 1 + run.length + 1, rest := after } := by
    constructor
    · rw [List.cons_append, List.append_assoc, List.singleton_append]
    · simp only [List.length_cons, List.length_append, List.length_nil]
      omega
  exact ⟨_, List.cons_ne_nil _ _, front.append moves⟩

theorem GoesOn.progresses (goesOn : bracketed.GoesOn) (stops : List Char) :
    bracketed.attempt.Progresses (StopFinder.Consulted stops) where
  consumes text finder consulted position value next read := by
    rw [(attempt_at consulted.fits.2 position).1] at read
    exact goesOn.consumes finder.stops (Cursor.at text position) value next read
  keeps text finder consulted position := by
    rw [attempt]
    cases opened : Recogniser.char bracketed.opening (Cursor.at text position) with
    | none => exact consulted
    | some result =>
        obtain ⟨_, body⟩ := result
        obtain ⟨_, rfl, moves⟩ := (Recogniser.char_accepts _ _ _ _).mp opened
        obtain rfl := (Cursor.moves_at_iff.mp moves).2
        exact .asked (position + 1) consulted

end Bracketed

theorem enclosed_goesOn (opening : Char) : (enclosed opening).GoesOn := by
  intro body stop atom next accepted
  simp only [enclosed] at accepted
  split at accepted
  · cases accepted
  · obtain ⟨_, rfl⟩ := Prod.mk.inj (Option.some.inj accepted)
    exact ⟨[], Cursor.Moves.nil_iff.mpr rfl⟩

theorem Bracketed.repeated_goesOn (bracketed : Bracketed Text) (kind : AtomKind) :
    (bracketed.repeated kind).GoesOn := by
  intro body stop repetition next accepted
  obtain ⟨⟨quantifier, behind⟩, quantified, accepted⟩ := Option.bind_eq_some_iff.mp accepted
  obtain ⟨_, _, accepted⟩ := Option.bind_eq_some_iff.mp accepted
  obtain ⟨_, rfl⟩ := Prod.mk.inj (Option.some.inj accepted)
  obtain ⟨bounds, _, moves⟩ := (Quantifier.recogniser_accepts _ _ _).mp quantified
  exact ⟨bounds, moves⟩

theorem classBody_goesOn : CharacterClass.body.GoesOn := by
  intro body stop inside next accepted
  simp only [CharacterClass.body] at accepted
  split at accepted
  · cases accepted
  · obtain ⟨_, rfl⟩ := Prod.mk.inj (Option.some.inj accepted)
    exact ⟨[], Cursor.Moves.nil_iff.mpr rfl⟩

theorem alternationBody_goesOn : Alternation.body.GoesOn := by
  intro body stop inside next accepted
  simp only [Alternation.body] at accepted
  split at accepted
  · obtain ⟨_, rfl⟩ := Prod.mk.inj (Option.some.inj accepted)
    exact ⟨[], Cursor.Moves.nil_iff.mpr rfl⟩
  · cases accepted

theorem AtomKind.progresses (kind : AtomKind) (stops : List Char) :
    kind.attempt.Progresses (StopFinder.Consulted stops) := by
  cases kind with
  | group => exact (Pattern.group.repeated_goesOn .group).progresses stops
  | characterClass => exact (Pattern.characterClass.repeated_goesOn .characterClass).progresses stops
  | single =>
      have consumes := repeatedSingle_accepts.consumes AtomKind.single.span_proper
      exact
        { consumes := fun text _ _ position value next read =>
            consumes (Cursor.at text position) value next read
          keeps := fun _ _ consulted _ => consulted }

/-- Reading values one behind the other comes to an end, at the first place where none is read. -/
inductive ReadsUp (recogniser : Recogniser α) : Cursor → (tried : List Nat) → List α → Prop
  | refused {cursor : Cursor} (refused : recogniser cursor = none) :
      ReadsUp recogniser cursor [cursor.position] []
  | read {cursor next : Cursor} {value : α} {tried : List Nat} {values : List α}
      (read : recogniser cursor = some (value, next))
      (further : ReadsUp recogniser next tried values) :
      ReadsUp recogniser cursor (cursor.position :: tried) (value :: values)

theorem ReadsUp.unique
    {recogniser : Recogniser α} {cursor : Cursor} {tried others : List Nat}
    {values otherValues : List α} (reads : ReadsUp recogniser cursor tried values)
    (otherwise : ReadsUp recogniser cursor others otherValues) :
    others = tried ∧ otherValues = values := by
  induction reads generalizing others otherValues with
  | refused refused =>
      cases otherwise with
      | refused => exact ⟨rfl, rfl⟩
      | read read _ =>
          rw [refused] at read
          cases read
  | read read _ inductionHypothesis =>
      cases otherwise with
      | refused refused =>
          rw [read] at refused
          cases refused
      | read again further =>
          rw [read] at again
          obtain ⟨rfl, rfl⟩ := Prod.mk.inj (Option.some.inj again)
          obtain ⟨sameTried, sameValues⟩ := inductionHypothesis further
          rw [sameTried, sameValues]
          exact ⟨rfl, rfl⟩

/-- A pass that never copies a character reads values up to the end. -/
theorem Ends.readsUp
    {recogniser : Recogniser α}
    (reads : ∀ position symbol rest, recogniser { position, rest := symbol :: rest } ≠ none)
    {cursor : Cursor} {memory : Unit} {tried : List Nat} {pieces : List (Piece α)}
    (ends : Ends recogniser.attempt cursor memory tried pieces) :
    ReadsUp recogniser cursor tried (pieces.filterMap Piece.value?) := by
  induction ends with
  | exhausted refused => exact .refused (Prod.mk.inj refused).1
  | copied refused _ _ => exact absurd (Prod.mk.inj refused).1 (reads _ _ _)
  | found read _ inductionHypothesis => exact .read (Prod.mk.inj read).1 inductionHypothesis

namespace CharacterClass

theorem element_ne_none (position : Nat) (symbol : Char) (rest : Text) :
    element { position, rest := symbol :: rest } ≠ none := by
  simp only [element]
  split
  · contradiction
  · split
    · exact Option.some_ne_none _
    · exact Option.some_ne_none _
  · exact Option.some_ne_none _

theorem element_consumes : Recogniser.Consumes element := by
  intro cursor entry next read
  obtain ⟨position, rest⟩ := cursor
  simp only [element] at read
  split at read
  · cases read
  · rename_i low high rest
    split at read
    · obtain ⟨_, rfl⟩ := Prod.mk.inj (Option.some.inj read)
      exact ⟨[low, '-', high], List.cons_ne_nil _ _, rfl, rfl⟩
    · obtain ⟨_, rfl⟩ := Prod.mk.inj (Option.some.inj read)
      exact ⟨[low], List.cons_ne_nil _ _, rfl, rfl⟩
  · rename_i symbol rest _
    obtain ⟨_, rfl⟩ := Prod.mk.inj (Option.some.inj read)
    exact ⟨[symbol], List.cons_ne_nil _ _, rfl, rfl⟩

/-- The entries of a body are read in one way, and no place of the body is tried again. -/
theorem readsUp_elements (body : Text) :
    ∃ places : List Nat, places.Pairwise (· < ·) ∧ places.length ≤ body.length + 1 ∧
      ∀ tried entries, ReadsUp element (Cursor.start body) tried entries ↔
        tried = places ∧ entries = elements body := by
  have finishes : Attempt.Finishes (Recogniser.attempt element) () body :=
    element_consumes.progresses.finishes trivial
  obtain ⟨places, increasing, few, ends⟩ := finishes
  have reads := ((ends places _).mpr ⟨rfl, rfl⟩).readsUp element_ne_none
  refine ⟨places, increasing, few, ?_⟩
  intro tried entries
  constructor
  · intro otherwise
    exact reads.unique otherwise
  · intro same
    rw [same.1, same.2]
    exact reads

end CharacterClass

/-- Whatever has been kept from earlier, an attempt makes progress where it reads something, and its
passes come to an end. -/
structure Attempt.Advances (attempt : Attempt Memory α) (Kept : Text → Memory → Prop) : Prop
    extends Progresses attempt Kept where
  finishes : ∀ text memory, Kept text memory → attempt.Finishes memory text

theorem Attempt.Progresses.advances
    {attempt : Attempt Memory α} {Kept : Text → Memory → Prop}
    (progresses : attempt.Progresses Kept) : attempt.Advances Kept where
  toProgresses := progresses
  finishes _ _ kept := progresses.finishes kept

/-- Every recogniser makes progress where it reads something, and its passes come to an end: the
counts and quantifiers, the entries of a class and the shorthands, and the spans and atoms whose end
is searched for, with any stops and after any searches in the same text. So does reading the entries
of a class up to the end. -/
theorem attempts_advance :
    (fixedCount.attempt.Advances fun _ _ => True) ∧
      (Quantifier.recogniser.attempt.Advances fun _ _ => True) ∧
      (CharacterClass.element.attempt.Advances fun _ _ => True) ∧
      (∀ symbol, (Shorthand.recogniser symbol).attempt.Advances fun _ _ => True) ∧
      (∀ stops, group.attempt.Advances (StopFinder.Consulted stops)) ∧
      (∀ stops, characterClass.attempt.Advances (StopFinder.Consulted stops)) ∧
      (∀ stops, CharacterClass.body.attempt.Advances (StopFinder.Consulted stops)) ∧
      (∀ stops, Alternation.body.attempt.Advances (StopFinder.Consulted stops)) ∧
      (∀ (kind : AtomKind) stops, kind.attempt.Advances (StopFinder.Consulted stops)) ∧
      ∀ body, ∃ places : List Nat, places.Pairwise (· < ·) ∧ places.length ≤ body.length + 1 ∧
        ∀ tried entries, ReadsUp CharacterClass.element (Cursor.start body) tried entries ↔
          tried = places ∧ entries = CharacterClass.elements body := by
  have counts := fixedCount_accepts.consumes countSpan_proper
  have quantifiers := Quantifier.recogniser_accepts.consumes quantifierSpan_proper
  have shorthands := fun symbol => (shorthand_accepts symbol).consumes (shorthandSpan_proper symbol)
  refine ⟨counts.progresses.advances, quantifiers.progresses.advances,
    CharacterClass.element_consumes.progresses.advances, ?_, ?_, ?_, ?_, ?_, ?_,
    CharacterClass.readsUp_elements⟩
  · intro symbol
    exact (shorthands symbol).progresses.advances
  · intro stops
    exact ((enclosed_goesOn '(').progresses stops).advances
  · intro stops
    exact ((enclosed_goesOn '[').progresses stops).advances
  · intro stops
    exact (classBody_goesOn.progresses stops).advances
  · intro stops
    exact (alternationBody_goesOn.progresses stops).advances
  · intro kind stops
    exact (kind.progresses stops).advances

end RandomCodes.Pattern

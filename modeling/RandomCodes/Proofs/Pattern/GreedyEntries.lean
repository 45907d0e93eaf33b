import RandomCodes.Proofs.Pattern.ClassEntries
/-!
# The one way to read the body of a class

A body can often be cut into ranges and single characters in several ways: a dash may stand at the
end, twice, or behind a range that has just been read. Read from the left, a range is taken wherever
one begins. This leaves one way to cut the body, the entries written one behind the other are the
body again, and each of its characters belongs to one entry.
-/

namespace RandomCodes.Pattern.CharacterClass

/-- A letter or digit of ASCII, or the underscore. -/
def CanBound (symbol : Char) : Prop :=
  '0' ≤ symbol ∧ symbol ≤ '9' ∨ 'A' ≤ symbol ∧ symbol ≤ 'Z' ∨
    'a' ≤ symbol ∧ symbol ≤ 'z' ∨ symbol = '_'

instance (symbol : Char) : Decidable (CanBound symbol) :=
  inferInstanceAs (Decidable (_ ∨ _))

theorem isWord_iff {symbol : Char} : isWord symbol ↔ CanBound symbol := by
  have spelled : isWord symbol =
      (symbol.isUpper || symbol.isLower || symbol.isDigit || symbol == '_') := rfl
  have upper : symbol.isUpper ↔ 'A' ≤ symbol ∧ symbol ≤ 'Z' := decide_eq_true_iff
  have lower : symbol.isLower ↔ 'a' ≤ symbol ∧ symbol ≤ 'z' :=
    Bool.and_eq_true_iff.trans (and_congr decide_eq_true_iff decide_eq_true_iff)
  have digit : symbol.isDigit ↔ '0' ≤ symbol ∧ symbol ≤ '9' :=
    Bool.and_eq_true_iff.trans (and_congr decide_eq_true_iff decide_eq_true_iff)
  rw [spelled, CanBound, Bool.or_eq_true, Bool.or_eq_true, Bool.or_eq_true, upper, lower, digit,
    beq_iff_eq]
  constructor
  · intro word
    rcases word with ((upper | lower) | digit) | underscore
    · exact .inr (.inl upper)
    · exact .inr (.inr (.inl lower))
    · exact .inl digit
    · exact .inr (.inr (.inr underscore))
  · intro bounds
    rcases bounds with digit | upper | lower | underscore
    · exact .inl (.inr digit)
    · exact .inl (.inl (.inl upper))
    · exact .inl (.inl (.inr lower))
    · exact .inr underscore

theorem CanBound.ne_dash {symbol : Char} (bounds : CanBound symbol) : symbol ≠ '-' := by
  intro dash
  rw [dash] at bounds
  exact absurd bounds (by decide)

/-- Two characters that can bound a range, and a dash between them. -/
inductive RangeSpan : Grammar Element
  | dashed {low high : Char} (lowBounds : CanBound low) (highBounds : CanBound high) :
      RangeSpan [low, '-', high] (.range low high)

theorem begins_range_iff {text : Text} :
    Grammar.Begins RangeSpan text ↔
      ∃ low high rest, text = low :: '-' :: high :: rest ∧ CanBound low ∧ CanBound high := by
  constructor
  · intro begins
    obtain ⟨span, entry, construct, rest, within⟩ := begins
    cases construct with
    | dashed lowBounds highBounds => exact ⟨_, _, rest, within.symm, lowBounds, highBounds⟩
  · intro stands
    obtain ⟨low, high, rest, written, lowBounds, highBounds⟩ := stands
    exact ⟨[low, '-', high], .range low high, .dashed lowBounds highBounds, rest, written.symm⟩

theorem rangeSpan_proper : Grammar.Proper RangeSpan := by
  intro span entry construct
  cases construct
  exact List.cons_ne_nil _ _

/-- Reads a range, and no single character. -/
def rangeReader : Reader Element
  | low :: '-' :: high :: _ =>
      if CanBound low ∧ CanBound high then some (.range low high, 3) else none
  | _ => none

theorem rangeReader_obeys : rangeReader.Obeys RangeSpan := by
  intro text entry length
  constructor
  · intro read
    unfold rangeReader at read
    split at read
    · rename_i low high rest
      split at read
      · rename_i bounds
        obtain ⟨rfl, rfl⟩ := Prod.mk.inj (Option.some.inj read)
        exact ⟨[low, '-', high], .dashed bounds.1 bounds.2, ⟨rest, rfl⟩, rfl⟩
      · cases read
    · cases read
  · intro stands
    obtain ⟨span, construct, ⟨rest, rfl⟩, rfl⟩ := stands
    cases construct with
    | dashed lowBounds highBounds => exact if_pos ⟨lowBounds, highBounds⟩

/-- An entry as a part of the body: a range is a construct, and a single character is not. -/
def Element.piece : Element → Piece Element
  | literal symbol => .copied symbol
  | range low high => .found [low, '-', high] (.range low high)

theorem Element.source_piece (entry : Element) : entry.piece.source = entry.text := by
  cases entry with
  | literal symbol => rfl
  | range low high => rfl

theorem Element.piece_injective : Function.Injective Element.piece := by
  intro entry other same
  cases entry with
  | literal symbol =>
      cases other with
      | literal otherSymbol => exact congrArg Element.literal (Piece.copied.inj same)
      | range low high => cases same
  | range low high =>
      cases other with
      | literal otherSymbol => cases same
      | range otherLow otherHigh => exact (Piece.found.inj same).2

theorem source_pieces (entries : List Element) :
    (entries.map Element.piece).flatMap Piece.source = entries.flatMap Element.text := by
  rw [List.flatMap_map]
  simp only [Element.source_piece]

/-- Cut so that no single character is the first of a range, the body has the parts that its entries
are. -/
theorem eq_map_elements_of_splits
    {body : Text} {parts : List (Piece Element)} (splits : Splits RangeSpan body parts) :
    parts = (elements body).map Element.piece := by
  induction parts generalizing body with
  | nil =>
      have empty : [] = body := splits.source
      rw [← empty, elements_nil, List.map_nil]
  | cons part others inductionHypothesis =>
      have behind := inductionHypothesis splits.tail
      rw [← splits.source, List.flatMap_cons]
      cases part with
      | copied symbol =>
          have outside := splits.copied [] symbol others rfl
          have alone : ∀ high rest, others.flatMap Piece.source = '-' :: high :: rest →
              ¬(isWord symbol ∧ isWord high) := by
            intro high rest dash words
            rw [begins_range_iff, dash] at outside
            exact outside ⟨symbol, high, rest, rfl, isWord_iff.mp words.1, isWord_iff.mp words.2⟩
          rw [Piece.source, List.singleton_append, elements_literal alone, List.map_cons, ← behind,
            Element.piece]
      | found span entry =>
          have construct := splits.found span entry List.mem_cons_self
          cases construct with
          | dashed lowBounds highBounds =>
              have entries := elements_range (isWord_iff.mpr lowBounds) (isWord_iff.mpr highBounds)
                (others.flatMap Piece.source)
              rw [Piece.source, List.cons_append, List.cons_append, List.singleton_append, entries,
                List.map_cons, ← behind, Element.piece]

theorem splits_elements (body : Text) :
    Splits RangeSpan body ((elements body).map Element.piece) := by
  have splits := rangeReader_obeys.splits_pieces rangeSpan_proper body
  rw [eq_map_elements_of_splits splits] at splits
  exact splits

theorem flatMap_text_elements (body : Text) : (elements body).flatMap Element.text = body := by
  rw [← source_pieces]
  exact (splits_elements body).source

/-- The number of characters in front of the entry number `index`. -/
def start (entries : List Element) (index : Nat) : Nat :=
  ((entries.take index).flatMap Element.text).length

theorem start_zero (entries : List Element) : start entries 0 = 0 := rfl

theorem start_cons_succ (entry : Element) (others : List Element) (index : Nat) :
    start (entry :: others) (index + 1) = entry.text.length + start others index := by
  rw [start, List.take_succ_cons, List.flatMap_cons, List.length_append, start]

/-- Entries do not overlap. -/
theorem start_add_length_le
    {entries : List Element} {index other : Nat} {entry : Element} (before : index < other)
    (stands : entries[index]? = some entry) :
    start entries index + entry.text.length ≤ start entries other := by
  induction entries generalizing index other with
  | nil => cases stands
  | cons first others inductionHypothesis =>
      obtain ⟨other, rfl⟩ := Nat.exists_eq_succ_of_ne_zero (Nat.ne_of_gt (Nat.zero_lt_of_lt before))
      cases index with
      | zero =>
          have same : first = entry := Option.some.inj stands
          rw [start_cons_succ, start_zero, same]
          omega
      | succ index =>
          have behind := inductionHypothesis (Nat.lt_of_succ_lt_succ before) stands
          rw [start_cons_succ, start_cons_succ]
          omega

/-- The character at a place of the body is the one number `offset` of the entry number `index`. -/
def Accounts
    (entries : List Element) (place : Nat) (symbol : Char) (index offset : Nat) : Prop :=
  ∃ entry, entries[index]? = some entry ∧ entry.text[offset]? = some symbol ∧
    start entries index + offset = place

theorem exists_accounts
    {entries : List Element} {place : Nat} {symbol : Char}
    (stands : (entries.flatMap Element.text)[place]? = some symbol) :
    ∃ index offset, Accounts entries place symbol index offset := by
  induction entries generalizing place with
  | nil => cases stands
  | cons entry others inductionHypothesis =>
      rw [List.flatMap_cons] at stands
      by_cases inside : place < entry.text.length
      · rw [List.getElem?_append_left inside] at stands
        exact ⟨0, place, entry, rfl, stands, by rw [start_zero, Nat.zero_add]⟩
      · rw [List.getElem?_append_right (Nat.le_of_not_lt inside)] at stands
        obtain ⟨index, offset, found, among, character, placed⟩ := inductionHypothesis stands
        refine ⟨index + 1, offset, found, among, character, ?_⟩
        rw [start_cons_succ]
        omega

section Accounts

variable {entries : List Element} {place index offset other : Nat} {symbol : Char}

theorem Accounts.index_le
    {otherOffset : Nat} (accounts : Accounts entries place symbol index offset)
    (others : Accounts entries place symbol other otherOffset) : index ≤ other := by
  by_contra before
  obtain ⟨entry, stands, character, otherPlaced⟩ := others
  obtain ⟨_, _, _, placed⟩ := accounts
  have apart := start_add_length_le (Nat.lt_of_not_le before) stands
  have inside := (List.getElem?_eq_some_iff.mp character).1
  omega

theorem Accounts.unique
    {otherOffset : Nat} (accounts : Accounts entries place symbol index offset)
    (others : Accounts entries place symbol other otherOffset) :
    index = other ∧ offset = otherOffset := by
  have same : index = other :=
    Nat.le_antisymm (accounts.index_le others) (others.index_le accounts)
  obtain ⟨_, _, _, placed⟩ := accounts
  obtain ⟨_, _, _, otherPlaced⟩ := others
  rw [same] at placed
  exact ⟨same, by omega⟩

theorem accounts_dash_literal
    (stands : entries[index]? = some (.literal '-')) (placed : start entries index = place) :
    Accounts entries place '-' index 0 :=
  ⟨.literal '-', stands, rfl, placed⟩

theorem accounts_dash_range
    {low high : Char} (stands : entries[index]? = some (.range low high))
    (placed : start entries index + 1 = place) : Accounts entries place '-' index 1 :=
  ⟨.range low high, stands, rfl, placed⟩

/-- A dash is an entry of its own or the middle of a range, since it cannot bound one. -/
theorem Accounts.dash
    (accounts : Accounts entries place '-' index offset)
    (bounded : ∀ low high, .range low high ∈ entries → CanBound low ∧ CanBound high) :
    (entries[index]? = some (.literal '-') ∧ start entries index = place) ∨
      ∃ low high, entries[index]? = some (.range low high) ∧ start entries index + 1 = place := by
  obtain ⟨entry, stands, character, placed⟩ := accounts
  have inside := (List.getElem?_eq_some_iff.mp character).1
  cases entry with
  | literal symbol =>
      left
      obtain rfl : offset = 0 := Nat.lt_one_iff.mp inside
      obtain rfl : symbol = '-' := Option.some.inj character
      exact ⟨stands, placed⟩
  | range low high =>
      right
      have bounds := bounded low high (List.mem_of_getElem? stands)
      match offset, inside, character, placed with
      | 0, _, lowDash, _ => exact absurd (Option.some.inj lowDash) bounds.1.ne_dash
      | 1, _, _, placed => exact ⟨low, high, stands, placed⟩
      | 2, _, highDash, _ => exact absurd (Option.some.inj highDash) bounds.2.ne_dash

end Accounts

/-! ## Greedy reading -/

/-- The entries of a body written one behind the other are the body, and they are the only way to cut
it into ranges and single characters at none of which a range begins. So each character belongs to
one entry, at one place of it, and a dash stands alone unless it is in the middle of a range. -/
theorem elements_cut_greedily (body : Text) :
    (elements body).flatMap Element.text = body ∧
      (∀ entries : List Element, Splits RangeSpan body (entries.map Element.piece) ↔
        entries = elements body) ∧
      (∀ place symbol, body[place]? = some symbol →
        ∃! spot : Nat × Nat, Accounts (elements body) place symbol spot.1 spot.2) ∧
      ∀ place, body[place]? = some '-' →
        ((∃ index, (elements body)[index]? = some (.literal '-') ∧
            start (elements body) index = place) ↔
          ¬ ∃ index low high, (elements body)[index]? = some (.range low high) ∧
            start (elements body) index + 1 = place) := by
  have accounted : ∀ {place symbol}, body[place]? = some symbol →
      ∃ index offset, Accounts (elements body) place symbol index offset := by
    intro place symbol stands
    rw [← flatMap_text_elements body] at stands
    exact exists_accounts stands
  refine ⟨flatMap_text_elements body, ?_, ?_, ?_⟩
  · intro entries
    constructor
    · intro splits
      exact List.map_injective_iff.mpr Element.piece_injective (eq_map_elements_of_splits splits)
    · intro same
      rw [same]
      exact splits_elements body
  · intro place symbol stands
    obtain ⟨index, offset, accounts⟩ := accounted stands
    refine ⟨(index, offset), accounts, ?_⟩
    intro other others
    have same := others.unique accounts
    exact Prod.ext same.1 same.2
  · intro place stands
    obtain ⟨index, offset, accounts⟩ := accounted stands
    have bounded : ∀ low high, .range low high ∈ elements body → CanBound low ∧ CanBound high := by
      intro low high member
      have construct := (splits_elements body).found _ _ (List.mem_map_of_mem member)
      cases construct with
      | dashed lowBounds highBounds => exact ⟨lowBounds, highBounds⟩
    constructor
    · intro literal range
      obtain ⟨index, literalStands, literalPlaced⟩ := literal
      obtain ⟨other, low, high, rangeStands, rangePlaced⟩ := range
      have same := (accounts_dash_literal literalStands literalPlaced).unique
        (accounts_dash_range rangeStands rangePlaced)
      exact absurd same.2 Nat.zero_ne_one
    · intro noRange
      rcases accounts.dash bounded with ⟨literal, placed⟩ | ⟨low, high, range, placed⟩
      · exact ⟨index, literal, placed⟩
      · exact absurd ⟨index, low, high, range, placed⟩ noRange

/-- The range `a-c` is taken first, which leaves the second dash to stand alone. -/
example :
    elements "a-c-e".toList = [.range 'a' 'c', .literal '-', .literal 'e'] := by
  decide

end RandomCodes.Pattern.CharacterClass

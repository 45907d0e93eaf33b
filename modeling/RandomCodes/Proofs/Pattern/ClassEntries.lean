import RandomCodes.Proofs.Pattern.Characters
import RandomCodes.Proofs.Pattern.SpanReading
import RandomCodes.Proofs.Pattern.Splitting
/-!
# The entries of a class and their members

The body of a class is cut into entries from the left, and a range stands for the characters between
its ends. The entries of a supported class are read back from the way they are written, so spelling
the class out puts exactly their members between the brackets.
-/

namespace RandomCodes.Pattern

open Construct (text language)

namespace CharacterClass

theorem mem_charactersBetween (low high symbol : Char) :
    symbol ∈ charactersBetween low high ↔ low ≤ symbol ∧ symbol ≤ high := by
  have lower : low ≤ symbol ↔ low.toNat ≤ symbol.toNat := Char.le_def
  have upper : symbol ≤ high ↔ symbol.toNat ≤ high.toNat := Char.le_def
  rw [charactersBetween, List.mem_filterMap, lower, upper]
  constructor
  · intro found
    obtain ⟨code, inside, decoded⟩ := found
    have bounds := List.mem_range'_1.mp inside
    by_cases valid : code.isValidChar
    · rw [dif_pos valid] at decoded
      have place : symbol.toNat = code := by
        rw [← Option.some.inj decoded]
        rfl
      omega
    · rw [dif_neg valid] at decoded
      cases decoded
  · intro bounds
    have valid : symbol.toNat.isValidChar := symbol.valid
    refine ⟨symbol.toNat, List.mem_range'_1.mpr (by omega), ?_⟩
    rw [dif_pos valid]
    exact congrArg some (Char.ext rfl)

theorem Element.mem_members (element : Element) (member : Char) :
    member ∈ element.members ↔ element.Allows member := by
  cases element with
  | literal symbol => exact List.mem_singleton
  | range low high => exact mem_charactersBetween low high member

def elementReader : Reader Element :=
  element.attempt.reader ()

theorem element_uniform : Recogniser.Uniform element := by
  intro offset cursor
  obtain ⟨position, rest⟩ := cursor
  have advanced : ∀ count, ({ position := position + offset, rest } : Cursor).advance count =
      (({ position, rest } : Cursor).advance count).shift offset := by
    intro count
    simp [Cursor.advance, Cursor.shift, Nat.add_right_comm]
  simp only [Cursor.shift, element] at advanced ⊢
  split
  · rfl
  · split
    · simp only [Option.map_some, advanced]
    · simp only [Option.map_some, advanced]
  · simp only [Option.map_some, advanced]

theorem elements_eq (body : Text) :
    elements body = (elementReader.pieces body).filterMap Piece.value? := by
  rw [elements, Recogniser.pieces_eq element_uniform]
  rfl

/-- One character, or two word characters with a dash between them. -/
inductive ElementSpan : Grammar Element
  | literal (symbol : Char) : ElementSpan [symbol] (.literal symbol)
  | range (low high : Char) (lowWord : isWord low) (highWord : isWord high) :
      ElementSpan [low, '-', high] (.range low high)

theorem elementReader_sound : elementReader.Sound ElementSpan := by
  intro text entry length read
  simp only [elementReader, Attempt.reader, Recogniser.attempt, element, Cursor.start] at read
  split at read
  · cases read
  · rename_i low high rest
    split at read
    · rename_i words
      obtain ⟨rfl, rfl⟩ := Prod.mk.inj (Option.some.inj read)
      obtain ⟨lowWord, highWord⟩ := Bool.and_eq_true_iff.mp words
      exact ⟨[low, '-', high], .range low high lowWord highWord, ⟨rest, rfl⟩, rfl⟩
    · obtain ⟨rfl, rfl⟩ := Prod.mk.inj (Option.some.inj read)
      exact ⟨[low], .literal low, ⟨_, rfl⟩, rfl⟩
  · rename_i symbol rest _
    obtain ⟨rfl, rfl⟩ := Prod.mk.inj (Option.some.inj read)
    exact ⟨[symbol], .literal symbol, ⟨rest, rfl⟩, rfl⟩

theorem composes_elements (body : Text) :
    Composes ElementSpan body (elementReader.pieces body) := by
  apply elementReader_sound.composes_pieces
  intro span entry construct
  cases construct <;> exact List.cons_ne_nil _ _

theorem elements_nil : elements [] = [] := rfl

/-- Two word characters with a dash between them are a range. -/
theorem elements_range
    {low high : Char} (lowWord : isWord low) (highWord : isWord high) (rest : Text) :
    elements (low :: '-' :: high :: rest) = .range low high :: elements rest := by
  have read : elementReader ([low, '-', high] ++ rest) = some (.range low high, 3) := by
    simp [elementReader, Attempt.reader, Recogniser.attempt, element, Cursor.start,
      Cursor.advance, lowWord, highWord]
  have first := Reader.pieces_of_eq_some (by simp) read
  rw [elements_eq, elements_eq]
  exact congrArg (List.filterMap Piece.value?) first

/-- What does not begin a range is an entry of its own. -/
theorem elements_literal
    {symbol : Char} {rest : Text}
    (alone : ∀ high behind, rest = '-' :: high :: behind → ¬(isWord symbol ∧ isWord high)) :
    elements (symbol :: rest) = .literal symbol :: elements rest := by
  have read : elementReader ([symbol] ++ rest) = some (.literal symbol, 1) := by
    simp only [elementReader, Attempt.reader, Recogniser.attempt, element, Cursor.start,
      List.singleton_append]
    split
    · rename_i nothing
      cases nothing
    · rename_i low high behind same
      obtain ⟨rfl, rfl⟩ := List.cons.inj same
      have words := alone high behind rfl
      rw [if_neg (by simpa using words)]
      rfl
    · rename_i first behind _ same
      obtain ⟨rfl, rfl⟩ := List.cons.inj same
      rfl
  have first := Reader.pieces_of_eq_some (by simp) read
  rw [elements_eq, elements_eq]
  exact congrArg (List.filterMap Piece.value?) first

theorem isWord_of_range {low high : Char} (supported : (Element.range low high).Supported) :
    isWord low ∧ isWord high := by
  have letter : ∀ {symbol : Char}, symbol.isAlpha → symbol.isAlphanum :=
    fun alphabetic => Bool.or_eq_true_iff.mpr (.inl alphabetic)
  have alphanumeric : low.isAlphanum ∧ high.isAlphanum := by
    rcases supported.2 with digits | lowers | uppers
    · exact ⟨Bool.or_eq_true_iff.mpr (.inr digits.1), Bool.or_eq_true_iff.mpr (.inr digits.2)⟩
    · exact ⟨letter (Bool.or_eq_true_iff.mpr (.inr lowers.1)),
        letter (Bool.or_eq_true_iff.mpr (.inr lowers.2))⟩
    · exact ⟨letter (Bool.or_eq_true_iff.mpr (.inl uppers.1)),
        letter (Bool.or_eq_true_iff.mpr (.inl uppers.2))⟩
  exact ⟨Bool.or_eq_true_iff.mpr (.inl alphanumeric.1), Bool.or_eq_true_iff.mpr (.inl alphanumeric.2)⟩

theorem head_ne_dash
    {element : Element} (supported : element.Supported) (rest : Text) :
    (element.text ++ rest).head? ≠ some '-' := by
  cases element with
  | literal symbol => simpa [Element.text] using supported.2
  | range low high =>
      intro dash
      have same : low = '-' := by simpa [Element.text] using dash
      have word := (isWord_of_range supported).1
      rw [same] at word
      exact absurd word (by decide)

theorem elements_flatMap_text
    {entries : List Element} (supported : ∀ element ∈ entries, element.Supported) :
    elements (entries.flatMap Element.text) = entries := by
  induction entries with
  | nil => exact elements_nil
  | cons entry others inductionHypothesis =>
      have entrySupported := supported entry List.mem_cons_self
      have othersSupported : ∀ element ∈ others, element.Supported :=
        fun element member => supported element (List.mem_cons_of_mem entry member)
      have behind := inductionHypothesis othersSupported
      rw [List.flatMap_cons]
      cases entry with
      | range low high =>
          have words := isWord_of_range entrySupported
          have first := elements_range words.1 words.2 (others.flatMap Element.text)
          rw [behind] at first
          exact first
      | literal symbol =>
          have noDash : (others.flatMap Element.text).head? ≠ some '-' := by
            cases others with
            | nil => simp
            | cons next later => exact head_ne_dash (othersSupported next List.mem_cons_self) _
          have alone : ∀ high after, others.flatMap Element.text = '-' :: high :: after →
              ¬(isWord symbol ∧ isWord high) := by
            intro high after dash
            rw [dash] at noDash
            exact absurd rfl noDash
          have first := elements_literal alone
          rw [behind] at first
          exact first

/-- What lies between two characters that lie between two bounds does so, too. -/
theorem between_of_between
    {least most : UInt32} {low high symbol : Char} (lowInside : least ≤ low.val)
    (highInside : high.val ≤ most) (inside : low ≤ symbol ∧ symbol ≤ high) :
    least ≤ symbol.val ∧ symbol.val ≤ most :=
  ⟨UInt32.le_trans lowInside inside.1, UInt32.le_trans inside.2 highInside⟩

theorem isDigit_of_between
    {low high symbol : Char} (lowDigit : low.isDigit) (highDigit : high.isDigit)
    (inside : low ≤ symbol ∧ symbol ≤ high) : symbol.isDigit := by
  have lowBounds := Bool.and_eq_true_iff.mp lowDigit
  have highBounds := Bool.and_eq_true_iff.mp highDigit
  have bounds := between_of_between (of_decide_eq_true lowBounds.1)
    (of_decide_eq_true highBounds.2) inside
  exact Bool.and_eq_true_iff.mpr ⟨decide_eq_true bounds.1, decide_eq_true bounds.2⟩

theorem isLower_of_between
    {low high symbol : Char} (lowLower : low.isLower) (highLower : high.isLower)
    (inside : low ≤ symbol ∧ symbol ≤ high) : symbol.isLower := by
  have lowBounds := Bool.and_eq_true_iff.mp lowLower
  have highBounds := Bool.and_eq_true_iff.mp highLower
  have bounds := between_of_between (of_decide_eq_true lowBounds.1)
    (of_decide_eq_true highBounds.2) inside
  exact Bool.and_eq_true_iff.mpr ⟨decide_eq_true bounds.1, decide_eq_true bounds.2⟩

theorem isUpper_of_between
    {low high symbol : Char} (lowUpper : low.isUpper) (highUpper : high.isUpper)
    (inside : low ≤ symbol ∧ symbol ≤ high) : symbol.isUpper := by
  have lowBounds := of_decide_eq_true lowUpper
  have highBounds := of_decide_eq_true highUpper
  exact decide_eq_true (between_of_between lowBounds.1 highBounds.2 inside)

/-- Ranges within the digits or within the letters of one case hold no special character. -/
theorem Element.Supported.not_special
    {element : Element} (supported : element.Supported) {member : Char}
    (allowed : element.Allows member) : member ∉ specialCharacters := by
  cases element with
  | literal symbol =>
      rw [show member = symbol from allowed]
      exact supported.1
  | range low high =>
      rcases supported.2 with digits | lowers | uppers
      · exact not_special_of_isDigit (isDigit_of_between digits.1 digits.2 allowed)
      · exact not_special_of_isLower (isLower_of_between lowers.1 lowers.2 allowed)
      · exact not_special_of_isUpper (isUpper_of_between uppers.1 uppers.2 allowed)

theorem Element.Supported.exists_allows {element : Element} (supported : element.Supported) :
    ∃ member, element.Allows member := by
  cases element with
  | literal symbol => exact ⟨symbol, rfl⟩
  | range low high => exact ⟨low, Char.le_refl low, supported.1⟩

end CharacterClass

end RandomCodes.Pattern

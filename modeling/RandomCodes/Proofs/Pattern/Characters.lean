import RandomCodes.Proofs.Pattern.Resolution
/-!
# The characters that constructs are written with

A pass that keeps each character of a construct keeps the construct. Which characters can occur is
said here for every construct, so that a pass only needs to name the characters that it looks for.
-/

namespace RandomCodes.Pattern

open Construct (text)

section Keeps

variable {surroundings : Surroundings} {rewrite : Text → Draws Text} {written : Text}

theorem Keeps.of_forall
    (noBrace : '{' ∉ written) (kept : ∀ symbol ∈ written, Keeps surroundings rewrite [symbol]) :
    Keeps surroundings rewrite written := by
  intro rest admitted
  refine Rewrites.keep fun before symbol after equality => ?_
  have member : symbol ∈ written := by simp [equality]
  apply kept symbol member
  cases after with
  | nil => exact admitted
  | cons next others =>
      refine surroundings.admits_cons (fun brace => noBrace ?_) _
      simp [equality, brace]

theorem Keeps.of_forall_anything
    (kept : ∀ symbol ∈ written, Keeps .anything rewrite [symbol]) :
    Keeps surroundings rewrite written := by
  intro rest _
  refine Rewrites.keep fun before symbol after equality => ?_
  exact kept symbol (by simp [equality]) trivial

end Keeps

/-- A property of all characters of a text, checked one by one. -/
theorem forall_of_all
    {Holds : Char → Prop} [DecidablePred Holds] {symbols : Text}
    (checked : (symbols.all fun symbol => decide (Holds symbol)) = true) :
    ∀ symbol ∈ symbols, Holds symbol :=
  fun symbol member => of_decide_eq_true (List.all_eq_true.mp checked symbol member)

theorem ne_of_not_special
    {symbol special : Char} (ordinary : symbol ∉ specialCharacters)
    (member : special ∈ specialCharacters) : symbol ≠ special := by
  rintro rfl
  exact ordinary member

theorem not_special_of_forall
    {property : Char → Bool} (none : ∀ special ∈ specialCharacters, property special = false)
    {symbol : Char} (holds : property symbol) : symbol ∉ specialCharacters := by
  intro special
  rw [none symbol special] at holds
  cases holds

theorem not_special_of_isDigit {symbol : Char} (digit : symbol.isDigit) :
    symbol ∉ specialCharacters :=
  not_special_of_forall (forall_of_all (by decide)) digit

theorem not_special_of_isLower {symbol : Char} (lower : symbol.isLower) :
    symbol ∉ specialCharacters :=
  not_special_of_forall (forall_of_all (by decide)) lower

theorem not_special_of_isUpper {symbol : Char} (upper : symbol.isUpper) :
    symbol ∉ specialCharacters :=
  not_special_of_forall (forall_of_all (by decide)) upper

theorem symbol_not_special (shorthand : Shorthand) :
    shorthand.symbol ∉ specialCharacters := by
  cases shorthand <;> decide

theorem mem_text_single
    {pending : List Shorthand} {single : Single pending} {symbol : Char}
    (member : symbol ∈ text single) :
    symbol ∉ specialCharacters ∨ symbol = '\\' ∨ symbol ∈ escapableCharacters := by
  cases single with
  | plain plain ordinary =>
      obtain rfl := List.mem_singleton.mp member
      exact .inl ordinary
  | escaped escaped escapable =>
      rcases List.mem_pair.mp member with rfl | rfl
      · exact .inr (.inl rfl)
      · exact .inr (.inr escapable)
  | shorthand kind allowed =>
      rw [Single.text_shorthand] at member
      rcases List.mem_pair.mp member with rfl | rfl
      · exact .inr (.inl rfl)
      · exact .inl (symbol_not_special kind)
  | wildcard =>
      obtain rfl := List.mem_singleton.mp member
      exact .inr (.inr (by decide))

theorem mem_text_element
    {element : CharacterClass.Element} (supported : element.Supported) {symbol : Char}
    (member : symbol ∈ element.text) : symbol ∉ specialCharacters := by
  cases element with
  | literal plain =>
      obtain rfl := List.mem_singleton.mp member
      exact supported.1
  | range low high =>
      have dash : '-' ∉ specialCharacters := by decide
      have ends : low ∉ specialCharacters ∧ high ∉ specialCharacters := by
        rcases supported.2 with ⟨lowDigit, highDigit⟩ | ⟨lowLower, highLower⟩ | ⟨lowUpper, highUpper⟩
        · exact ⟨not_special_of_isDigit lowDigit, not_special_of_isDigit highDigit⟩
        · exact ⟨not_special_of_isLower lowLower, not_special_of_isLower highLower⟩
        · exact ⟨not_special_of_isUpper lowUpper, not_special_of_isUpper highUpper⟩
      simp only [CharacterClass.Element.text, List.mem_cons, List.not_mem_nil, or_false] at member
      rcases member with rfl | rfl | rfl
      · exact ends.1
      · exact dash
      · exact ends.2

theorem mem_text_entries
    {entries : ClassEntries} {symbol : Char}
    (member : symbol ∈ entries.elements.flatMap CharacterClass.Element.text) :
    symbol ∉ specialCharacters := by
  obtain ⟨element, elementMember, inside⟩ := List.mem_flatMap.mp member
  exact mem_text_element (entries.supported element elementMember) inside

theorem mem_text_class
    {entries : ClassEntries} {symbol : Char} (member : symbol ∈ text entries) :
    symbol ∉ specialCharacters ∨ symbol = '[' ∨ symbol = ']' := by
  have parts : symbol = '[' ∨
      symbol ∈ entries.elements.flatMap CharacterClass.Element.text ∨ symbol = ']' := by
    simpa [text] using member
  rcases parts with opening | inside | closing
  · exact .inr (.inl opening)
  · exact .inl (mem_text_entries inside)
  · exact .inr (.inr closing)

instance {pending : List Shorthand} : Solid (Single pending) where
  head single := by
    cases single with
    | plain symbol ordinary =>
        exact ⟨symbol, [], rfl, ne_of_not_special ordinary (by decide)⟩
    | escaped symbol escapable => exact ⟨'\\', [symbol], rfl, by decide⟩
    | shorthand kind allowed => exact ⟨'\\', [kind.symbol], kind.spelling_eq, by decide⟩
    | wildcard => exact ⟨'.', [], rfl, by decide⟩

instance : Solid ClassEntries where
  head entries := ⟨'[', _, rfl, by decide⟩

instance {pending : List Abbreviation} : Solid (Part pending) where
  head part := by
    cases part with
    | atom marked => exact Solid.head marked
    | group marked nonblank => exact Solid.head marked

theorem mem_quantifierText
    {least most : Numeral} {symbol : Char} (member : symbol ∈ quantifierText least most) :
    symbol.isDigit ∨ symbol ∈ ['{', ',', '}'] := by
  have parts : symbol = '{' ∨ symbol ∈ least.digits ∨ symbol = ',' ∨
      symbol ∈ most.digits ∨ symbol = '}' := by
    simpa [quantifierText] using member
  rcases parts with rfl | digit | rfl | digit | rfl
  · exact .inr (by decide)
  · exact .inl (least.isDigit symbol digit)
  · exact .inr (by decide)
  · exact .inl (most.isDigit symbol digit)
  · exact .inr (by decide)

theorem Quantifier.mem_toText
    {quantifier : Quantifier} {symbol : Char} (member : symbol ∈ quantifier.toText) :
    symbol.isDigit ∨ symbol ∈ ['{', ',', '}'] := by
  have written : quantifier.toText =
      quantifierText (.ofNat quantifier.least) (.ofNat quantifier.most) := rfl
  rw [written] at member
  exact mem_quantifierText member

/-- A character that is no digit and no part of the frame of a quantifier is not in one. -/
theorem Quantifier.not_mem_toText
    {symbol : Char} (noDigit : symbol.isDigit = false) (noFrame : symbol ∉ ['{', ',', '}'])
    (quantifier : Quantifier) : symbol ∉ quantifier.toText := by
  intro member
  rcases mem_toText member with digit | frame
  · rw [noDigit] at digit
    cases digit
  · exact noFrame frame

theorem Bounds.mem_text {limits : Bounds} {symbol : Char} (member : symbol ∈ limits.text) :
    symbol.isDigit ∨ symbol ∈ ['{', ',', '}'] :=
  mem_quantifierText member

theorem mem_fixedText {count : Numeral} {symbol : Char} (member : symbol ∈ fixedText count) :
    symbol.isDigit ∨ symbol ∈ ['{', ',', '}'] := by
  have parts : symbol = '{' ∨ symbol ∈ count.digits ∨ symbol = '}' := by
    simpa [fixedText] using member
  rcases parts with rfl | digit | rfl
  · exact .inr (by decide)
  · exact .inl (count.isDigit symbol digit)
  · exact .inr (by decide)

/-- A character that is no digit and no part of the frame of a quantifier is not in it. -/
theorem Bounds.not_mem_text
    (limits : Bounds) {symbol : Char} (noDigit : symbol.isDigit = false)
    (noFrame : symbol ∉ ['{', ',', '}']) : symbol ∉ limits.text := by
  intro member
  rcases mem_text member with digit | frame
  · rw [noDigit] at digit
    cases digit
  · exact noFrame frame

end RandomCodes.Pattern

import RandomCodes.Pattern.Quantifier
import RandomCodes.Proofs.Pattern.Reading
/-!
# Reading numerals and quantifiers

A numeral is a run of decimal digits, leading zeros included. Two numerals in braces are read as a
quantifier, one numeral in braces as a fixed count, and neither is read where no brace opens.
-/

namespace RandomCodes.Pattern

variable {α : Type}

namespace Recogniser

@[simp]
theorem char_cons_self (symbol : Char) (position : Nat) (rest : Text) :
    char symbol { position, rest := symbol :: rest } =
      some ((), { position := position + 1, rest }) := by
  simp [char]

theorem char_of_head?_ne
    {symbol : Char} {rest : Text} (other : rest.head? ≠ some symbol) (position : Nat) :
    char symbol { position, rest } = none := by
  cases rest with
  | nil => rfl
  | cons head tail =>
      have different : head ≠ symbol := fun same => other (by rw [List.head?_cons, same])
      simp [char, different]

/-- A construct that begins with a given character is not read where another one stands. -/
theorem char_bind_of_head?_ne
    {symbol : Char} {rest : Text} (other : rest.head? ≠ some symbol)
    (following : Unit → Recogniser α) (position : Nat) :
    (char symbol >>= following) { position, rest } = none := by
  simp only [bind, StateT.bind, char_of_head?_ne other]
  rfl

theorem bind_of_eq_some
    {β : Type} {first : Recogniser α} {cursor next : Cursor} {value : α}
    (read : first cursor = some (value, next)) (following : α → Recogniser β) :
    (first >>= following) cursor = following value next := by
  simp only [bind, StateT.bind, read]
  rfl

theorem char_eq_some
    {symbol : Char} {cursor next : Cursor} (read : char symbol cursor = some ((), next)) :
    cursor.rest = symbol :: next.rest := by
  obtain ⟨position, rest⟩ := cursor
  cases rest with
  | nil => cases read
  | cons head tail =>
      by_cases same : head = symbol
      · subst same
        rw [char_cons_self, Option.some.injEq, Prod.mk.injEq] at read
        rw [← read.2]
      · simp [char, same] at read

theorem bind_eq_some
    {β : Type} {first : Recogniser α} {following : α → Recogniser β} {cursor : Cursor}
    {result : β × Cursor} (read : (first >>= following) cursor = some result) :
    ∃ value next, first cursor = some (value, next) ∧ following value next = some result := by
  simp only [bind, StateT.bind] at read
  cases known : first cursor with
  | none =>
      rw [known] at read
      cases read
  | some found =>
      rw [known] at read
      exact ⟨found.1, found.2, rfl, read⟩

end Recogniser

/-- At least one decimal digit. -/
structure Numeral where
  digits : Text
  ne_nil : digits ≠ []
  isDigit : ∀ symbol ∈ digits, symbol.isDigit

namespace Numeral

/-- The number that a numeral stands for. -/
def value (numeral : Numeral) : Nat :=
  Nat.ofDigitChars 10 numeral.digits 0

/-- The numeral of a number, without leading zeros. -/
def ofNat (number : Nat) : Numeral where
  digits := Text.decimal number
  ne_nil := Nat.toDigits_ne_nil
  isDigit _ member := Nat.isDigit_of_mem_toDigits (by decide) (by decide) member

@[simp]
theorem value_ofNat (number : Nat) : (ofNat number).value = number :=
  Nat.ofDigitChars_ten_toDigits

theorem ne_of_mem
    (numeral : Numeral) {symbol other : Char} (member : symbol ∈ numeral.digits)
    (noDigit : other.isDigit = false) : symbol ≠ other := by
  rintro rfl
  rw [numeral.isDigit symbol member] at noDigit
  cases noDigit

/-- The longest run of digits is the numeral, if no digit follows it. -/
theorem number_read
    (numeral : Numeral) {mark : Char} (noDigit : mark.isDigit = false)
    (position : Nat) (rest : Text) :
    Recogniser.number { position, rest := numeral.digits ++ mark :: rest } =
      some (min numeral.value Recogniser.greatestNumber,
        { position := position + numeral.digits.length, rest := mark :: rest }) := by
  have run : (numeral.digits ++ mark :: rest).takeWhile Char.isDigit = numeral.digits := by
    rw [List.takeWhile_append_of_pos numeral.isDigit]
    simp [noDigit]
  have read : Recogniser.digits { position, rest := numeral.digits ++ mark :: rest } =
      some (numeral.digits,
        { position := position + numeral.digits.length, rest := mark :: rest }) := by
    obtain ⟨first, others, digits⟩ := List.exists_cons_of_ne_nil numeral.ne_nil
    simp only [Recogniser.digits, run]
    simp only [digits, Cursor.advance]
    simp
  rw [Recogniser.number, Recogniser.bind_of_eq_some read]
  rfl

theorem of_number_eq_some
    {cursor next : Cursor} {value : Nat} (read : Recogniser.number cursor = some (value, next)) :
    ∃ numeral : Numeral, cursor.rest = numeral.digits ++ next.rest ∧
      value = min numeral.value Recogniser.greatestNumber := by
  obtain ⟨digits, behind, digitsRead, counted⟩ := Recogniser.bind_eq_some read
  have result : value = min (Text.digitsValue digits) Recogniser.greatestNumber ∧
      next = behind := by
    simpa using (Prod.mk.inj (Option.some.inj counted)).imp Eq.symm Eq.symm
  have run : ∃ digit others, cursor.rest.takeWhile Char.isDigit = digit :: others ∧
      digits = digit :: others ∧ behind = cursor.advance (digit :: others).length := by
    simp only [Recogniser.digits] at digitsRead
    split at digitsRead
    · cases digitsRead
    · rename_i digit others known
      have same := Prod.mk.inj (Option.some.inj digitsRead)
      exact ⟨digit, others, known, same.1.symm, same.2.symm⟩
  obtain ⟨digit, others, known, digitsSame, behindSame⟩ := run
  have allDigits : ∀ symbol ∈ digit :: others, symbol.isDigit := by
    rw [← known]
    exact List.all_eq_true.mp List.all_takeWhile
  have front : cursor.rest.takeWhile Char.isDigit <+: cursor.rest := List.takeWhile_prefix _
  rw [known] at front
  obtain ⟨tail, cut⟩ := front
  refine ⟨⟨digit :: others, List.cons_ne_nil digit others, allDigits⟩, ?_, ?_⟩
  · rw [result.2, behindSame, Cursor.advance, ← cut, List.drop_left]
  · rw [result.1, digitsSame]
    rfl

end Numeral

def fixedText (count : Numeral) : Text :=
  '{' :: count.digits ++ ['}']

theorem fixedCount_read (count : Numeral) (position : Nat) (rest : Text) :
    fixedCount { position, rest := fixedText count ++ rest } =
      some (min count.value Recogniser.greatestNumber,
        { position := position + (fixedText count).length, rest }) := by
  have length : position + (fixedText count).length =
      position + 1 + count.digits.length + 1 := by
    simp only [fixedText, List.cons_append, List.length_cons, List.length_append,
      List.length_nil]
    omega
  rw [length, fixedText, List.cons_append, List.cons_append, List.append_assoc, fixedCount,
    Recogniser.bind_of_eq_some (Recogniser.char_cons_self _ _ _), List.singleton_append,
    Recogniser.bind_of_eq_some (count.number_read (by decide) _ _),
    Recogniser.bind_of_eq_some (Recogniser.char_cons_self _ _ _)]
  rfl

theorem fixedCount_of_head?_ne
    {rest : Text} (other : rest.head? ≠ some '{') (position : Nat) :
    fixedCount { position, rest } = none :=
  Recogniser.char_bind_of_head?_ne other _ position

/-- Whatever is read as a fixed count is one numeral in braces. -/
theorem fixedCount_eq_some
    {cursor : Cursor} {result : Nat × Cursor} (read : fixedCount cursor = some result) :
    ∃ (count : Numeral) (behind : Text), cursor.rest = fixedText count ++ behind := by
  obtain ⟨_, inside, opened, read⟩ := Recogniser.bind_eq_some read
  obtain ⟨value, close, counted, read⟩ := Recogniser.bind_eq_some read
  obtain ⟨_, behind, closed, read⟩ := Recogniser.bind_eq_some read
  obtain ⟨count, digits, _⟩ := Numeral.of_number_eq_some counted
  refine ⟨count, behind.rest, ?_⟩
  rw [Recogniser.char_eq_some opened, digits, Recogniser.char_eq_some closed, fixedText]
  simp

def quantifierText (least most : Numeral) : Text :=
  '{' :: least.digits ++ ',' :: most.digits ++ ['}']

/-- Two numerals in braces are read as the quantifier that they bound, if there is one. -/
theorem Quantifier.recogniser_quantifierText
    (least most : Numeral) (position : Nat) (rest : Text) :
    Quantifier.recogniser { position, rest := quantifierText least most ++ rest } =
      (Quantifier.between? (min least.value Recogniser.greatestNumber)
        (min most.value Recogniser.greatestNumber)).map fun quantifier =>
          (quantifier, { position := position + (quantifierText least most).length, rest }) := by
  have length : position + (quantifierText least most).length =
      position + 1 + least.digits.length + 1 + most.digits.length + 1 := by
    simp only [quantifierText, List.cons_append, List.length_cons, List.length_append,
      List.length_nil]
    omega
  rw [length, quantifierText]
  simp only [List.cons_append, List.append_assoc]
  rw [Quantifier.recogniser, Recogniser.bind_of_eq_some (Recogniser.char_cons_self _ _ _),
    Recogniser.bind_of_eq_some (least.number_read (by decide) _ _),
    Recogniser.bind_of_eq_some (Recogniser.char_cons_self _ _ _),
    Recogniser.bind_of_eq_some (most.number_read (by decide) _ _),
    Recogniser.bind_of_eq_some (Recogniser.char_cons_self _ _ _)]
  cases Quantifier.between? (min least.value Recogniser.greatestNumber)
    (min most.value Recogniser.greatestNumber) <;> rfl

/-- Whatever is read as a quantifier is two numerals in braces that bound one. -/
theorem Quantifier.recogniser_eq_some
    {cursor : Cursor} {result : Quantifier × Cursor}
    (read : Quantifier.recogniser cursor = some result) :
    ∃ (least most : Numeral) (behind : Text),
      cursor.rest = quantifierText least most ++ behind ∧
        (Quantifier.between? (min least.value Recogniser.greatestNumber)
          (min most.value Recogniser.greatestNumber)).isSome := by
  obtain ⟨_, inside, opened, read⟩ := Recogniser.bind_eq_some read
  obtain ⟨first, comma, firstCounted, read⟩ := Recogniser.bind_eq_some read
  obtain ⟨_, between, divided, read⟩ := Recogniser.bind_eq_some read
  obtain ⟨second, close, secondCounted, read⟩ := Recogniser.bind_eq_some read
  obtain ⟨_, behind, closed, read⟩ := Recogniser.bind_eq_some read
  obtain ⟨least, leastDigits, rfl⟩ := Numeral.of_number_eq_some firstCounted
  obtain ⟨most, mostDigits, rfl⟩ := Numeral.of_number_eq_some secondCounted
  refine ⟨least, most, behind.rest, ?_, ?_⟩
  · rw [Recogniser.char_eq_some opened, leastDigits, Recogniser.char_eq_some divided, mostDigits,
      Recogniser.char_eq_some closed, quantifierText]
    simp
  · cases known : Quantifier.between? (min least.value Recogniser.greatestNumber)
        (min most.value Recogniser.greatestNumber) with
    | none =>
        rw [known] at read
        cases read
    | some quantifier => rfl

/-- Two numerals that bound a number of copies, the lower one not above a thousand. -/
structure Bounds where
  least : Numeral
  most : Numeral
  ordered : least.value ≤ most.value
  /-- The least number of copies is one that can be asked for. -/
  small : least.value ≤ 1000

namespace Bounds

/-- The bounds as they are written. -/
def text (bounds : Bounds) : Text :=
  quantifierText bounds.least bounds.most

/-- The quantifier that the bounds are read as. -/
def quantifier (bounds : Bounds) : Quantifier :=
  { least := bounds.least.value, most := min bounds.most.value 1000 }

theorem quantifier_ordered (bounds : Bounds) :
    bounds.quantifier.least ≤ bounds.quantifier.most :=
  Nat.le_min.mpr ⟨bounds.ordered, bounds.small⟩

/-- The bounds of two numbers, written without leading zeros. -/
def ofNat
    (least most : Nat) (ordered : least ≤ most) (small : least ≤ 1000) :
    Bounds where
  least := .ofNat least
  most := .ofNat most
  ordered := by simpa using ordered
  small := by simpa using small

theorem text_ofNat
    {least most : Nat} (ordered : least ≤ most) (small : least ≤ 1000) :
    (ofNat least most ordered small).text = Quantifier.toText { least, most } := by
  simp [text, quantifierText, ofNat, Numeral.ofNat, Quantifier.toText]

/-- After the opening brace there is no second one. -/
theorem ne_brace_of_mem_tail
    (bounds : Bounds) {symbol : Char} (member : symbol ∈ bounds.text.tail) : symbol ≠ '{' := by
  simp only [text, quantifierText, List.cons_append, List.tail_cons, List.mem_append, List.mem_cons,
    List.append_assoc, List.not_mem_nil, or_false] at member
  rcases member with digit | rfl | digit | rfl
  · exact bounds.least.ne_of_mem digit (by decide)
  · decide
  · exact bounds.most.ne_of_mem digit (by decide)
  · decide

end Bounds

namespace Quantifier

theorem toText_zero_one : toText { least := 0, most := 1 } = ['{', '0', ',', '1', '}'] :=
  rfl

theorem toText_of_digit
    {least : Nat} {digit : Char} (written : Nat.toDigits 10 least = [digit]) (most : Nat) :
    toText { least, most } = '{' :: digit :: ',' :: Nat.toDigits 10 most ++ ['}'] := by
  rw [toText, Text.decimal, written]
  rfl

theorem recogniser_of_head?_ne
    {rest : Text} (other : rest.head? ≠ some '{') (position : Nat) :
    recogniser { position, rest } = none :=
  Recogniser.char_bind_of_head?_ne other _ position

end Quantifier

namespace Bounds

theorem between?_eq (bounds : Bounds) :
    Quantifier.between? (min bounds.least.value Recogniser.greatestNumber)
        (min bounds.most.value Recogniser.greatestNumber) =
      some bounds.quantifier := by
  have clamp : Quantifier.greatestCount = 1000 ∧ 1000 ≤ Recogniser.greatestNumber := by decide
  have ordered := bounds.ordered
  have small := bounds.small
  have sorted : min bounds.least.value Recogniser.greatestNumber ≤
      min bounds.most.value Recogniser.greatestNumber := by
    omega
  rw [Quantifier.between?, if_pos sorted, Option.some.injEq, quantifier, Quantifier.mk.injEq]
  omega

theorem recogniser_read (bounds : Bounds) (position : Nat) (rest : Text) :
    Quantifier.recogniser { position, rest := bounds.text ++ rest } =
      some (bounds.quantifier, { position := position + bounds.text.length, rest }) := by
  rw [text, Quantifier.recogniser_quantifierText, bounds.between?_eq]
  rfl

/-- Two numerals in braces are no fixed count. -/
theorem fixedCount_eq_none (bounds : Bounds) (position : Nat) (rest : Text) :
    fixedCount { position, rest := bounds.text ++ rest } = none := by
  rw [text, quantifierText]
  simp only [List.cons_append, List.append_assoc]
  rw [fixedCount, Recogniser.bind_of_eq_some (Recogniser.char_cons_self _ _ _),
    Recogniser.bind_of_eq_some (bounds.least.number_read (by decide) _ _)]
  exact Recogniser.char_bind_of_head?_ne (by simp) _ _

end Bounds

end RandomCodes.Pattern

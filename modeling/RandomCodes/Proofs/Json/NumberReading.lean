import RandomCodes.Json.Reader
import RandomCodes.Proofs.Json.TokenReading
/-!
# Reading numbers

A number literal is read to its end. The result is a whole number that fits a machine word exactly
if the literal is written as that word; all other literals give another number or none.
-/

namespace RandomCodes.Json

open Pattern (Numeral)

namespace Significand

/-- The digits met so far stand for this number, which is held as long as it fits. -/
structure Counts (significand : Significand) (number : Nat) : Prop where
  fits : significand.full = false → significand.value = number ∧ number < UInt64.size
  exceeds : significand.full = true → UInt64.size ≤ number

theorem counts_start : Counts {} 0 where
  fits _ := ⟨rfl, by decide⟩
  exceeds full := by cases full

theorem Counts.addWhole
    {significand : Significand} {number : Nat} (counts : significand.Counts number)
    (digit : Char) :
    (significand.addWhole digit).Counts (10 * number + (digit.toNat - '0'.toNat)) := by
  cases full : significand.full with
  | true =>
      have exceeds := counts.exceeds full
      have added : significand.addWhole digit =
          { significand with exponent := significand.exponent + 1, full := true } := by
        simp [Significand.addWhole, full]
      rw [added]
      exact ⟨fun fits => (by cases fits), fun _ => by omega⟩
  | false =>
      obtain ⟨held, _⟩ := counts.fits full
      by_cases fits : 10 * number + (digit.toNat - '0'.toNat) < UInt64.size
      · have added : significand.addWhole digit =
            { significand with value := 10 * number + (digit.toNat - '0'.toNat) } := by
          simp only [Significand.addWhole, full, extended?, held, if_pos fits]
        rw [added]
        refine ⟨fun _ => ⟨rfl, fits⟩, fun exceeds => ?_⟩
        rw [show _ = significand.full from rfl, full] at exceeds
        cases exceeds
      · have added : significand.addWhole digit =
            { significand with exponent := significand.exponent + 1, full := true } := by
          simp only [Significand.addWhole, full, extended?, held, if_neg fits]
        rw [added]
        exact ⟨fun fits => (by cases fits), fun _ => Nat.le_of_not_lt fits⟩

theorem Counts.foldl
    {significand : Significand} {number : Nat} (counts : significand.Counts number)
    (digits : Text) :
    (digits.foldl Significand.addWhole significand).Counts
      (digits.foldl (fun value digit => 10 * value + (digit.toNat - '0'.toNat)) number) := by
  induction digits generalizing significand number with
  | nil => exact counts
  | cons digit digits inductionHypothesis => exact inductionHypothesis (counts.addWhole digit)

theorem counts_digitsValue (digits : Text) :
    (digits.foldl addWhole {}).Counts (Text.digitsValue digits) :=
  counts_start.foldl digits

end Significand

/-- What follows does not go on with digits. -/
def Stops (rest : Text) : Prop :=
  ∀ symbol ∈ rest.head?, symbol.isDigit = false

theorem Ends.stops {rest : Text} (ends : Ends rest) : Stops rest := by
  intro symbol first
  have noDigits : ∀ mark ∈ delimiters, mark.isDigit = false := by simp [delimiters, blanks]
  exact noDigits symbol (ends symbol first)

/-- The sign and the value of an exponent. -/
def Exponent.parts (exponent : Exponent) : Bool × Nat :=
  (exponent.sign = some '-', exponent.places.value)

namespace NumberLiteral

theorem head?_exponentText_ne
    (literal : NumberLiteral) {rest : Text} (ends : Ends rest) :
    (literal.exponentText ++ rest).head? ≠ some '.' := by
  rw [exponentText]
  cases literal.exponent with
  | none => exact ends.head?_ne (by decide)
  | some exponent =>
      intro same
      have mark := exponent.mark_mem
      rw [show exponent.mark = '.' from Option.some.inj same] at mark
      exact absurd mark (by decide)

theorem stops_exponentText (literal : NumberLiteral) {rest : Text} (ends : Ends rest) :
    Stops (literal.exponentText ++ rest) := by
  rw [exponentText]
  cases literal.exponent with
  | none => exact ends.stops
  | some exponent =>
      rintro symbol ⟨rfl⟩
      have noDigits : ∀ mark ∈ ['e', 'E'], mark.isDigit = false := by simp
      exact noDigits _ exponent.mark_mem

theorem stops_fractionText (literal : NumberLiteral) {rest : Text} (stops : Stops rest) :
    Stops (literal.fractionText ++ rest) := by
  rw [fractionText]
  cases literal.fraction with
  | none => exact stops
  | some places =>
      rintro symbol ⟨rfl⟩
      rfl

variable {Reason : Type}

/-- The digits in front of the point as far as they fit. -/
def significand (literal : NumberLiteral) : Significand :=
  literal.whole.digits.foldl Significand.addWhole {}

/-- A number is a machine word exactly if the literal is written as that word. -/
structure Conveys (literal : NumberLiteral) (number : Number) : Prop where
  word : ∀ word : UInt64, number = .whole word.toNat ↔ literal.IsWord word
  fits : ∀ value, number = .whole value → value < UInt64.size

/-- What reading a literal may come to: a literal that is written as a word is not refused. -/
structure Yields (literal : NumberLiteral) (result : Except (Failure Reason) Number) : Prop where
  conveys : ∀ number, result = .ok number → literal.Conveys number
  succeeds : ∀ word, literal.IsWord word → ∃ number, result = .ok number

theorem Conveys.yields
    {literal : NumberLiteral} {number : Number} (conveys : literal.Conveys number) :
    literal.Yields (.ok number : Except (Failure Reason) Number) where
  conveys result same := by
    cases same
    exact conveys
  succeeds _ _ := ⟨number, rfl⟩

theorem conveys_fractional
    {literal : NumberLiteral} (noWord : ∀ word, ¬literal.IsWord word) (value : Float) :
    literal.Conveys (.fractional value) where
  word word := ⟨fun same => (by cases same), fun isWord => absurd isWord (noWord word)⟩
  fits _ same := by cases same

theorem conveys_whole
    {literal : NumberLiteral} (unsigned : literal.negative = false)
    (noFraction : literal.fraction = none) (noExponent : literal.exponent = none)
    (fits : literal.whole.value < UInt64.size) : literal.Conveys (.whole literal.whole.value) where
  word word := by
    rw [Number.whole.injEq, Int.ofNat_inj]
    exact ⟨fun value => ⟨unsigned, noFraction, noExponent, value⟩, NumberLiteral.IsWord.value⟩
  fits value same := by
    cases same
    omega

theorem conveys_negative
    {literal : NumberLiteral} (noWord : ∀ word, ¬literal.IsWord word) {value : Nat}
    (positive : value ≠ 0) : literal.Conveys (.whole (-value)) where
  word word := by
    refine ⟨fun same => ?_, fun isWord => absurd isWord (noWord word)⟩
    rw [Number.whole.injEq] at same
    omega
  fits result same := by
    rw [Number.whole.injEq] at same
    have large : UInt64.size = 2 ^ 64 := rfl
    omega

end NumberLiteral

/-! ## Reading a literal -/

namespace Reader

variable {Reason : Type}

theorem discard_run
    {α : Type} {reader : Reader Reason α} {text rest : Text} {value : α}
    (read : reader.run text = .ok (value, rest)) :
    (discard reader).run text = .ok ((), rest) := by
  show ((fun _ => ()) <$> reader).run text = .ok ((), rest)
  rw [StateT.run_map, read]
  rfl

theorem someDigits_append (numeral : Numeral) {rest : Text} (stops : Stops rest) :
    (someDigits : Reader Reason Text).run (numeral.digits ++ rest) =
      .ok (numeral.digits, rest) := by
  have taken : rest.takeWhile Char.isDigit = [] := by
    cases rest with
    | nil => rfl
    | cons symbol rest => simp [stops symbol rfl]
  have left : rest.dropWhile Char.isDigit = rest := by
    cases rest with
    | nil => rfl
    | cons symbol rest => simp [stops symbol rfl]
  have run : (digits : Reader Reason Text).run (numeral.digits ++ rest) =
      .ok (numeral.digits, rest) := by
    show Except.ok ((numeral.digits ++ rest).takeWhile Char.isDigit,
      (numeral.digits ++ rest).dropWhile Char.isDigit) = _
    rw [List.takeWhile_append_of_pos numeral.isDigit, taken, List.append_nil,
      List.dropWhile_append_of_pos numeral.isDigit, left]
  have someRun : numeral.digits.isEmpty = false := by simpa using numeral.ne_nil
  rw [someDigits, bind_of_run_eq_ok run, someRun]
  rfl

theorem head?_digits_ne
    (numeral : Numeral) {symbol : Char} (noDigit : symbol.isDigit = false) (rest : Text) :
    (numeral.digits ++ rest).head? ≠ some symbol := by
  obtain ⟨first, others, digits⟩ := List.exists_cons_of_ne_nil numeral.ne_nil
  have member : first ∈ numeral.digits := by simp [digits]
  rw [digits]
  exact fun same => numeral.ne_of_mem member noDigit (Option.some.inj same)

theorem wholeDigits_append (literal : NumberLiteral) {rest : Text} (stops : Stops rest) :
    (wholeDigits : Reader Reason Text).run (literal.whole.digits ++ rest) =
      .ok (literal.whole.digits, rest) := by
  have noLeadingZero :
      ¬(literal.whole.digits.head? = some '0' ∧ literal.whole.digits.length ≠ 1) := by
    rintro ⟨zero, long⟩
    rw [literal.noLeadingZero zero] at long
    exact long rfl
  rw [wholeDigits, bind_of_run_eq_ok (someDigits_append literal.whole stops), if_neg noLeadingZero]
  rfl

theorem takes_sign (literal : NumberLiteral) (rest : Text) :
    (takes '-' : Reader Reason Bool).run (literal.signText ++ (literal.whole.digits ++ rest)) =
      .ok (literal.negative, literal.whole.digits ++ rest) := by
  rw [NumberLiteral.signText]
  cases literal.negative with
  | true => exact takes_self '-' _
  | false =>
      exact takes_of_head?_ne (head?_digits_ne literal.whole (by decide) rest)

theorem exponent?_append (literal : NumberLiteral) {rest : Text} (ends : Ends rest) :
    (exponent? : Reader Reason _).run (literal.exponentText ++ rest) =
      .ok (literal.exponent.map Exponent.parts, rest) := by
  rw [NumberLiteral.exponentText]
  cases literal.exponent with
  | none =>
      have small : rest.head? ≠ some 'e' := ends.head?_ne (by decide)
      have large : rest.head? ≠ some 'E' := ends.head?_ne (by decide)
      have marked : (takesExponentMark : Reader Reason Bool).run rest = .ok (false, rest) :=
        (bind_of_run_eq_ok (takes_of_head?_ne small) _).trans (takes_of_head?_ne large)
      exact bind_of_run_eq_ok marked _
  | some exponent =>
      obtain ⟨mark, sign, places, markMem, signMem⟩ := exponent
      have marked (behind : Text) :
          (takesExponentMark : Reader Reason Bool).run (mark :: behind) = .ok (true, behind) := by
        simp only [List.mem_cons, List.not_mem_nil, or_false] at markMem
        rcases markMem with rfl | rfl <;> rfl
      have valued (negative : Bool) :
          (do return some (negative, Text.digitsValue (← someDigits)) : Reader Reason _).run
            (places.digits ++ rest) = .ok (some (negative, places.value), rest) :=
        bind_of_run_eq_ok (someDigits_append places ends.stops) _
      simp only [Exponent.text, List.cons_append, List.append_assoc, Option.map_some]
      rw [exponent?, bind_of_run_eq_ok (marked _), if_pos rfl]
      cases sign with
      | none =>
          have noMinus := head?_digits_ne places (show '-'.isDigit = false by decide) rest
          have noPlus := head?_digits_ne places (show '+'.isDigit = false by decide) rest
          rw [Option.toList_none, List.nil_append, bind_of_run_eq_ok (takes_of_head?_ne noMinus),
            if_neg Bool.false_ne_true, bind_of_run_eq_ok (discard_run (takes_of_head?_ne noPlus))]
          exact valued false
      | some symbol =>
          have signed := signMem symbol rfl
          simp only [List.mem_cons, List.not_mem_nil, or_false] at signed
          rcases signed with rfl | rfl
          · have noMinus : ('+' :: (places.digits ++ rest)).head? ≠ some '-' := by simp
            rw [Option.toList_some, List.singleton_append,
              bind_of_run_eq_ok (takes_of_head?_ne noMinus), if_neg Bool.false_ne_true,
              bind_of_run_eq_ok (discard_run (takes_self '+' _))]
            exact valued false
          · rw [Option.toList_some, List.singleton_append, bind_of_run_eq_ok (takes_self '-' _),
              if_pos rfl]
            exact valued true

/-- The result of a number that is held as a binary fraction, unless that is too large. -/
def fraction (value : Option Float) : Except (Failure Reason) Number :=
  match value with
  | some value => .ok (.fractional value)
  | none => .error .malformed

theorem fraction_run (value : Option Float) (rest : Text) :
    (do return .fractional (← ofOption value) : Reader Reason Number).run rest =
      (·, rest) <$> fraction value := by
  cases value <;> rfl

theorem yields_fraction
    {literal : NumberLiteral} (noWord : ∀ word, ¬literal.IsWord word) (value : Option Float) :
    literal.Yields (fraction value : Except (Failure Reason) Number) where
  conveys number same := by
    cases value with
    | none => cases same
    | some value =>
        cases same
        exact NumberLiteral.conveys_fractional noWord value
  succeeds word isWord := absurd isWord (noWord word)

theorem number_reads_of_fraction
    {literal : NumberLiteral} {places : Numeral} (known : literal.fraction = some places) :
    Reads (number : Reader Reason Number) literal.text
      (fraction (scaledNumber literal.negative
        (places.digits.foldl Significand.addFraction { literal.significand with full := false })
        (literal.exponent.map Exponent.parts))) := by
  intro rest ends
  have behind := literal.stops_exponentText ends
  simp only [NumberLiteral.text, List.append_assoc]
  rw [number, bind_of_run_eq_ok (takes_sign literal _),
    bind_of_run_eq_ok (wholeDigits_append literal (literal.stops_fractionText behind)),
    NumberLiteral.fractionText, known, List.cons_append, bind_of_run_eq_ok (takes_self '.' _),
    if_pos rfl, bind_of_run_eq_ok (someDigits_append places behind),
    bind_of_run_eq_ok (exponent?_append literal ends), fraction_run]
  rfl

/-- The result of a literal without a fraction. -/
def unbroken (negative : Bool) (significand : Significand) (exponent : Option (Bool × Nat)) :
    Except (Failure Reason) Number :=
  if exponent.isSome ∨ significand.full then fraction (scaledNumber negative significand exponent)
  else if !negative then .ok (.whole significand.value)
  else if significand.value = 0 ∨ UInt64.size / 2 < significand.value then
    .ok (.fractional (-(UInt64.ofNat significand.value).toFloat))
  else .ok (.whole (-significand.value))

theorem number_reads_of_noFraction
    {literal : NumberLiteral} (noFraction : literal.fraction = none) :
    Reads (number : Reader Reason Number) literal.text
      (unbroken literal.negative literal.significand
        (literal.exponent.map Exponent.parts)) := by
  intro rest ends
  have behind := literal.stops_exponentText ends
  simp only [NumberLiteral.text, List.append_assoc]
  rw [number, bind_of_run_eq_ok (takes_sign literal _),
    bind_of_run_eq_ok (wholeDigits_append literal (literal.stops_fractionText behind)),
    NumberLiteral.fractionText, noFraction, List.nil_append,
    bind_of_run_eq_ok (takes_of_head?_ne (literal.head?_exponentText_ne ends)),
    if_neg Bool.false_ne_true, bind_of_run_eq_ok (exponent?_append literal ends)]
  cases literal.exponent with
  | some exponent => exact fraction_run _ _
  | none =>
      have held : literal.whole.digits.foldl Significand.addWhole {} = literal.significand :=
        rfl
      simp only [held, unbroken, Option.map_none, Option.isSome_none, Bool.false_eq_true, false_or]
      by_cases full : literal.significand.full
      · rw [if_pos full, if_pos full]
        exact fraction_run _ _
      · rw [if_neg full, if_neg full]
        by_cases unsigned : !literal.negative
        · rw [if_pos unsigned, if_pos unsigned]
          rfl
        · rw [if_neg unsigned, if_neg unsigned]
          split <;> rfl

theorem yields_unbroken
    {literal : NumberLiteral} (noFraction : literal.fraction = none) :
    literal.Yields (unbroken literal.negative literal.significand
      (literal.exponent.map Exponent.parts) : Except (Failure Reason) Number) := by
  have counts := Significand.counts_digitsValue literal.whole.digits
  by_cases outside : (literal.exponent.map Exponent.parts).isSome ∨ literal.significand.full
  · rw [unbroken, if_pos outside]
    apply yields_fraction
    intro word isWord
    rcases outside with given | full
    · rw [isWord.noExponent] at given
      cases given
    · have large : UInt64.size ≤ literal.whole.value := counts.exceeds full
      rw [isWord.value] at large
      exact absurd word.toNat_lt (Nat.not_lt.mpr large)
  · rw [unbroken, if_neg outside]
    obtain ⟨given, notFull⟩ := not_or.mp outside
    obtain ⟨held, fits⟩ := counts.fits (eq_false_of_ne_true notFull)
    by_cases unsigned : !literal.negative
    · rw [if_pos unsigned, show literal.significand.value = literal.whole.value from held]
      have noExponent : literal.exponent = none := by simpa using given
      have notNegative : literal.negative = false := by simpa using unsigned
      exact (NumberLiteral.conveys_whole notNegative noFraction noExponent fits).yields
    · rw [if_neg unsigned]
      have noWord (word : UInt64) : ¬literal.IsWord word :=
        fun isWord => unsigned (by simp [isWord.unsigned])
      by_cases outOfRange : literal.significand.value = 0 ∨
          UInt64.size / 2 < literal.significand.value
      · rw [if_pos outOfRange]
        exact (NumberLiteral.conveys_fractional noWord _).yields
      · rw [if_neg outOfRange]
        exact (NumberLiteral.conveys_negative noWord (not_or.mp outOfRange).1).yields

theorem number_reads (Reason : Type) (literal : NumberLiteral) :
    ∃ result, Reads (number : Reader Reason Number) literal.text result ∧
      literal.Yields result := by
  cases known : literal.fraction with
  | none => exact ⟨_, number_reads_of_noFraction known, yields_unbroken known⟩
  | some places =>
      refine ⟨_, number_reads_of_fraction known, yields_fraction (fun word isWord => ?_) _⟩
      rw [isWord.noFraction] at known
      cases known

end Reader

end RandomCodes.Json

import RandomCodes.Text.Basic
/-!
# Writing JSON

Compact JSON: no blanks, and in strings no escapes but those that are needed.

Many decimals lie so close to a binary fraction that reading any of them gives that fraction back.
Of these the one with the fewest digits is taken, and the nearest among those with equally few. It
is written with a point or an exponent, so that it is never taken for a whole number.

A finite binary fraction is `mantissa * 2 ^ exponent`. The reals that are read as it form an
interval around it whose ends lie half way to its neighbours; the ends belong to it when the
mantissa is even. All arithmetic is exact.
-/

namespace RandomCodes

namespace Decimal

/-- A positive binary fraction of 64 bits, `mantissa * 2 ^ exponent`. -/
structure BinaryFraction where
  mantissa : Nat
  exponent : Int
deriving DecidableEq, Repr

namespace BinaryFraction

/-- The weight of the bit above the stored ones, which only the smallest fractions lack. -/
def leadingBit : Nat := 4503599627370496

/-- The number of exponents that can be stored. -/
def exponentCount : Nat := 2048

/-- The least exponent. -/
def leastExponent : Int := -1074

/-- The absolute value of the number with these bits, which must be finite. -/
def ofBits (bits : UInt64) : BinaryFraction :=
  let fraction := bits.toNat % leadingBit
  let biased := bits.toNat / leadingBit % exponentCount
  if biased = 0 then { mantissa := fraction, exponent := leastExponent }
  else { mantissa := leadingBit + fraction, exponent := leastExponent + (biased - 1 : Nat) }

/-- Whether the neighbour below is nearer than the one above. -/
def narrowBelow (value : BinaryFraction) : Bool :=
  value.mantissa = leadingBit && leastExponent < value.exponent

end BinaryFraction

/-- An interval of reals around a value, as multiples of one unit. -/
structure Interval where
  low : Nat
  value : Nat
  high : Nat
  unit : Nat
  closed : Bool
deriving DecidableEq, Repr

namespace Interval

/-- The reals that are read as a binary fraction. -/
def around (fraction : BinaryFraction) : Interval :=
  let exponent := fraction.exponent - 2
  let factor := Nat.pow 2 exponent.toNat
  let quarters := 4 * fraction.mantissa
  { low := (quarters - if fraction.narrowBelow then 1 else 2) * factor
    value := quarters * factor
    high := (quarters + 2) * factor
    unit := Nat.pow 2 (-exponent).toNat
    closed := fraction.mantissa % 2 = 0 }

/-- The same interval with every real divided by a power of ten. -/
def shift (interval : Interval) (power : Int) : Interval :=
  let factor := Nat.pow 10 (-power).toNat
  { interval with
    low := interval.low * factor
    value := interval.value * factor
    high := interval.high * factor
    unit := interval.unit * Nat.pow 10 power.toNat }

/-- Whether a whole number lies in the interval. -/
def holds (interval : Interval) (number : Nat) : Bool :=
  let multiple := number * interval.unit
  if interval.closed then interval.low ≤ multiple && multiple ≤ interval.high
  else interval.low < multiple && multiple < interval.high

/-- The whole number in the interval that is nearest to the value; of two equally near ones the
even one. Only the two neighbours of the value need to be tried. -/
def nearest? (interval : Interval) : Option Nat :=
  let below := interval.value / interval.unit
  let above := below + 1
  let fromBelow := interval.value - below * interval.unit
  let fromAbove := above * interval.unit - interval.value
  match interval.holds below, interval.holds above with
  | false, false => none
  | true, false => some below
  | false, true => some above
  | true, true =>
      if fromBelow < fromAbove ∨ (fromBelow = fromAbove ∧ below % 2 = 0) then some below
      else some above

/-- The power of ten of the first digit of the value. -/
def leadingPower (interval : Interval) : Int :=
  if interval.unit ≤ interval.value then
    (Nat.toDigits 10 (interval.value / interval.unit)).length - 1
  else
    let places := (Nat.toDigits 10 (interval.unit / interval.value)).length
    if interval.unit ≤ interval.value * Nat.pow 10 (places - 1) then -(places - 1 : Nat)
    else -places

end Interval

/-- A decimal: its digits as a number, and the power of ten of the last one. -/
structure Shortest where
  digits : Nat
  exponent : Int
deriving DecidableEq, Repr

/-- As many digits as are ever needed to read a binary fraction back. -/
def enoughDigits : Nat := 17

/-- The shortest decimal that is read back as a positive binary fraction. -/
def shortest (fraction : BinaryFraction) : Shortest :=
  let interval := Interval.around fraction
  let leading := interval.leadingPower
  let candidate (count : Nat) : Option Shortest := do
    let exponent := leading - count
    return { digits := ← (interval.shift exponent).nearest?, exponent }
  ((List.range enoughDigits).findSome? candidate).getD { digits := 0, exponent := 0 }

end Decimal

namespace Json

structure FractionLayout where
  /-- The least power of ten of the first digit that is written without an exponent. -/
  leastPlain : Int
  /-- The greatest power of ten of the first digit that is written without an exponent. -/
  greatestPlain : Int

/-- Small fractions from a hundred-thousandth on, and large ones up to sixteen digits, are written
without an exponent. -/
def fractionLayout : FractionLayout where
  leastPlain := -5
  greatestPlain := 15

/-- Digits with a point, the first digit standing for the power `leading` of ten. -/
def plainText (digits : Text) (leading : Int) : Text :=
  if leading < 0 then
    ['0', '.'] ++ List.replicate ((-leading).toNat - 1) '0' ++ digits
  else
    let wholePlaces := leading.toNat + 1
    let whole := digits.take wholePlaces ++ List.replicate (wholePlaces - digits.length) '0'
    let fraction := digits.drop wholePlaces
    whole ++ ['.'] ++ (if fraction.isEmpty then ['0'] else fraction)

/-- Digits with an exponent, whose sign is always written. -/
def exponentText (digits : Text) (leading : Int) : Text :=
  let sign := if leading < 0 then '-' else '+'
  let fraction := digits.drop 1
  digits.take 1 ++ (if fraction.isEmpty then [] else '.' :: fraction) ++
    ['e', sign] ++ Text.decimal leading.natAbs

def positiveText (fraction : Decimal.BinaryFraction) : Text :=
  let shortest := Decimal.shortest fraction
  let written := Text.decimal shortest.digits
  let leading := shortest.exponent + (written.length - 1 : Nat)
  -- Zeros at the end say nothing once the power of the first digit is known.
  let digits := (written.reverse.dropWhile (· == '0')).reverse
  if fractionLayout.leastPlain ≤ leading ∧ leading ≤ fractionLayout.greatestPlain then
    plainText digits leading
  else exponentText digits leading

/-- The text of a finite binary fraction. Zero keeps its sign. -/
def fractionText (value : Float) : Text :=
  let bits := value.toBits
  let fraction := Decimal.BinaryFraction.ofBits bits
  let sign := if bits >>> 63 = 1 then ['-'] else []
  sign ++ if fraction.mantissa = 0 then ['0', '.', '0'] else positiveText fraction

def hexDigit (value : Nat) : Char :=
  Nat.digitChar value

def escapedChar (symbol : Char) : Text :=
  match symbol with
  | '"' => ['\\', '"']
  | '\\' => ['\\', '\\']
  | '\x08' => ['\\', 'b']
  | '\x0c' => ['\\', 'f']
  | '\n' => ['\\', 'n']
  | '\r' => ['\\', 'r']
  | '\t' => ['\\', 't']
  | _ =>
      if symbol < ' ' then
        ['\\', 'u', '0', '0', hexDigit (symbol.toNat / 16), hexDigit (symbol.toNat % 16)]
      else [symbol]

def quote (text : Text) : Text :=
  '"' :: text.flatMap escapedChar ++ ['"']

def boolText (value : Bool) : Text :=
  if value then ['t', 'r', 'u', 'e'] else ['f', 'a', 'l', 's', 'e']

def memberText (member : Text × Text) : Text :=
  quote member.1 ++ ':' :: member.2

/-- An object whose values have been written already. -/
def objectText (members : List (Text × Text)) : Text :=
  '{' :: [','].intercalate (members.map memberText) ++ ['}']

end Json

end RandomCodes

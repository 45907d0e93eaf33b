import RandomCodes.Text.Basic
/-!
# Reading JSON

A reader takes what it needs from the front of a text. It stops either because the text is not JSON
or because a value does not fit what is being read; the second kind of reason is left open. Nothing
behind the place where reading stopped is looked at.

A number is read into a significand of 64 bits and a decimal exponent. Digits that no longer fit
the significand count as places in front of the point, and are dropped behind it. A number with
fraction or exponent, and one too large for a machine word, is scaled to a binary fraction; one that
is too large even for that is refused.

Values nest up to a fixed depth, which bounds the reader. A text that nests deeper is refused.
-/

namespace RandomCodes.Json

inductive Number where
  /-- A whole number from `-2 ^ 63` to `2 ^ 64 - 1`, written without fraction and exponent. -/
  | whole (value : Int)
  | fractional (value : Float)

/-- A JSON value. -/
inductive Value where
  | null
  | boolean (value : Bool)
  | number (value : Number)
  | string (text : Text)
  | array (items : List Value)
  | object (members : List (Text × Value))

inductive Failure (Reason : Type) where
  | malformed
  | unfit (reason : Reason)
deriving DecidableEq, Repr

abbrev Reader (Reason : Type) := StateT Text (Except (Failure Reason))

namespace Reader

variable {Reason State : Type}

/-- Stops because the text is not JSON. -/
def malformed {α : Type} : Reader Reason α :=
  throw .malformed

/-- Takes the value of something that may not be there. -/
def ofOption {α : Type} : Option α → Reader Reason α
  | some value => pure value
  | none => malformed

/-- The characters that may stand between tokens. -/
def isBlank (symbol : Char) : Bool :=
  symbol == ' ' || symbol == '\n' || symbol == '\t' || symbol == '\r'

def skipBlank : Reader Reason Unit :=
  modify fun text => text.dropWhile isBlank

/-- Passes over blanks and says what comes then, without taking it. -/
def peek? : Reader Reason (Option Char) := do
  skipBlank
  return (← get).head?

/-- Takes the next character if it is `expected`, and says whether it was. -/
def takes (expected : Char) : Reader Reason Bool := fun text =>
  match text with
  | [] => .ok (false, [])
  | symbol :: rest =>
      if symbol = expected then .ok (true, rest) else .ok (false, symbol :: rest)

/-- Passes over blanks and takes the next character if it is `expected`. -/
def takesToken (expected : Char) : Reader Reason Bool := do
  skipBlank
  takes expected

def expect (expected : Char) : Reader Reason Unit := do
  unless ← takes expected do malformed

def expectWord (word : Text) : Reader Reason Unit :=
  word.forM expect

def hexDigit? (symbol : Char) : Option Nat :=
  if symbol.isDigit then some (symbol.toNat - '0'.toNat)
  else if 'a' ≤ symbol ∧ symbol ≤ 'f' then some (symbol.toNat - 'a'.toNat + 10)
  else if 'A' ≤ symbol ∧ symbol ≤ 'F' then some (symbol.toNat - 'A'.toNat + 10)
  else none

/-- The number that four hexadecimal digits stand for. -/
def hexWord? (first second third fourth : Char) : Option Nat := do
  return ((← hexDigit? first) * 16 + (← hexDigit? second)) * 256 +
    ((← hexDigit? third) * 16 + (← hexDigit? fourth))

/-- The character of a code point, which must not be a surrogate. -/
def charOfCode? (code : Nat) : Option Char :=
  if valid : code.isValidChar then some (Char.ofNatAux code valid) else none

/-- Whether a code point is the first of the two that stand for one character. -/
def isLeadingSurrogate (code : Nat) : Bool :=
  0xD800 ≤ code && code < 0xDC00

/-- The character of a leading surrogate and the code point behind it. -/
def charOfSurrogates? (leading trailing : Nat) : Option Char :=
  if 0xDC00 ≤ trailing ∧ trailing < 0xE000 then
    charOfCode? (0x10000 + (leading - 0xD800) * 0x400 + (trailing - 0xDC00))
  else none

/-- The character that one character behind a backslash stands for. -/
def shortEscape? : Char → Option Char
  | '"' => some '"'
  | '\\' => some '\\'
  | '/' => some '/'
  | 'b' => some '\x08'
  | 'f' => some '\x0c'
  | 'n' => some '\n'
  | 'r' => some '\r'
  | 't' => some '\t'
  | _ => none

/-- The characters up to the closing quote, and the text behind it. `leading` is a leading surrogate
that still lacks its other half, and `latestFirst` holds the characters read so far. -/
def stringBody? (leading : Option Nat) (latestFirst : Text) : Text → Option (Text × Text)
  | [] => none
  | '"' :: rest =>
      match leading with
      | some _ => none
      | none => some (latestFirst.reverse, rest)
  | '\\' :: 'u' :: first :: second :: third :: fourth :: rest => do
      let code ← hexWord? first second third fourth
      match leading with
      | some leading =>
          let symbol ← charOfSurrogates? leading code
          stringBody? none (symbol :: latestFirst) rest
      | none =>
          if isLeadingSurrogate code then stringBody? (some code) latestFirst rest
          else
            let symbol ← charOfCode? code
            stringBody? none (symbol :: latestFirst) rest
  | '\\' :: symbol :: rest =>
      match leading, shortEscape? symbol with
      | none, some symbol => stringBody? none (symbol :: latestFirst) rest
      | _, _ => none
  | symbol :: rest =>
      match leading with
      | some _ => none
      | none => if symbol < ' ' then none else stringBody? none (symbol :: latestFirst) rest

def string : Reader Reason Text := do
  expect '"'
  let (text, rest) ← ofOption (stringBody? none [] (← get))
  set rest
  return text

/-- Entries up to a closing bracket, with commas between them. Each entry is read in the light of
the state that the entries before it have led to. -/
def entries (closing : Char) (entry : State → Reader Reason State) (state : State) :
    Reader Reason State := do
  if ← takesToken closing then return state
  let state ← entry state
  further (← get).length state
where
  /-- The entries behind the first one, of which there are fewer than `bound`. Each takes at least
  its comma, so the length of the text is bound enough. -/
  further : (bound : Nat) → State → Reader Reason State
    | 0, _ => malformed
    | bound + 1, state => do
        if ← takesToken closing then return state
        if ← takesToken ',' then
          let state ← entry state
          further bound state
        else malformed

def memberName : Reader Reason Text := do
  skipBlank
  string

/-- The mark between the name of a member and its value. -/
def colon : Reader Reason Unit := do
  skipBlank
  expect ':'

end Reader

structure Significand where
  /-- The digits that fit 64 bits, as a number. -/
  value : Nat := 0
  /-- The power of ten by which the number differs from that. -/
  exponent : Int := 0
  /-- Whether a digit has been met that does not fit. -/
  full : Bool := false

namespace Significand

/-- The value with one more digit, where that fits 64 bits. -/
def extended? (significand : Significand) (digit : Char) : Option Nat :=
  let value := 10 * significand.value + (digit.toNat - '0'.toNat)
  if value < UInt64.size then some value else none

/-- Adds a digit in front of the point. Once a digit does not fit, all later ones only count. -/
def addWhole (significand : Significand) (digit : Char) : Significand :=
  match significand.full, significand.extended? digit with
  | false, some value => { significand with value }
  | _, _ => { significand with exponent := significand.exponent + 1, full := true }

/-- Adds a digit behind the point. Once a digit does not fit, all later ones are dropped. -/
def addFraction (significand : Significand) (digit : Char) : Significand :=
  match significand.full, significand.extended? digit with
  | false, some value => { significand with value, exponent := significand.exponent - 1 }
  | _, _ => { significand with full := true }

end Significand

/-- A power of ten. -/
def powerOfTen (exponent : Nat) : Float :=
  Float.ofScientific 1 false exponent

/-- The greatest power of ten that is a binary fraction. -/
def greatestPower : Nat := 308

/-- Divides by a power of ten, in steps where the power is too large. -/
def divideByPower (value : Float) (exponent : Nat) : Float :=
  if exponent ≤ greatestPower then value / powerOfTen exponent
  else if value == 0 then value
  else divideByPower (value / powerOfTen greatestPower) (exponent - greatestPower)
termination_by exponent
decreasing_by simp only [greatestPower] at *; omega

/-- A significand times a power of ten, unless that is too large. -/
def scaled? (significand : Nat) (exponent : Int) : Option Float :=
  let value := (UInt64.ofNat significand).toFloat
  if exponent < 0 then some (divideByPower value (-exponent).toNat)
  else if exponent.toNat ≤ greatestPower then
    let value := value * powerOfTen exponent.toNat
    if value.isInf then none else some value
  else if value == 0 then some value
  else none

/-- The greatest exponent that is told apart from larger ones. -/
def greatestExponent : Nat := 2147483647

namespace Reader

variable {Reason : Type}

/-- A run of digits, which may be empty. -/
def digits : Reader Reason Text := do
  let text ← get
  set (text.dropWhile Char.isDigit)
  return text.takeWhile Char.isDigit

/-- A run of digits, which may not be empty. -/
def someDigits : Reader Reason Text := do
  let run ← digits
  if run.isEmpty then malformed else return run

/-- The digits in front of the point: a zero on its own, or a run that starts with another digit. -/
def wholeDigits : Reader Reason Text := do
  let run ← someDigits
  if run.head? = some '0' ∧ run.length ≠ 1 then malformed else return run

/-- Takes the letter that an exponent begins with, and says whether it was there. -/
def takesExponentMark : Reader Reason Bool := do
  if ← takes 'e' then return true
  takes 'E'

/-- Whether an exponent is negative and its digits as a number, if there is one. -/
def exponent? : Reader Reason (Option (Bool × Nat)) := do
  if ← takesExponentMark then
    let negative ← takes '-'
    unless negative do discard (takes '+')
    return some (negative, Text.digitsValue (← someDigits))
  else return none

/-- The binary fraction of the digits and the exponent of a number. -/
def scaledNumber (negative : Bool) (significand : Significand) (exponent : Option (Bool × Nat)) :
    Option Float := do
  let magnitude ←
    match exponent with
    | none => scaled? significand.value significand.exponent
    | some (negativeExponent, places) =>
        if greatestExponent < places then
          if significand.value ≠ 0 ∧ !negativeExponent then none else some 0
        else if negativeExponent then
          scaled? significand.value (significand.exponent - places)
        else
          scaled? significand.value (significand.exponent + places)
  return if negative then -magnitude else magnitude

/-- A number. Minus zero is no whole number. -/
def number : Reader Reason Number := do
  let negative ← takes '-'
  let whole := (← wholeDigits).foldl Significand.addWhole {}
  if ← takes '.' then
    let significand := (← someDigits).foldl Significand.addFraction { whole with full := false }
    return .fractional (← ofOption (scaledNumber negative significand (← exponent?)))
  match ← exponent? with
  | some exponent =>
      return .fractional (← ofOption (scaledNumber negative whole (some exponent)))
  | none =>
      if whole.full then
        return .fractional (← ofOption (scaledNumber negative whole none))
      else if !negative then
        return .whole whole.value
      else if whole.value = 0 ∨ UInt64.size / 2 < whole.value then
        return .fractional (-(UInt64.ofNat whole.value).toFloat)
      else
        return .whole (-whole.value)

end Reader

/-- How many arrays and objects may stand inside one another. -/
def greatestDepth : Nat := 127

namespace Reader

variable {Reason : Type}

/-- A value with at most `depth` arrays and objects inside one another. -/
def value (depth : Nat) : Reader Reason Value := do
  match ← peek? with
  | none => malformed
  | some 'n' => expectWord ['n', 'u', 'l', 'l']; return .null
  | some 't' => expectWord ['t', 'r', 'u', 'e']; return .boolean true
  | some 'f' => expectWord ['f', 'a', 'l', 's', 'e']; return .boolean false
  | some '"' => return .string (← string)
  | some '[' =>
      match depth with
      | 0 => malformed
      | depth + 1 =>
          expect '['
          let latestFirst ← entries ']' (fun items => return (← value depth) :: items) []
          return .array latestFirst.reverse
  | some '{' =>
      match depth with
      | 0 => malformed
      | depth + 1 =>
          expect '{'
          let latestFirst ← entries '}' (fun members => do
            let name ← memberName
            colon
            return (name, ← value depth) :: members) []
          return .object latestFirst.reverse
  | some _ => return .number (← number)

/-- Nothing but blanks up to the end of the text. -/
def atEnd : Reader Reason Unit := do
  if (← peek?).isSome then malformed

end Reader

end RandomCodes.Json

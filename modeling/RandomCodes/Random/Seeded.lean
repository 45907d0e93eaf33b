import RandomCodes.Draws.Script
/-!
# Seeded sources

A seed fixes a generator, and the generator fixes every answer. The state of the generator is a
number of 128 bits that is multiplied by a constant at each step. A raw output folds the two halves
of the state together and rotates the result by the topmost bits, which hides the short periods of
the low bits.

Bounded numbers are drawn by taking raw words until one is accepted. A raw word of 64 bits is
widened by the size of the range: the upper half of the product says which number of the range it
is, and the lower half decides whether the word counts. Words whose lower half lies above the zone
are dropped, so that each number of the range keeps the same share.
-/

namespace RandomCodes

namespace Uniform

/-- The number of values from `low` to `high`. The full range has `2 ^ 64` values and wraps to
zero. -/
def rangeSize (low high : UInt64) : UInt64 :=
  high - low + 1

/-- The number of zeros above the highest set bit of `word`. -/
def leadingZeros (word : UInt64) : UInt64 :=
  63 - word.log2

/-- The greatest lower half that is accepted for a range of `size` values. -/
def zone (size : UInt64) : UInt64 :=
  (size <<< leadingZeros size) - 1

/-- The number between `low` and `high` that a raw word stands for, if the word is accepted. -/
def ofWord? (low high word : UInt64) : Option UInt64 :=
  let size := rangeSize low high
  if size = 0 then some word
  else
    let product := word.toNat * size.toNat
    if product % UInt64.size ≤ (zone size).toNat then
      some (low + UInt64.ofNat (product / UInt64.size))
    else none

end Uniform

/-- The state of a generator. -/
structure Congruential where
  state : BitVec 128
deriving DecidableEq, Repr

namespace Congruential

/-- One step of the sequence that stretches a seed. -/
def stretch (seed : UInt64) : UInt64 :=
  seed * 6364136223846793005 + 11634580027462260723

/-- The 32 bits taken from a member of the stretching sequence. -/
def seedWord (seed : UInt64) : BitVec 32 :=
  let folded := (((seed >>> 18) ^^^ seed) >>> 27).toBitVec.setWidth 32
  folded.rotateRight (seed >>> 59).toNat

/-- The generator of a seed: four words, the first one lowest, made odd. -/
def ofSeed (seed : UInt64) : Congruential :=
  let first := stretch seed
  let second := stretch first
  let third := stretch second
  let fourth := stretch third
  { state :=
      (seedWord fourth ++ seedWord third ++ seedWord second ++ seedWord first) ||| 1 }

/-- The factor of each step. -/
def multiplier : BitVec 128 := 0x2360ED051FC65DA44385DF649FCCF645

def advance (generator : Congruential) : Congruential :=
  { state := generator.state * multiplier }

def output (generator : Congruential) : UInt64 :=
  let high := generator.state.extractLsb' 64 64
  let low := generator.state.extractLsb' 0 64
  UInt64.ofBitVec ((high ^^^ low).rotateRight (generator.state.toNat >>> 122))

/-- The next raw output, and the generator after it. -/
def next (generator : Congruential) : UInt64 × Congruential :=
  let generator := generator.advance
  (generator.output, generator)

/-- The first accepted number among the next `attempts` raw words, and the generator after it. -/
def firstAccepted (low high : UInt64) :
    (attempts : Nat) → Congruential → Option (UInt64 × Congruential)
  | 0, _ => none
  | attempts + 1, generator =>
      let (word, generator) := generator.next
      match Uniform.ofWord? low high word with
      | some value => some (value, generator)
      | none => firstAccepted low high attempts generator

/-- A number between `low` and `high`, for `low ≤ high`. There are `2 ^ 128` states, so a generator
whose next `2 ^ 128` words are all dropped goes round in a cycle and never accepts any. -/
def uniform? (low high : UInt64) (generator : Congruential) :
    Option (UInt64 × Congruential) :=
  generator.firstAccepted low high (UInt64.size * UInt64.size)

/-- An index below `length`. An index into nothing is zero and leaves the generator alone. -/
def index? (length : UInt64) (generator : Congruential) : Option (UInt64 × Congruential) :=
  if length = 0 then some (0, generator)
  else generator.uniform? 0 (length - 1)

/-- A number between two bounds given in either order. -/
def between? (first second : UInt64) (generator : Congruential) :
    Option (UInt64 × Congruential) :=
  if first ≤ second then generator.uniform? first second
  else generator.uniform? second first

/-- The answer to a question on a generator. A question beyond 64 bits, which no word can serve,
gets the least number permitted. -/
def answer (call : Call) (generator : Congruential) : Nat × Congruential :=
  match call with
  | .index length =>
      if length < UInt64.size then
        match generator.index? (UInt64.ofNat length) with
        | some (value, generator) => (value.toNat, generator)
        | none => (0, generator)
      else (0, generator)
  | .between first second =>
      if max first second < UInt64.size then
        match generator.between? (UInt64.ofNat first) (UInt64.ofNat second) with
        | some (value, generator) => (value.toNat, generator)
        | none => (min first second, generator)
      else (min first second, generator)

def source : Source Congruential where
  answer := answer

end Congruential

end RandomCodes

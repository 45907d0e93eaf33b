import Mathlib.Algebra.Order.Floor.Div
import Mathlib.Data.Set.Card
import Mathlib.Order.Interval.Finset.Nat
import RandomCodes.Random.Seeded
/-!
# Equal shares of raw words

The words that stand for one number of a range are next to each other: their products with the size
of the range begin at a multiple of `2 ^ 64`, and those that count end at the zone. The zone has room
for `share` products whatever the multiple is, so each number of the range has that many words.
-/

namespace RandomCodes.Uniform

/-- The number of values from `low` to `high`, which can be `2 ^ 64`. -/
def rangeCount (low high : UInt64) : Nat :=
  high.toNat - low.toNat + 1

/-- The number of words that stand for each of `count` values. -/
def share (count : Nat) : Nat :=
  2 ^ (63 - count.log2)

theorem share_pos (count : Nat) : 0 < share count :=
  Nat.two_pow_pos _

theorem toNat_log2 (word : UInt64) : word.log2.toNat = word.toNat.log2 := rfl

theorem toNat_leadingZeros {size : UInt64} (nonzero : size ≠ 0) :
    (leadingZeros size).toNat = 63 - size.toNat.log2 := by
  have positive : size.toNat ≠ 0 := fun zero => nonzero (UInt64.toNat_inj.mp zero)
  have bound : size.toNat.log2 < 64 := (Nat.log2_lt positive).mpr size.toNat_lt
  have within : size.log2 ≤ 63 := by
    rw [UInt64.le_iff_toNat_le, toNat_log2]
    exact Nat.le_of_lt_succ bound
  rw [leadingZeros, UInt64.toNat_sub_of_le _ _ within]
  rfl

/-- The shares of all values together fit a word. -/
theorem mul_share_lt {count : Nat} (positive : count ≠ 0) (fits : count < UInt64.size) :
    count * share count < UInt64.size := by
  have bound : count.log2 < 64 := (Nat.log2_lt positive).mpr fits
  have exponent : count.log2 + 1 + (63 - count.log2) = 64 := by omega
  calc count * share count
      < 2 ^ (count.log2 + 1) * share count :=
        Nat.mul_lt_mul_of_pos_right Nat.lt_log2_self (share_pos count)
    _ = UInt64.size := by rw [share, ← Nat.pow_add, exponent]

/-- The zone has room for a share of each value. -/
theorem toNat_zone {size : UInt64} (nonzero : size ≠ 0) :
    (zone size).toNat + 1 = size.toNat * share size.toNat := by
  have positive : size.toNat ≠ 0 := fun zero => nonzero (UInt64.toNat_inj.mp zero)
  have room := mul_share_lt positive size.toNat_lt
  have shifted : (size <<< leadingZeros size).toNat = size.toNat * share size.toNat := by
    rw [UInt64.toNat_shiftLeft, toNat_leadingZeros nonzero, Nat.shiftLeft_eq, share]
    have small : (63 - size.toNat.log2) % 64 = 63 - size.toNat.log2 := by omega
    rw [small]
    exact Nat.mod_eq_of_lt room
  have one_le : 1 ≤ size <<< leadingZeros size := by
    rw [UInt64.le_iff_toNat_le, shifted]
    exact Nat.mul_pos (Nat.pos_of_ne_zero positive) (share_pos _)
  rw [zone, UInt64.toNat_sub_of_le _ _ one_le, shifted]
  rw [UInt64.le_iff_toNat_le, shifted] at one_le
  exact Nat.sub_add_cancel one_le

/-- The full range has room for one word of each value. -/
theorem share_size : share UInt64.size = 1 := by
  have size : UInt64.size = 2 ^ 64 := rfl
  rw [share, size, Nat.log2_two_pow]
  rfl

/-- A quotient and a bound on the remainder say between which products the dividend is. -/
theorem div_eq_and_mod_lt_iff {dividend divisor quotient room : Nat} (small : room ≤ divisor) :
    dividend / divisor = quotient ∧ dividend % divisor < room ↔
      quotient * divisor ≤ dividend ∧ dividend < quotient * divisor + room := by
  have whole := Nat.div_add_mod' dividend divisor
  constructor
  · intro parts
    obtain ⟨rfl, remainder⟩ := parts
    omega
  · intro between
    have next : dividend < (quotient + 1) * divisor := by
      rw [Nat.succ_mul]
      omega
    have same : dividend / divisor = quotient := Nat.div_eq_of_lt_le between.1 next
    rw [same] at whole
    exact ⟨same, by omega⟩

theorem rangeCount_pos (low high : UInt64) : 0 < rangeCount low high :=
  Nat.succ_pos _

theorem rangeCount_le (low high : UInt64) : rangeCount low high ≤ UInt64.size := by
  have bound := high.toNat_lt
  have size : UInt64.size = 2 ^ 64 := rfl
  rw [rangeCount]
  omega

theorem rangeCount_mul_share_le (low high : UInt64) :
    rangeCount low high * share (rangeCount low high) ≤ UInt64.size := by
  by_cases full : rangeCount low high = UInt64.size
  · rw [full, share_size, Nat.mul_one]
  · have fits := Nat.lt_of_le_of_ne (rangeCount_le low high) full
    exact Nat.le_of_lt (mul_share_lt (Nat.ne_of_gt (rangeCount_pos low high)) fits)

section Range

variable {low high : UInt64} (ordered : low ≤ high)

include ordered

/-- The size of a range is its number of values, unless that is too great for a word. -/
theorem toNat_rangeSize : (rangeSize low high).toNat = rangeCount low high % UInt64.size := by
  rw [rangeSize, UInt64.toNat_add, UInt64.toNat_sub_of_le _ _ ordered, rangeCount]
  rfl

theorem rangeSize_eq_zero_iff : rangeSize low high = 0 ↔ rangeCount low high = UInt64.size := by
  have bound := rangeCount_le low high
  have positive := rangeCount_pos low high
  rw [← UInt64.toNat_inj, toNat_rangeSize ordered]
  constructor
  · intro zero
    by_contra smaller
    have same := Nat.mod_eq_of_lt (Nat.lt_of_le_of_ne bound smaller)
    rw [same] at zero
    exact Nat.ne_of_gt positive zero
  · intro same
    rw [same, Nat.mod_self]
    rfl

/-- The full range has every word stand for itself. -/
theorem ofWord?_of_full (full : rangeCount low high = UInt64.size) (word : UInt64) :
    ofWord? low high word = some word := by
  rw [ofWord?, if_pos ((rangeSize_eq_zero_iff ordered).mpr full)]

/-- In any other range the product of the word and the number of values decides. -/
theorem ofWord?_of_ne_full (partially : rangeCount low high ≠ UInt64.size) (word : UInt64) :
    ofWord? low high word =
      if word.toNat * rangeCount low high % UInt64.size <
          rangeCount low high * share (rangeCount low high) then
        some (low + UInt64.ofNat (word.toNat * rangeCount low high / UInt64.size))
      else none := by
  have nonzero : rangeSize low high ≠ 0 := fun zero =>
    partially ((rangeSize_eq_zero_iff ordered).mp zero)
  have count : (rangeSize low high).toNat = rangeCount low high := by
    rw [toNat_rangeSize ordered]
    exact Nat.mod_eq_of_lt (Nat.lt_of_le_of_ne (rangeCount_le low high) partially)
  have zone_succ := toNat_zone nonzero
  rw [count] at zone_succ
  simp only [ofWord?, if_neg nonzero, count, ← zone_succ, Nat.lt_succ_iff]

/-- No value of the range is beyond a word, so counting up from `low` does not wrap. -/
theorem low_add_eq_iff
    {offset : Nat} (inside : offset < rangeCount low high) {value : UInt64} :
    low + UInt64.ofNat offset = value ↔
      low ≤ value ∧ value ≤ high ∧ offset = value.toNat - low.toNat := by
  have lowLe := UInt64.le_iff_toNat_le.mp ordered
  have highLt := high.toNat_lt
  have sum : (low + UInt64.ofNat offset).toNat = low.toNat + offset := by
    rw [UInt64.toNat_add, UInt64.toNat_ofNat']
    rw [rangeCount] at inside
    omega
  rw [← UInt64.toNat_inj, sum, UInt64.le_iff_toNat_le, UInt64.le_iff_toNat_le]
  rw [rangeCount] at inside
  omega

/-- A word stands for a value of the range when its product with the number of values is less than a
share of the range behind the multiple of `2 ^ 64` that belongs to the value. -/
theorem ofWord?_eq_some_iff {word value : UInt64} :
    ofWord? low high word = some value ↔
      (low ≤ value ∧ value ≤ high) ∧
        (value.toNat - low.toNat) * UInt64.size ≤ word.toNat * rangeCount low high ∧
        word.toNat * rangeCount low high <
          (value.toNat - low.toNat) * UInt64.size +
            rangeCount low high * share (rangeCount low high) := by
  by_cases full : rangeCount low high = UInt64.size
  · have size : UInt64.size = 2 ^ 64 := rfl
    have bounds : low.toNat = 0 ∧ high.toNat + 1 = UInt64.size := by
      have highLt := high.toNat_lt
      rw [rangeCount] at full
      omega
    have positive : 0 < UInt64.size := Nat.two_pow_pos 64
    rw [ofWord?_of_full ordered full, full, share_size, bounds.1, Nat.sub_zero, Nat.mul_one,
      ← Nat.succ_mul, Nat.mul_le_mul_right_iff positive, Nat.mul_lt_mul_right positive,
      Option.some.injEq, UInt64.le_iff_toNat_le, UInt64.le_iff_toNat_le, ← UInt64.toNat_inj]
    have valueLt := value.toNat_lt
    omega
  · have room := rangeCount_mul_share_le low high
    have inside : word.toNat * rangeCount low high / UInt64.size < rangeCount low high :=
      Nat.div_lt_of_lt_mul (Nat.mul_lt_mul_of_pos_right word.toNat_lt (rangeCount_pos low high))
    rw [ofWord?_of_ne_full ordered full, Option.ite_none_right_eq_some, Option.some.injEq,
      low_add_eq_iff ordered inside, ← div_eq_and_mod_lt_iff room]
    constructor
    · intro read
      obtain ⟨counts, lowLe, highLe, quotient⟩ := read
      exact ⟨⟨lowLe, highLe⟩, quotient, counts⟩
    · intro stands
      obtain ⟨⟨lowLe, highLe⟩, quotient, counts⟩ := stands
      exact ⟨counts, lowLe, highLe, quotient⟩

/-- The value of a word is exact: nothing wraps where it is put together. -/
theorem toNat_of_ofWord?_eq_some {word value : UInt64} (counts : ofWord? low high word = some value) :
    value.toNat = low.toNat + word.toNat * rangeCount low high / UInt64.size := by
  obtain ⟨⟨lowLe, _⟩, first, last⟩ := (ofWord?_eq_some_iff ordered).mp counts
  have room := rangeCount_mul_share_le low high
  have quotient := ((div_eq_and_mod_lt_iff room).mpr ⟨first, last⟩).1
  have below := UInt64.le_iff_toNat_le.mp lowLe
  omega

end Range

/-- Multiples of `count` between two bounds that are `length` multiples apart. -/
theorem mul_between_iff {count first length factor : Nat} (positive : 0 < count) :
    first ≤ factor * count ∧ factor * count < first + count * length ↔
      factor ∈ Finset.Ico (first ⌈/⌉ count) (first ⌈/⌉ count + length) := by
  rw [Finset.mem_Ico, ceilDiv_le_iff_le_mul positive, Nat.mul_comm factor]
  have last : count * factor < first + count * length ↔ factor < first ⌈/⌉ count + length := by
    by_cases few : factor < length
    · have less := Nat.mul_lt_mul_of_pos_left few positive
      omega
    · obtain ⟨further, rfl⟩ := Nat.exists_eq_add_of_le (Nat.le_of_not_lt few)
      have bound : first ⌈/⌉ count ≤ further ↔ first ≤ count * further :=
        ceilDiv_le_iff_le_mul positive
      rw [Nat.mul_add]
      omega
  rw [last]

/-- Every value of a range has its share of words. -/
theorem ncard_words
    {low high value : UInt64} (lowLe : low ≤ value) (highLe : value ≤ high) :
    {word | ofWord? low high word = some value}.ncard = share (rangeCount low high) := by
  have ordered : low ≤ high := UInt64.le_trans lowLe highLe
  have positive := rangeCount_pos low high
  have images : UInt64.toNat '' {word | ofWord? low high word = some value} =
      Finset.Ico ((value.toNat - low.toNat) * UInt64.size ⌈/⌉ rangeCount low high)
        ((value.toNat - low.toNat) * UInt64.size ⌈/⌉ rangeCount low high +
          share (rangeCount low high)) := by
    ext number
    rw [Set.mem_image, Finset.mem_coe, ← mul_between_iff positive]
    constructor
    · intro found
      obtain ⟨word, counts, rfl⟩ := found
      exact ((ofWord?_eq_some_iff ordered).mp counts).2
    · intro between
      have inside : value.toNat - low.toNat + 1 ≤ rangeCount low high := by
        have below := UInt64.le_iff_toNat_le.mp highLe
        rw [rangeCount]
        omega
      have product : number * rangeCount low high < UInt64.size * rangeCount low high :=
        calc number * rangeCount low high
            < (value.toNat - low.toNat) * UInt64.size +
                rangeCount low high * share (rangeCount low high) := between.2
          _ ≤ (value.toNat - low.toNat) * UInt64.size + UInt64.size :=
              Nat.add_le_add_left (rangeCount_mul_share_le low high) _
          _ = (value.toNat - low.toNat + 1) * UInt64.size := (Nat.succ_mul _ _).symm
          _ ≤ rangeCount low high * UInt64.size := Nat.mul_le_mul_right _ inside
          _ = UInt64.size * rangeCount low high := Nat.mul_comm _ _
      have fits : number < UInt64.size := Nat.lt_of_mul_lt_mul_right product
      have same : (UInt64.ofNat number).toNat = number := UInt64.toNat_ofNat_of_lt' fits
      refine ⟨UInt64.ofNat number, ?_, same⟩
      rw [Set.mem_ofPred_eq, ofWord?_eq_some_iff ordered, same]
      exact ⟨⟨lowLe, highLe⟩, between⟩
  have injective : Function.Injective UInt64.toNat := fun _ _ same => UInt64.toNat_inj.mp same
  rw [← Set.ncard_image_of_injective _ injective, images, Set.ncard_coe_finset, Nat.card_Ico,
    Nat.add_sub_cancel_left]

end RandomCodes.Uniform

import Mathlib.Dynamics.PeriodicPts.Lemmas
import RandomCodes.Proofs.Random.WordShares
import RandomCodes.Random.Threads
/-!
# Bounded numbers from a seeded generator

A number between two bounds is drawn by taking raw words until one is accepted. A generator goes
round in a cycle of at most `2 ^ 128` states, so a word that is not found among as many words is
never found. What is found has all the words of its value behind it, and each value between the
bounds has the same number of them.
-/

namespace RandomCodes

namespace Congruential

/-- The generator after `count` steps. -/
def after (generator : Congruential) (count : Nat) : Congruential :=
  advance^[count] generator

/-- The raw word that comes after `index` others. -/
def word (generator : Congruential) (index : Nat) : UInt64 :=
  (generator.after index).next.1

theorem after_next (generator : Congruential) (count : Nat) :
    generator.next.2.after count = generator.after (count + 1) :=
  (Function.iterate_succ_apply advance count generator).symm

theorem word_next (generator : Congruential) (index : Nat) :
    generator.next.2.word index = generator.word (index + 1) := by
  rw [word, word, after_next]

/-- The factor that takes a step back. -/
def inverse : BitVec 128 := 0x7dda22b9397986098abc8b0716eac8d

theorem multiplier_mul_inverse : multiplier * inverse = 1#128 := by
  decide

/-- No two states have the same state after them. -/
theorem advance_injective : Function.Injective advance := by
  intro generator other same
  have states : generator.state * multiplier = other.state * multiplier :=
    congrArg Congruential.state same
  have undone := congrArg (· * inverse) states
  simp only [BitVec.mul_assoc, multiplier_mul_inverse, BitVec.mul_one] at undone
  exact congrArg Congruential.mk undone

/-- Every generator comes back to its state after at most `2 ^ 128` steps. -/
theorem exists_period (generator : Congruential) :
    ∃ period, 0 < period ∧ period ≤ UInt64.size * UInt64.size ∧
      ∀ count, generator.after (count % period) = generator.after count := by
  have numbered : Function.Injective fun generator : Congruential => generator.state.toFin := by
    intro first second same
    exact congrArg Congruential.mk (BitVec.toFin_inj.mp same)
  let _ : Fintype Congruential := Fintype.ofInjective _ numbered
  refine ⟨Function.minimalPeriod advance generator, ?_, ?_, ?_⟩
  · exact Function.minimalPeriod_pos_of_mem_periodicPts (advance_injective.mem_periodicPts generator)
  · calc Function.minimalPeriod advance generator
        ≤ Fintype.card Congruential := Function.minimalPeriod_le_card
      _ ≤ Fintype.card (Fin (2 ^ 128)) := Fintype.card_le_of_injective _ numbered
      _ = UInt64.size * UInt64.size := Fintype.card_fin _
  · intro count
    exact Function.iterate_mod_minimalPeriod_eq

/-- The raw word after `dropped` others is the first that stands for a number between `low` and
`high`, and it stands for `value`. -/
structure Accepts (low high : UInt64) (generator : Congruential) (dropped : Nat) (value : UInt64) :
    Prop where
  refused : ∀ index < dropped, Uniform.ofWord? low high (generator.word index) = none
  counts : Uniform.ofWord? low high (generator.word dropped) = some value

variable {low high value : UInt64} {generator later : Congruential}

theorem accepts_zero_iff :
    Accepts low high generator 0 value ↔ Uniform.ofWord? low high generator.next.1 = some value := by
  constructor
  · intro accepts
    exact accepts.counts
  · intro counts
    exact ⟨fun index fewer => absurd fewer (Nat.not_lt_zero index), counts⟩

theorem accepts_succ_iff {dropped : Nat} :
    Accepts low high generator (dropped + 1) value ↔
      Uniform.ofWord? low high generator.next.1 = none ∧
        Accepts low high generator.next.2 dropped value := by
  constructor
  · intro accepts
    refine ⟨accepts.refused 0 (Nat.succ_pos dropped), ?_, ?_⟩
    · intro index fewer
      rw [word_next]
      exact accepts.refused (index + 1) (Nat.succ_lt_succ fewer)
    · rw [word_next]
      exact accepts.counts
  · intro parts
    obtain ⟨first, accepts⟩ := parts
    refine ⟨?_, ?_⟩
    · intro index fewer
      cases index with
      | zero => exact first
      | succ index =>
          rw [← word_next]
          exact accepts.refused index (Nat.lt_of_succ_lt_succ fewer)
    · rw [← word_next]
      exact accepts.counts

theorem firstAccepted_of_counts
    (counts : Uniform.ofWord? low high generator.next.1 = some value) (attempts : Nat) :
    generator.firstAccepted low high (attempts + 1) = some (value, generator.next.2) := by
  simp only [firstAccepted, counts]

theorem firstAccepted_of_refused
    (refused : Uniform.ofWord? low high generator.next.1 = none) (attempts : Nat) :
    generator.firstAccepted low high (attempts + 1) =
      generator.next.2.firstAccepted low high attempts := by
  simp only [firstAccepted, refused]

/-- What is drawn is the first word that counts, where it is among the words tried. -/
theorem firstAccepted_eq_some_iff {attempts : Nat} :
    generator.firstAccepted low high attempts = some (value, later) ↔
      ∃ dropped < attempts, Accepts low high generator dropped value ∧
        later = generator.after (dropped + 1) := by
  induction attempts generalizing generator with
  | zero => simp [firstAccepted]
  | succ attempts inductionHypothesis =>
      rw [Nat.exists_lt_succ_left, accepts_zero_iff]
      simp only [accepts_succ_iff, ← after_next generator (_ + 1)]
      cases first : Uniform.ofWord? low high generator.next.1 with
      | some number =>
          rw [firstAccepted_of_counts first, Nat.zero_add, ← after_next]
          have start : generator.next.2.after 0 = generator.next.2 := rfl
          simp only [start, reduceCtorEq, false_and, and_false, exists_const, or_false,
            Option.some.injEq, Prod.mk.injEq, eq_comm]
      | none =>
          rw [firstAccepted_of_refused first, inductionHypothesis]
          simp only [reduceCtorEq, false_and, true_and, false_or]

/-- A word that counts is found among the first `2 ^ 128` words or not at all. -/
theorem Accepts.within {dropped : Nat} (accepts : Accepts low high generator dropped value) :
    dropped < UInt64.size * UInt64.size := by
  obtain ⟨period, positive, bounded, comes_back⟩ := exists_period generator
  have again : generator.word (dropped % period) = generator.word dropped := by
    rw [word, word, comes_back]
  by_contra many
  have fewer : dropped % period < dropped :=
    Nat.lt_of_lt_of_le (Nat.mod_lt dropped positive) (Nat.le_trans bounded (Nat.le_of_not_lt many))
  -- The same word has come before, where it was refused.
  have refused := accepts.refused _ fewer
  rw [again, accepts.counts] at refused
  cases refused

/-- A number is drawn exactly where taking word after word comes to an end. -/
theorem uniform?_eq_some_iff :
    generator.uniform? low high = some (value, later) ↔
      ∃ dropped, Accepts low high generator dropped value ∧
        later = generator.after (dropped + 1) := by
  rw [uniform?, firstAccepted_eq_some_iff]
  constructor
  · intro found
    obtain ⟨dropped, _, reached⟩ := found
    exact ⟨dropped, reached⟩
  · intro found
    obtain ⟨dropped, accepts, reached⟩ := found
    exact ⟨dropped, accepts.within, accepts, reached⟩

/-- Numbers from `low` to `high` are drawn fairly. Raw words that stand for no number are dropped and
the first other one is taken, so nothing is returned only where this goes on for ever. The number of
a word is put together without wrapping and lies between the bounds, and all numbers between them
have equally many words. -/
structure DrawsFairly
    (draw : Congruential → Option (UInt64 × Congruential)) (low high : UInt64) : Prop where
  returns : ∀ generator value later, draw generator = some (value, later) ↔
    ∃ dropped, Accepts low high generator dropped value ∧ later = generator.after (dropped + 1)
  unwrapped : ∀ word value, Uniform.ofWord? low high word = some value →
    value.toNat = low.toNat + word.toNat * (high.toNat - low.toNat + 1) / 2 ^ 64
  inside : ∀ word value, Uniform.ofWord? low high word = some value → low ≤ value ∧ value ≤ high
  shares : ∃ share, 0 < share ∧ ∀ value, low ≤ value → value ≤ high →
    {word | Uniform.ofWord? low high word = some value}.ncard = share

theorem uniform?_drawsFairly (ordered : low ≤ high) :
    DrawsFairly (uniform? low high) low high where
  returns := fun _ _ _ => uniform?_eq_some_iff
  unwrapped := fun _ _ => Uniform.toNat_of_ofWord?_eq_some ordered
  inside := fun _ _ counts => ((Uniform.ofWord?_eq_some_iff ordered).mp counts).1
  shares := ⟨Uniform.share (Uniform.rangeCount low high), Uniform.share_pos _,
    fun _ => Uniform.ncard_words⟩

theorem DrawsFairly.between
    {draw : Congruential → Option (UInt64 × Congruential)} (fair : DrawsFairly draw low high)
    (drawn : draw generator = some (value, later)) : low ≤ value ∧ value ≤ high := by
  obtain ⟨dropped, accepts, _⟩ := (fair.returns generator value later).mp drawn
  exact fair.inside _ _ accepts.counts

theorem index?_drawsFairly {length : UInt64} (positive : 0 < length) :
    DrawsFairly (index? length) 0 (length - 1) := by
  have nonzero : length ≠ 0 := fun zero => UInt64.lt_irrefl 0 (zero ▸ positive)
  have same : index? length = uniform? 0 (length - 1) := by
    funext generator
    rw [index?, if_neg nonzero]
  rw [same]
  exact uniform?_drawsFairly UInt64.zero_le

theorem between?_of_le {first second : UInt64} (ordered : first ≤ second) :
    between? first second = uniform? first second := by
  funext generator
  rw [between?, if_pos ordered]

/-- The order in which bounds are given does not matter. -/
theorem between?_comm (first second : UInt64) : between? first second = between? second first := by
  funext generator
  by_cases ordered : first ≤ second
  · by_cases reversed : second ≤ first
    · rw [UInt64.le_antisymm ordered reversed]
    · rw [between?, between?, if_pos ordered, if_neg reversed]
  · have reversed : second ≤ first := (UInt64.le_total first second).resolve_left ordered
    rw [between?, between?, if_neg ordered, if_pos reversed]

/-- Numbers between two bounds, given in either order, are drawn fairly. -/
theorem between?_drawsFairly (first second : UInt64) :
    DrawsFairly (between? first second) (min first second) (max first second) := by
  by_cases ordered : first ≤ second
  · have least : min first second = first := if_pos ordered
    have greatest : max first second = second := if_pos ordered
    rw [least, greatest, between?_of_le ordered]
    exact uniform?_drawsFairly ordered
  · have reversed : second ≤ first := (UInt64.le_total first second).resolve_left ordered
    have least : min first second = second := if_neg ordered
    have greatest : max first second = first := if_neg ordered
    rw [least, greatest, between?_comm, between?_of_le reversed]
    exact uniform?_drawsFairly reversed

theorem index?_lt {length : UInt64} (positive : 0 < length)
    (drawn : generator.index? length = some (value, later)) : value < length := by
  have below := UInt64.le_iff_toNat_le.mp ((index?_drawsFairly positive).between drawn).2
  have one_le : 1 ≤ length := UInt64.le_iff_toNat_le.mpr (UInt64.lt_iff_toNat_lt.mp positive)
  rw [UInt64.toNat_sub_of_le _ _ one_le] at below
  rw [UInt64.lt_iff_toNat_lt]
  exact Nat.lt_of_le_sub_one (UInt64.lt_iff_toNat_lt.mp positive) below

/-- The generator decides what a source answers, and goes on behind the source. -/
theorem draw_index
    {world : Threads.World} {origin : Threads.Origin}
    (found : world.generator? origin = some generator) {length : UInt64}
    (drawn : generator.index? length = some (value, later)) :
    world.draw origin (Draws.index length.toNat) =
      some (value.toNat, world.setGenerator origin later) := by
  rw [Threads.World.draw_eq found]
  simp only [Draws.index, Draws.run_ask, Draws.run_done, source, answer, length.toNat_lt_size,
    if_true, UInt64.ofNat_toNat, drawn]

theorem draw_between
    {world : Threads.World} {origin : Threads.Origin}
    (found : world.generator? origin = some generator) {first second : UInt64}
    (drawn : generator.between? first second = some (value, later)) :
    world.draw origin (Draws.between first.toNat second.toNat) =
      some (value.toNat, world.setGenerator origin later) := by
  have fits : max first.toNat second.toNat < UInt64.size :=
    Nat.max_lt.mpr ⟨first.toNat_lt_size, second.toNat_lt_size⟩
  rw [Threads.World.draw_eq found]
  simp only [Draws.between, Draws.run_ask, Draws.run_done, source, answer, fits,
    if_true, UInt64.ofNat_toNat, drawn]

/-- Indices and numbers between two bounds are drawn fairly from every state of the generator, over
all of 64 bits, and every source hands on what its generator draws. -/
theorem draws_are_fair :
    (∀ generator, index? 0 generator = some (0, generator)) ∧
      (∀ length, 0 < length →
        DrawsFairly (index? length) 0 (length - 1) ∧
          ∀ generator value later,
            index? length generator = some (value, later) → value < length) ∧
      (∀ first second,
        between? first second = between? second first ∧
          DrawsFairly (between? first second) (min first second) (max first second) ∧
          ∀ generator value later, between? first second generator = some (value, later) →
            min first second ≤ value ∧ value ≤ max first second) ∧
      ∀ (world : Threads.World) origin generator, world.generator? origin = some generator →
        (∀ length value later, index? length generator = some (value, later) →
          world.draw origin (Draws.index length.toNat) =
            some (value.toNat, world.setGenerator origin later)) ∧
        ∀ first second value later, between? first second generator = some (value, later) →
          world.draw origin (Draws.between first.toNat second.toNat) =
            some (value.toNat, world.setGenerator origin later) := by
  refine ⟨?_, ?_, ?_, ?_⟩
  · intro generator
    rw [index?, if_pos rfl]
  · intro length positive
    exact ⟨index?_drawsFairly positive, fun _ _ _ => index?_lt positive⟩
  · intro first second
    have fair := between?_drawsFairly first second
    exact ⟨between?_comm first second, fair, fun _ _ _ => fair.between⟩
  · intro world origin generator found
    exact ⟨fun _ _ _ => draw_index found, fun _ _ _ _ => draw_between found⟩

end Congruential

end RandomCodes

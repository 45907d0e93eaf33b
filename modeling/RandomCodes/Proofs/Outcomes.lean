import RandomCodes.Draws.Script
/-!
# What programs return and what they ask

A program can return a value when some sequence of permitted answers leads to it. Every run from a
lawful source ends with such a value, and every such value is reached by replaying a list of
answers. So what holds of all values that a program can return holds of all lawful runs, and nothing
that it can return is out of reach.

Two programs diverge when, whatever is answered, they ask the same questions for a while and then
different ones. A record of what a source is asked tells such programs apart, whatever the source
answers.

Two programs ask alike if they ask the same questions in the same order, whatever each of them is
answered. Nothing is said about the answers, which may differ at every question, so two programs
that ask alike can be run from two sources that have nothing in common: the records of the questions
are the same, and the values are related in the way that is claimed.
-/

namespace RandomCodes

variable {State α β : Type}

namespace Draws

/-- Some permitted answers make the program return `value`. -/
def CanReturn : Draws α → α → Prop
  | done returned, value => value = returned
  | ask call next, value => ∃ answer, call.Permits answer ∧ (next answer).CanReturn value

@[simp]
theorem canReturn_done (returned value : α) :
    (done returned).CanReturn value ↔ value = returned := Iff.rfl

@[simp]
theorem canReturn_pure (returned value : α) :
    (pure returned : Draws α).CanReturn value ↔ value = returned := Iff.rfl

theorem canReturn_ask (call : Call) (next : Nat → Draws α) (value : α) :
    (ask call next).CanReturn value ↔
      ∃ answer, call.Permits answer ∧ (next answer).CanReturn value := Iff.rfl

@[simp]
theorem canReturn_bind (program : Draws α) (following : α → Draws β) (value : β) :
    (program >>= following).CanReturn value ↔
      ∃ first, program.CanReturn first ∧ (following first).CanReturn value := by
  induction program with
  | done returned => simp
  | ask call next inductionHypothesis =>
      simp only [ask_bind, canReturn_ask, inductionHypothesis]
      constructor
      · rintro ⟨answer, permitted, first, returned, followed⟩
        exact ⟨first, ⟨answer, permitted, returned⟩, followed⟩
      · rintro ⟨first, ⟨answer, permitted, returned⟩, followed⟩
        exact ⟨answer, permitted, first, returned, followed⟩

@[simp]
theorem canReturn_map (function : α → β) (program : Draws α) (value : β) :
    (function <$> program).CanReturn value ↔
      ∃ first, program.CanReturn first ∧ value = function first := by
  rw [map_eq_pure_bind, canReturn_bind]
  rfl

theorem canReturn_index {length : Nat} (positive : 0 < length) (value : Nat) :
    (index length).CanReturn value ↔ value < length := by
  simp [index, canReturn_ask, Call.Permits, positive]

theorem canReturn_between {least most : Nat} (ordered : least ≤ most) (value : Nat) :
    (between least most).CanReturn value ↔ least ≤ value ∧ value ≤ most := by
  simp [between, canReturn_ask, Call.Permits, ordered]

/-- Each item of a list can be chosen, and nothing else. -/
theorem canReturn_sample? {items : List α} (nonempty : items ≠ []) (choice : Option α) :
    (sample? items).CanReturn choice ↔ ∃ item ∈ items, choice = some item := by
  obtain ⟨head, tail, rfl⟩ := List.exists_cons_of_ne_nil nonempty
  have positive : 0 < (head :: tail).length := by simp
  simp only [sample?, canReturn_bind, canReturn_index positive, canReturn_pure]
  constructor
  · rintro ⟨position, inside, rfl⟩
    exact ⟨(head :: tail)[position], List.getElem_mem inside, List.getElem?_eq_getElem inside⟩
  · rintro ⟨item, member, rfl⟩
    obtain ⟨position, inside, found⟩ := List.getElem_of_mem member
    exact ⟨position, inside, by rw [List.getElem?_eq_getElem inside, found]⟩

/-- A lawful source only leads to values that can be returned. -/
theorem canReturn_run
    {source : Source State} (lawful : source.Lawful) (program : Draws α) (state : State) :
    program.CanReturn (program.run source state).1 := by
  induction program generalizing state with
  | done value => rfl
  | ask call next inductionHypothesis =>
      rw [canReturn_ask, run_ask]
      exact ⟨(source.answer call state).1, lawful call state, inductionHypothesis _ _⟩

end Draws

namespace Replay

/-- An answer that is permitted whatever the call. -/
def leastAnswer : Call → Nat
  | .index _ => 0
  | .between first second => min first second

theorem permits_leastAnswer (call : Call) : call.Permits (leastAnswer call) := by
  cases call with
  | index length => exact id
  | between first second =>
      simp only [leastAnswer, Call.Permits]
      omega

/-- Gives the listed answers one after the other. Where one is not permitted, or none is left, the
least permitted answer takes its place. -/
def source : Source (List Nat) where
  answer call answers :=
    match answers with
    | [] => (leastAnswer call, [])
    | answer :: rest => (if call.Permits answer then answer else leastAnswer call, rest)

theorem source_permits : source.Lawful := by
  intro call answers
  cases answers with
  | nil => exact permits_leastAnswer call
  | cons answer rest =>
      simp only [source]
      split
      · assumption
      · exact permits_leastAnswer call

theorem recorded_run_ask_cons
    {call : Call} {answer : Nat} (permitted : call.Permits answer) (next : Nat → Draws α)
    (rest : List Nat) (earlier : List (Call × Nat)) :
    (Draws.ask call next).run source.recorded { state := answer :: rest, latestFirst := earlier } =
      (next answer).run source.recorded
        { state := rest, latestFirst := (call, answer) :: earlier } := by
  simp [source, Source.recorded, permitted]

theorem exists_recorded_run_eq_of_canReturn
    {program : Draws α} {value : α} (returned : program.CanReturn value) :
    ∃ answers, ∀ earlier, ∃ calls : List (Call × Nat), calls.map Prod.snd = answers ∧
      program.run source.recorded { state := answers, latestFirst := earlier } =
        (value, { state := [], latestFirst := calls.reverse ++ earlier }) := by
  -- `earlier` varies: each answer that is replayed goes on the record before the next question.
  induction program with
  | done result =>
      obtain rfl := (Draws.canReturn_done result value).mp returned
      exact ⟨[], fun earlier => ⟨[], rfl, rfl⟩⟩
  | ask call next inductionHypothesis =>
      obtain ⟨answer, permitted, followed⟩ := returned
      obtain ⟨answers, replayed⟩ := inductionHypothesis answer followed
      refine ⟨answer :: answers, fun earlier => ?_⟩
      obtain ⟨calls, given, run⟩ := replayed ((call, answer) :: earlier)
      refine ⟨(call, answer) :: calls, by rw [List.map_cons, given], ?_⟩
      rw [recorded_run_ask_cons permitted, run, List.reverse_cons, List.append_assoc,
        List.singleton_append]

/-- Whatever a program can return is reached by answers that are given one by one and used up. -/
theorem exists_run_eq_of_canReturn
    {program : Draws α} {value : α} (returned : program.CanReturn value) :
    ∃ answers, program.run source answers = (value, []) ∧
      (program.run source.recorded { state := answers }).2.calls.map Prod.snd = answers := by
  obtain ⟨answers, replayed⟩ := exists_recorded_run_eq_of_canReturn returned
  obtain ⟨calls, given, run⟩ := replayed []
  have plain := Draws.run_recorded source program { state := answers }
  rw [run] at plain
  refine ⟨answers, Prod.ext plain.1.symm plain.2.symm, ?_⟩
  rw [run, Recording.calls, List.append_nil, List.reverse_reverse, given]

end Replay

namespace Draws

variable {γ δ : Type}

/-- After the same questions, as many as the answers allow, the programs ask different ones. -/
inductive Diverges : Draws α → Draws β → Prop
  | calls {call other next following} :
      call ≠ other → Diverges (ask call next) (ask other following)
  | answers {call next following} :
      (∀ answer, Diverges (next answer) (following answer)) →
      Diverges (ask call next) (ask call following)

namespace Diverges

theorem bind
    {first : Draws α} {second : Draws β} (diverges : first.Diverges second)
    (firstNext : α → Draws γ) (secondNext : β → Draws δ) :
    (first >>= firstNext).Diverges (second >>= secondNext) := by
  induction diverges with
  | calls different => exact .calls different
  | answers _ inductionHypothesis => exact .answers inductionHypothesis

theorem map
    {first : Draws α} {second : Draws β} (diverges : first.Diverges second)
    (firstImage : α → γ) (secondImage : β → δ) :
    (firstImage <$> first).Diverges (secondImage <$> second) := by
  rw [map_eq_pure_bind, map_eq_pure_bind]
  exact diverges.bind _ _

/-- What is asked in front of two programs that diverge does not bring them together. -/
theorem after
    (program : Draws α) {first : α → Draws γ} {second : α → Draws δ}
    (diverges : ∀ value, (first value).Diverges (second value)) :
    (program >>= first).Diverges (program >>= second) := by
  induction program with
  | done value => exact diverges value
  | ask call next inductionHypothesis => exact .answers inductionHypothesis

end Diverges

/-- A run puts its calls in front of those recorded before. -/
theorem exists_recorded_eq_append
    (source : Source State) (program : Draws α) (recording : Recording State) :
    ∃ calls, (program.run source.recorded recording).2.latestFirst =
      calls ++ recording.latestFirst := by
  induction program generalizing recording with
  | done value => exact ⟨[], rfl⟩
  | ask call next inductionHypothesis =>
      obtain ⟨calls, recorded⟩ := inductionHypothesis
        (source.recorded.answer call recording).1 (source.recorded.answer call recording).2
      refine ⟨calls ++ [(call, (source.recorded.answer call recording).1)], ?_⟩
      rw [run_ask, recorded, List.append_assoc]
      rfl

theorem Diverges.recorded_ne
    {first : Draws α} {second : Draws β} (diverges : first.Diverges second)
    (source : Source State) (recording : Recording State) :
    (first.run source.recorded recording).2.latestFirst ≠
      (second.run source.recorded recording).2.latestFirst := by
  induction diverges generalizing recording with
  | @calls call other next following different =>
      intro same
      obtain ⟨calls, recorded⟩ := exists_recorded_eq_append source
        (next (source.recorded.answer call recording).1)
        (source.recorded.answer call recording).2
      obtain ⟨others, otherRecorded⟩ := exists_recorded_eq_append source
        (following (source.recorded.answer other recording).1)
        (source.recorded.answer other recording).2
      rw [run_ask, run_ask, recorded, otherRecorded] at same
      have latest := List.append_inj_right' same rfl
      have pair := (List.cons.inj latest).1
      exact different (Prod.mk.inj pair).1
  | answers _ inductionHypothesis =>
      rw [run_ask, run_ask]
      exact inductionHypothesis _ _

variable {Other : Type} {Related : α → β → Prop} {Following : γ → δ → Prop}

/-- The two programs ask the same questions, whatever the answers to each of them, and have related
values in the end. -/
inductive Alike (Related : α → β → Prop) : Draws α → Draws β → Prop
  | done {value : α} {other : β} : Related value other → Alike Related (.done value) (.done other)
  | ask (call : Call) {next : Nat → Draws α} {otherNext : Nat → Draws β} :
      (∀ answer otherAnswer, Alike Related (next answer) (otherNext otherAnswer)) →
      Alike Related (.ask call next) (.ask call otherNext)

namespace Alike

variable {program : Draws α} {other : Draws β}

theorem pure {value : α} {otherValue : β} (related : Related value otherValue) :
    Alike Related (Pure.pure value) (Pure.pure otherValue) :=
  .done related

theorem bind
    (alike : Alike Related program other) {following : α → Draws γ} {otherFollowing : β → Draws δ}
    (behind : ∀ value otherValue, Related value otherValue →
      Alike Following (following value) (otherFollowing otherValue)) :
    Alike Following (program >>= following) (other >>= otherFollowing) := by
  induction alike with
  | done related => exact behind _ _ related
  | ask call _ inductionHypothesis => exact .ask call inductionHypothesis

theorem map
    (alike : Alike Related program other) {function : α → γ} {otherFunction : β → δ}
    (mapped : ∀ value otherValue, Related value otherValue →
      Following (function value) (otherFunction otherValue)) :
    Alike Following (function <$> program) (otherFunction <$> other) := by
  rw [map_eq_pure_bind, map_eq_pure_bind]
  exact alike.bind fun value otherValue related => .done (mapped value otherValue related)

theorem mono
    (alike : Alike Related program other) {Weaker : α → β → Prop}
    (weaker : ∀ value otherValue, Related value otherValue → Weaker value otherValue) :
    Alike Weaker program other := by
  induction alike with
  | done related => exact .done (weaker _ _ related)
  | ask call _ inductionHypothesis => exact .ask call inductionHypothesis

theorem index (length : Nat) : Alike (fun _ _ => True) (Draws.index length) (Draws.index length) :=
  .ask _ fun _ _ => .done trivial

theorem between (first second : Nat) :
    Alike (fun _ _ => True) (Draws.between first second) (Draws.between first second) :=
  .ask _ fun _ _ => .done trivial

theorem sample? (items : List γ) :
    Alike (fun _ _ => True) (Draws.sample? items) (Draws.sample? items) := by
  cases items with
  | nil => exact .done trivial
  | cons head tail => exact (index _).bind fun _ _ _ => .done trivial

/-- From any two sources, the records go on with the same questions. -/
theorem run
    (alike : Alike Related program other) (source : Source State) (otherSource : Source Other)
    (recording : Recording State) (otherRecording : Recording Other)
    (same : recording.calls.map Prod.fst = otherRecording.calls.map Prod.fst) :
    Related (program.run source.recorded recording).1
        (other.run otherSource.recorded otherRecording).1 ∧
      (program.run source.recorded recording).2.calls.map Prod.fst =
        (other.run otherSource.recorded otherRecording).2.calls.map Prod.fst := by
  induction alike generalizing recording otherRecording with
  | done related => exact ⟨related, same⟩
  | ask call _ inductionHypothesis =>
      apply inductionHypothesis
      simp only [Recording.calls] at same
      simp only [Recording.calls, List.reverse_cons, List.map_append, same,
        List.map_cons, List.map_nil]

end Alike

end Draws

end RandomCodes

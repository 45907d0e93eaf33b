import RandomCodes.Draws.Basic
/-!
# Sources of answers

A source answers questions from a state of its own. Running a program against a source gives the
value of the program and the state the source is left in.

A script is a list of raw numbers that is gone through again and again. Each question takes the
next number and reduces it to the range asked for, so every answer is permitted.
-/

namespace RandomCodes

variable {State α β : Type}

/-- Something that answers questions, and may change its state while it does. -/
structure Source (State : Type) where
  answer : Call → State → Nat × State

namespace Source

/-- A source is lawful when each of its answers lies where the question asks for it. -/
def Lawful (source : Source State) : Prop :=
  ∀ (call : Call) (state : State), call.Permits (source.answer call state).1

end Source

namespace Draws

/-- The value of a program whose questions are answered by `source`, and the state after it. -/
def run (source : Source State) : Draws α → State → α × State
  | done value, state => (value, state)
  | ask call next, state =>
      let (answer, state) := source.answer call state
      run source (next answer) state

@[simp]
theorem run_done (source : Source State) (value : α) (state : State) :
    (done value).run source state = (value, state) := rfl

@[simp]
theorem run_ask (source : Source State) (call : Call) (next : Nat → Draws α) (state : State) :
    (ask call next).run source state =
      (next (source.answer call state).1).run source (source.answer call state).2 := rfl

/-- A sequence of two programs runs the second where the first has left the source. -/
theorem run_bind
    (source : Source State) (program : Draws α) (following : α → Draws β) (state : State) :
    (program >>= following).run source state =
      (following (program.run source state).1).run source (program.run source state).2 := by
  induction program generalizing state with
  | done value => rfl
  | ask call next inductionHypothesis =>
      simp only [ask_bind, run_ask, inductionHypothesis]

/-- What is made of the value of a program does not reach the source. -/
theorem run_map
    (source : Source State) (function : α → β) (program : Draws α) (state : State) :
    (function <$> program).run source state =
      (function (program.run source state).1, (program.run source state).2) := by
  rw [map_eq_pure_bind, run_bind]
  rfl

end Draws

/-- A state together with the calls made so far and their answers, the latest first. -/
structure Recording (State : Type) where
  state : State
  latestFirst : List (Call × Nat) := []

namespace Recording

/-- The calls and their answers in the order in which they were made. -/
def calls (recording : Recording State) : List (Call × Nat) :=
  recording.latestFirst.reverse

/-- The number of calls made so far. -/
def count (recording : Recording State) : Nat :=
  recording.latestFirst.length

end Recording

/-- The same source, keeping a record of what it is asked and what it answers. -/
def Source.recorded (source : Source State) : Source (Recording State) where
  answer call recording :=
    let (answer, state) := source.answer call recording.state
    (answer, { state, latestFirst := (call, answer) :: recording.latestFirst })

/-- Recording changes neither the value of a program nor the state of the recorded source. -/
theorem Draws.run_recorded
    (source : Source State) (program : Draws α) (recording : Recording State) :
    (program.run source.recorded recording).1 = (program.run source recording.state).1 ∧
      (program.run source.recorded recording).2.state =
        (program.run source recording.state).2 := by
  induction program generalizing recording with
  | done value => exact ⟨rfl, rfl⟩
  | ask call next inductionHypothesis =>
      simp only [run_ask]
      exact inductionHypothesis _ _

/-- A list of raw numbers to take in turn, and those left before it starts again. -/
structure Script where
  values : List Nat
  upcoming : List Nat := values

namespace Script

/-- The next number; an empty script has zeros only. -/
def next (script : Script) : Nat × Script :=
  match script.upcoming with
  | value :: rest => (value, { script with upcoming := rest })
  | [] =>
      match script.values with
      | value :: rest => (value, { script with upcoming := rest })
      | [] => (0, script)

/-- Reduces the next number to the range of the question. An index into nothing is zero and takes
no number. -/
def source : Source Script where
  answer
    | .index length, script =>
        if length = 0 then (0, script)
        else
          let (value, script) := script.next
          (value % length, script)
    | .between first second, script =>
        let (value, script) := script.next
        let low := min first second
        (low + value % (max first second - low + 1), script)

theorem source_lawful : source.Lawful := by
  intro call script
  cases call with
  | index length =>
      intro positive
      have nonzero : length ≠ 0 := Nat.ne_of_gt positive
      simp only [source, if_neg nonzero]
      exact Nat.mod_lt _ positive
  | between first second =>
      simp only [source, Call.Permits]
      have bound :=
        Nat.mod_lt script.next.1
          (Nat.succ_pos (max first second - min first second))
      simp only [Nat.succ_eq_add_one] at bound
      omega

end Script

end RandomCodes

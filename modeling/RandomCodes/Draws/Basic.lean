/-!
# Programs that draw at random

A program that needs random choices is written as data: either it has a result, or it asks one
question and goes on with the answer. Nothing here knows where answers come from, so one program
can be run from any source and the questions it asks can be compared between two sources.
-/

namespace RandomCodes

/-- A question to a source of random choices. -/
inductive Call where
  /-- Some index below `length`; where nothing can be indexed the answer carries no meaning. -/
  | index (length : Nat)
  /-- Some number between the two bounds, both included, given in either order. -/
  | between (first second : Nat)
deriving DecidableEq, Repr

/-- An answer is permitted when it lies where the question asks for it. -/
def Call.Permits : Call → Nat → Prop
  | .index length, answer => 0 < length → answer < length
  | .between first second, answer => min first second ≤ answer ∧ answer ≤ max first second

instance (call : Call) (answer : Nat) : Decidable (call.Permits answer) :=
  match call with
  | .index length => inferInstanceAs (Decidable (0 < length → answer < length))
  | .between first second =>
      inferInstanceAs (Decidable (min first second ≤ answer ∧ answer ≤ max first second))

/-- A program that ends with a value of type `α` after finitely many questions. -/
inductive Draws (α : Type) where
  | done (value : α)
  | ask (call : Call) (next : Nat → Draws α)

namespace Draws

variable {α β γ : Type}

/-- Runs `program` first and then what `following` makes of its value. -/
def bind (program : Draws α) (following : α → Draws β) : Draws β :=
  match program with
  | done value => following value
  | ask call next => ask call fun answer => (next answer).bind following

instance : Monad Draws where
  pure := done
  bind := bind

@[simp]
theorem pure_eq_done (value : α) : (pure value : Draws α) = done value := rfl

@[simp]
theorem done_bind (value : α) (following : α → Draws β) :
    done value >>= following = following value := rfl

@[simp]
theorem ask_bind (call : Call) (next : Nat → Draws α) (following : α → Draws β) :
    ask call next >>= following = ask call fun answer => next answer >>= following := rfl

@[simp]
theorem map_done (function : α → β) (value : α) :
    function <$> done value = done (function value) := rfl

theorem bind_done (program : Draws α) : program >>= done = program := by
  induction program with
  | done value => rfl
  | ask call next inductionHypothesis =>
      simp only [ask_bind, inductionHypothesis]

theorem bind_bind (program : Draws α) (first : α → Draws β) (second : β → Draws γ) :
    program >>= first >>= second = program >>= fun value => first value >>= second := by
  induction program with
  | done value => rfl
  | ask call next inductionHypothesis =>
      simp only [ask_bind, inductionHypothesis]

instance : LawfulMonad Draws :=
  LawfulMonad.mk' Draws
    (fun program => bind_done program)
    (fun _ _ => rfl)
    (fun program first second => bind_bind program first second)

def index (length : Nat) : Draws Nat :=
  ask (.index length) done

/-- Asks for a number between two bounds. -/
def between (first second : Nat) : Draws Nat :=
  ask (.between first second) done

/-- Chooses one of the items; an empty list is answered without a question. -/
def sample? (items : List α) : Draws (Option α) :=
  match items with
  | [] => pure none
  | head :: tail => do
      let position ← index (head :: tail).length
      return (head :: tail)[position]?

/-- The values of `count` runs of one program, one after the other. -/
def collect (count : Nat) (program : Draws α) : Draws (List α) :=
  go count []
where
  /-- Runs `program` `count` more times; `latestFirst` holds the values so far. -/
  go : Nat → List α → Draws (List α)
    | 0, latestFirst => pure latestFirst.reverse
    | count + 1, latestFirst => do
        let value ← program
        go count (value :: latestFirst)

theorem collect.go_eq (program : Draws α) (count : Nat) (latestFirst : List α) :
    collect.go program count latestFirst =
      (latestFirst.reverse ++ ·) <$> collect count program := by
  induction count generalizing latestFirst with
  | zero => simp [collect, collect.go]
  | succ count inductionHypothesis =>
      simp only [collect, collect.go, map_bind] at *
      congr 1
      funext value
      rw [inductionHypothesis, inductionHypothesis [value], Functor.map_map]
      congr 1
      funext values
      simp

@[simp]
theorem collect_zero (program : Draws α) : collect 0 program = pure [] := rfl

theorem collect_succ (program : Draws α) (count : Nat) :
    collect (count + 1) program = do
      let value ← program
      let values ← collect count program
      return value :: values := by
  rw [collect, collect.go]
  congr 1
  funext value
  rw [collect.go_eq, map_eq_pure_bind]
  rfl

end Draws

end RandomCodes

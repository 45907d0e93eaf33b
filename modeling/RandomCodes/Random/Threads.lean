import RandomCodes.Random.Seeded
/-!
# Programs over several sources and threads

Shared sources have a name and are seen by every thread. Besides, each thread has a generator of
its own, which nobody else can draw from, and remembers the last seed it was given. A thread starts
with a generator that no seed accounts for; which one that is, is left to `fresh`.

Putting a generator behind one source is seen there and nowhere else, and a draw is the run of a
program on the generator behind its source.
-/

namespace RandomCodes.Threads

variable {Item : Type}

/-- Which source a step draws from. -/
inductive Origin where
  | thread
  | shared (name : String)
deriving DecidableEq, Repr

/-- One step of a program. -/
inductive Step (Item : Type) where
  | create (name : String) (seed : UInt64)
  | seedThread (seed : UInt64)
  | currentSeed
  | draw (origin : Origin) (call : Call) (times : Nat)
  | sample (origin : Origin) (items : List Item) (times : Nat)
  | inThread (steps : List (Step Item))

inductive Answer (Item : Type) where
  | nothing
  | seed (last : Option UInt64)
  | numbers (values : List Nat)
  | chosen (items : List (Option Item))
  | thread (answers : List (Answer Item))
  | unknownSource

/-- What a thread keeps to itself. -/
structure ThreadState where
  generator : Congruential
  lastSeed : Option UInt64 := none

/-- All generators that the running thread can reach. -/
structure World where
  shared : List (String × Congruential) := []
  thread : ThreadState
  started : Nat := 0

namespace World

/-- The world in which the first thread starts. -/
def initial (fresh : Nat → Congruential) : World :=
  { thread := { generator := fresh 0 }, started := 1 }

/-- The generator behind a source. -/
def generator? (world : World) : Origin → Option Congruential
  | .thread => some world.thread.generator
  | .shared name => world.shared.lookup name

/-- Puts a generator behind a source. -/
def setGenerator (world : World) (origin : Origin) (generator : Congruential) : World :=
  match origin with
  | .thread => { world with thread := { world.thread with generator } }
  | .shared name =>
      { world with
        shared := (name, generator) :: world.shared.filter fun entry => entry.1 != name }

def draw {α : Type} (world : World) (origin : Origin) (program : Draws α) : Option (α × World) := do
  let generator ← world.generator? origin
  let (value, generator) := program.run Congruential.source generator
  return (value, world.setGenerator origin generator)

/-- The world as a newly started thread finds it. -/
def startThread (fresh : Nat → Congruential) (world : World) : World :=
  { world with
    thread := { generator := fresh world.started }
    started := world.started + 1 }

/-- The world after a thread has ended: the thread that waited for it runs on. -/
def endThread (world : World) (waiting : ThreadState) : World :=
  { world with thread := waiting }

end World

mutual

/-- The answer of a step, and the world after it. -/
def Step.run (fresh : Nat → Congruential) (step : Step Item) (world : World) :
    Answer Item × World :=
  match step with
  | .create name seed =>
      (.nothing, world.setGenerator (.shared name) (Congruential.ofSeed seed))
  | .seedThread seed =>
      (.nothing,
        { world with
          thread := { generator := Congruential.ofSeed seed, lastSeed := some seed } })
  | .currentSeed => (.seed world.thread.lastSeed, world)
  | .draw origin call times =>
      match world.draw origin (Draws.collect times (.ask call .done)) with
      | some (values, world) => (.numbers values, world)
      | none => (.unknownSource, world)
  | .sample origin items times =>
      match world.draw origin (Draws.collect times (Draws.sample? items)) with
      | some (chosen, world) => (.chosen chosen, world)
      | none => (.unknownSource, world)
  | .inThread steps =>
      let (answers, ended) := runAll fresh steps (world.startThread fresh)
      (.thread answers, ended.endThread world.thread)

/-- The answers of a list of steps, one after the other, and the world after them. -/
def runAll (fresh : Nat → Congruential) (steps : List (Step Item)) (world : World) :
    List (Answer Item) × World :=
  match steps with
  | [] => ([], world)
  | step :: rest =>
      let (answer, world) := step.run fresh world
      let (answers, world) := runAll fresh rest world
      (answer :: answers, world)

end

/-- The answers of a program that the first thread runs. -/
def answers (fresh : Nat → Congruential) (steps : List (Step Item)) : List (Answer Item) :=
  (runAll fresh steps (World.initial fresh)).1

/-- Dropping the entries of one name leaves the entries of all others. -/
theorem lookup_filter_ne
    {Value : Type} {dropped name : String} (different : name ≠ dropped)
    (entries : List (String × Value)) :
    (entries.filter fun entry => entry.1 != dropped).lookup name = entries.lookup name := by
  induction entries with
  | nil => rfl
  | cons entry rest inductionHypothesis =>
      obtain ⟨key, value⟩ := entry
      by_cases gone : key = dropped
      · have other : (name == key) = false := by
          rw [gone]
          exact beq_false_of_ne different
        rw [List.filter_cons_of_neg (by simp [gone]), inductionHypothesis, List.lookup_cons, other]
      · rw [List.filter_cons_of_pos (by simpa using gone), List.lookup_cons, List.lookup_cons,
          inductionHypothesis]

namespace World

variable {world : World} {origin other : Origin} {generator : Congruential}

theorem generator?_setGenerator (world : World) (origin : Origin) (generator : Congruential) :
    (world.setGenerator origin generator).generator? origin = some generator := by
  cases origin with
  | thread => rfl
  | shared name => exact List.lookup_cons_self

theorem generator?_setGenerator_of_ne
    (different : other ≠ origin) (world : World) (generator : Congruential) :
    (world.setGenerator origin generator).generator? other = world.generator? other := by
  cases origin with
  | thread =>
      cases other with
      | thread => exact absurd rfl different
      | shared name => rfl
  | shared name =>
      cases other with
      | thread => rfl
      | shared otherName =>
          have names : otherName ≠ name := fun same => different (congrArg Origin.shared same)
          simp only [setGenerator, generator?, List.lookup_cons, beq_false_of_ne names,
            lookup_filter_ne names]

/-- What a thread keeps to itself is not behind a shared source. -/
theorem generator?_shared (world : World) (state : ThreadState) (name : String) :
    { world with thread := state }.generator? (.shared name) = world.generator? (.shared name) := rfl

theorem generator?_thread (world : World) (generator : Congruential) (lastSeed : Option UInt64) :
    { world with thread := { generator, lastSeed } }.generator? .thread = some generator := rfl

/-- A draw runs its program on the generator behind the source. -/
theorem draw_eq
    {α : Type} (found : world.generator? origin = some generator) (program : Draws α) :
    world.draw origin program =
      some ((program.run Congruential.source generator).1,
        world.setGenerator origin (program.run Congruential.source generator).2) := by
  rw [draw, found]
  rfl

theorem draw_eq_none
    {α : Type} (missing : world.generator? origin = none) (program : Draws α) :
    world.draw origin program = none := by
  rw [draw, missing]
  rfl

end World

end RandomCodes.Threads

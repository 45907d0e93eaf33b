import Mathlib.Logic.Function.Basic
import RandomCodes.Random.Threads
/-!
# Threads that take turns in any order

Several threads draw from shared sources and from generators of their own. What happens is a list of
events, each of them an act of one thread. Which thread comes next is left open, so every order in
which the threads get their turns is such a list.

The places with a generator are the shared sources and the threads. What an event does at one place
depends on nothing but the generator there, and no event touches two places. The answers of a place
are therefore those of its own uses, replayed without everything else.
-/

namespace RandomCodes.Threads

variable {Item : Type}

/-- What can be drawn from a source in one step. -/
inductive Request (Item : Type) where
  | draw (call : Call) (times : Nat)
  | sample (items : List Item) (times : Nat)

/-- What a thread can do by itself. -/
inductive Act (Item : Type) where
  | create (name : String) (seed : UInt64)
  | seedThread (seed : UInt64)
  | currentSeed
  | request (origin : Origin) (wanted : Request Item)

def Request.step (origin : Origin) : Request Item → Step Item
  | .draw call times => .draw origin call times
  | .sample items times => .sample origin items times

def Act.step : Act Item → Step Item
  | .create name seed => .create name seed
  | .seedThread seed => .seedThread seed
  | .currentSeed => .currentSeed
  | .request origin wanted => wanted.step origin

/-- An act of the thread with a number. -/
structure Event (Item : Type) where
  thread : Nat
  act : Act Item

/-- What all threads share, and what each of them keeps to itself. -/
structure System where
  shared : List (String × Congruential) := []
  threads : Nat → ThreadState

namespace System

/-- No source is shared yet, and no thread has been seeded. -/
def initial (fresh : Nat → Congruential) : System :=
  { threads := fun number => { generator := fresh number } }

/-- The part of the system that one thread can reach. -/
def world (system : System) (thread : Nat) : World :=
  { shared := system.shared, thread := system.threads thread }

/-- The system after a thread has changed what it can reach. -/
def setWorld (system : System) (thread : Nat) (world : World) : System :=
  { shared := world.shared, threads := Function.update system.threads thread world.thread }

end System

/-- The answer to an event, and the system after it. -/
def Event.perform (fresh : Nat → Congruential) (event : Event Item) (system : System) :
    Answer Item × System :=
  let (answer, world) := event.act.step.run fresh (system.world event.thread)
  (answer, system.setWorld event.thread world)

/-- The events with their answers, and the system after them. -/
def runEvents (fresh : Nat → Congruential) :
    List (Event Item) → System → List (Event Item × Answer Item) × System
  | [], system => ([], system)
  | event :: rest, system =>
      let (answer, system) := event.perform fresh system
      let (entries, system) := runEvents fresh rest system
      ((event, answer) :: entries, system)

/-- The events with their answers where nothing has happened before. -/
def log (fresh : Nat → Congruential) (events : List (Event Item)) :
    List (Event Item × Answer Item) :=
  (runEvents fresh events (System.initial fresh)).1

theorem runEvents_cons
    (fresh : Nat → Congruential) (event : Event Item) (rest : List (Event Item))
    (system : System) :
    runEvents fresh (event :: rest) system =
      ((event, (event.perform fresh system).1) ::
          (runEvents fresh rest (event.perform fresh system).2).1,
        (runEvents fresh rest (event.perform fresh system).2).2) := rfl

theorem runEvents_append
    (fresh : Nat → Congruential) (first second : List (Event Item)) (system : System) :
    runEvents fresh (first ++ second) system =
      ((runEvents fresh first system).1 ++
          (runEvents fresh second (runEvents fresh first system).2).1,
        (runEvents fresh second (runEvents fresh first system).2).2) := by
  induction first generalizing system with
  | nil => rfl
  | cons event rest inductionHypothesis =>
      simp only [List.cons_append, runEvents_cons, inductionHypothesis]

/-- Where a generator is. -/
inductive Place where
  | shared (name : String)
  | thread (number : Nat)
deriving DecidableEq, Repr

/-- The place that a thread means by a source. -/
def Origin.place (thread : Nat) : Origin → Place
  | .thread => .thread thread
  | .shared name => .shared name

def System.generator? (system : System) : Place → Option Congruential
  | .shared name => system.shared.lookup name
  | .thread number => some (system.threads number).generator

/-- What can be done with a generator. -/
inductive Use (Item : Type) where
  | seeding (seed : UInt64)
  | request (wanted : Request Item)

/-- The source that an act uses, and what for. -/
def Act.use? : Act Item → Option (Origin × Use Item)
  | .create name seed => some (.shared name, .seeding seed)
  | .seedThread seed => some (.thread, .seeding seed)
  | .currentSeed => none
  | .request origin wanted => some (origin, .request wanted)

/-- What an event does with the generator at a place. -/
def Event.use? (place : Place) (event : Event Item) : Option (Use Item) :=
  match event.act.use? with
  | some (origin, use) => if origin.place event.thread = place then some use else none
  | none => none

/-- The questions of a request and what is answered. -/
def Request.program : Request Item → Draws (Answer Item)
  | .draw call times => .numbers <$> Draws.collect times (.ask call .done)
  | .sample items times => .chosen <$> Draws.collect times (Draws.sample? items)

/-- The answer that a use gets from the generator at its place, and the generator after it. -/
def Use.perform : Use Item → Option Congruential → Answer Item × Option Congruential
  | .seeding seed, _ => (.nothing, some (Congruential.ofSeed seed))
  | .request wanted, some generator =>
      let (answer, generator) := wanted.program.run Congruential.source generator
      (answer, some generator)
  | .request _, none => (.unknownSource, none)

/-- The answers to uses of one place with nothing else going on. -/
def replay : List (Use Item) → Option Congruential → List (Answer Item)
  | [], _ => []
  | use :: rest, generator =>
      (use.perform generator).1 :: replay rest (use.perform generator).2

theorem Request.run_step
    (fresh : Nat → Congruential) (wanted : Request Item) {origin : Origin} {world : World}
    {generator : Congruential} (found : world.generator? origin = some generator) :
    (wanted.step origin).run fresh world =
      ((wanted.program.run Congruential.source generator).1,
        world.setGenerator origin (wanted.program.run Congruential.source generator).2) := by
  cases wanted with
  | draw call times =>
      rw [step, Step.run, World.draw_eq found, program, Draws.run_map]
  | sample items times =>
      rw [step, Step.run, World.draw_eq found, program, Draws.run_map]

theorem Request.run_step_of_missing
    (fresh : Nat → Congruential) (wanted : Request Item) {origin : Origin} {world : World}
    (missing : world.generator? origin = none) :
    (wanted.step origin).run fresh world = (.unknownSource, world) := by
  cases wanted with
  | draw call times => rw [step, Step.run, World.draw_eq_none missing]
  | sample items times => rw [step, Step.run, World.draw_eq_none missing]

namespace System

variable (system : System) (thread : Nat)

/-- A thread finds behind each source the generator of the place it means. -/
theorem generator?_world (origin : Origin) :
    (system.world thread).generator? origin = system.generator? (origin.place thread) := by
  cases origin with
  | thread => rfl
  | shared name => rfl

theorem setWorld_world : system.setWorld thread (system.world thread) = system := by
  simp only [setWorld, world, Function.update_eq_self]

/-- What a thread puts behind a source is found at the place it means, by all threads. -/
theorem generator?_setWorld_self (origin : Origin) (world : World) :
    (system.setWorld thread world).generator? (origin.place thread) = world.generator? origin := by
  cases origin with
  | thread => simp only [Origin.place, generator?, setWorld, Function.update_self, World.generator?]
  | shared name => rfl

/-- Where a thread changes one source only, no other place gets another generator. -/
theorem generator?_setWorld_of_ne {origin : Origin} {world : World}
    (kept : ∀ other, other ≠ origin →
      world.generator? other = (system.world thread).generator? other)
    {place : Place} (different : place ≠ origin.place thread) :
    (system.setWorld thread world).generator? place = system.generator? place := by
  cases place with
  | shared name =>
      have other : Origin.shared name ≠ origin := fun same => different (same ▸ rfl)
      exact kept (.shared name) other
  | thread number =>
      by_cases same : number = thread
      · subst same
        have other : Origin.thread ≠ origin := fun same => different (same ▸ rfl)
        have own := kept .thread other
        simp only [World.generator?, System.world] at own
        simp only [generator?, setWorld, Function.update_self, own]
      · simp only [generator?, setWorld, Function.update_of_ne same]

end System

/-- A step does with the generator behind one source what `use` does with it, and leaves the other
sources alone. -/
structure Step.Makes (fresh : Nat → Congruential) (step : Step Item) (origin : Origin)
    (use : Use Item) (world : World) : Prop where
  answer : (step.run fresh world).1 = (use.perform (world.generator? origin)).1
  generator : (step.run fresh world).2.generator? origin =
    (use.perform (world.generator? origin)).2
  kept : ∀ other, other ≠ origin → (step.run fresh world).2.generator? other = world.generator? other

theorem Request.makes
    (fresh : Nat → Congruential) (wanted : Request Item) (origin : Origin) (world : World) :
    (wanted.step origin).Makes fresh origin (.request wanted) world := by
  cases found : world.generator? origin with
  | some generator =>
      have ran := wanted.run_step fresh found
      refine ⟨?_, ?_, ?_⟩
      · rw [ran, found]
        rfl
      · rw [ran, found]
        exact World.generator?_setGenerator world origin _
      · intro other different
        rw [ran]
        exact World.generator?_setGenerator_of_ne different world _
  | none =>
      have ran := wanted.run_step_of_missing fresh found
      refine ⟨?_, ?_, ?_⟩
      · rw [ran, found]
        rfl
      · rw [ran]
        dsimp only
        rw [found]
        rfl
      · intro other _
        rw [ran]

/-- An act makes of the source it uses what its use says. -/
theorem Act.makes
    (fresh : Nat → Congruential) {act : Act Item} {origin : Origin} {use : Use Item}
    (used : act.use? = some (origin, use)) (world : World) :
    act.step.Makes fresh origin use world := by
  cases act with
  | create name seed =>
      cases used
      -- Each step is stated before it is used, so that no seeded generator is ever computed.
      have ran : (Act.create name seed : Act Item).step.run fresh world =
          (.nothing, world.setGenerator (.shared name) (Congruential.ofSeed seed)) := by
        rw [step, Step.run]
      refine ⟨?_, ?_, ?_⟩
      · rw [ran, Use.perform]
      · rw [ran, Use.perform]
        exact World.generator?_setGenerator world (.shared name) _
      · intro other different
        rw [ran]
        exact World.generator?_setGenerator_of_ne different world _
  | seedThread seed =>
      cases used
      have ran : (Act.seedThread seed : Act Item).step.run fresh world =
          (.nothing,
            { world with
              thread := { generator := Congruential.ofSeed seed, lastSeed := some seed } }) := by
        rw [step, Step.run]
      refine ⟨?_, ?_, ?_⟩
      · rw [ran, Use.perform]
      · rw [ran, Use.perform]
        exact World.generator?_thread world _ _
      · intro other different
        rw [ran]
        cases other with
        | thread => exact absurd rfl different
        | shared name => exact World.generator?_shared world _ name
  | currentSeed => cases used
  | request origin wanted =>
      cases used
      exact wanted.makes fresh origin world

theorem Event.perform_eq (fresh : Nat → Congruential) (event : Event Item) (system : System) :
    event.perform fresh system =
      ((event.act.step.run fresh (system.world event.thread)).1,
        system.setWorld event.thread
          (event.act.step.run fresh (system.world event.thread)).2) := rfl

/-- An event does at a place what its use does there. -/
theorem Event.perform_of_use
    (fresh : Nat → Congruential) {event : Event Item} {place : Place} {use : Use Item}
    (used : event.use? place = some use) (system : System) :
    (event.perform fresh system).1 = (use.perform (system.generator? place)).1 ∧
      (event.perform fresh system).2.generator? place =
        (use.perform (system.generator? place)).2 := by
  rw [Event.use?] at used
  cases acts : event.act.use? with
  | none =>
      rw [acts] at used
      cases used
  | some pair =>
      obtain ⟨origin, own⟩ := pair
      simp only [acts, Option.ite_none_right_eq_some, Option.some.injEq] at used
      obtain ⟨rfl, rfl⟩ := used
      have makes := Act.makes fresh acts (system.world event.thread)
      rw [perform_eq, System.generator?_setWorld_self, ← System.generator?_world]
      exact ⟨makes.answer, makes.generator⟩

/-- An act that uses no source leaves the world alone. -/
theorem Act.run_of_use_eq_none
    (fresh : Nat → Congruential) {act : Act Item} (unused : act.use? = none) (world : World) :
    (act.step.run fresh world).2 = world := by
  cases act with
  | currentSeed => rw [step, Step.run]
  | create name seed => cases unused
  | seedThread seed => cases unused
  | request origin wanted => cases unused

/-- An event leaves the generator of a place alone that it does not use. -/
theorem Event.generator?_perform
    (fresh : Nat → Congruential) {event : Event Item} {place : Place}
    (elsewhere : event.use? place = none) (system : System) :
    (event.perform fresh system).2.generator? place = system.generator? place := by
  rw [perform_eq]
  cases acts : event.act.use? with
  | none => rw [Act.run_of_use_eq_none fresh acts, System.setWorld_world]
  | some pair =>
      obtain ⟨origin, own⟩ := pair
      have different : place ≠ origin.place event.thread := by
        intro same
        simp only [Event.use?, acts, same, if_true, reduceCtorEq] at elsewhere
      have makes := Act.makes fresh acts (system.world event.thread)
      exact System.generator?_setWorld_of_ne system event.thread makes.kept different

/-- The answers to those events in which a selection finds a use. -/
def answersTo (selected? : Event Item → Option (Use Item))
    (entries : List (Event Item × Answer Item)) : List (Answer Item) :=
  entries.filterMap fun entry => (selected? entry.1).map fun _ => entry.2

theorem answersTo_append
    (selected? : Event Item → Option (Use Item)) (first second : List (Event Item × Answer Item)) :
    answersTo selected? (first ++ second) =
      answersTo selected? first ++ answersTo selected? second :=
  List.filterMap_append

/-- A selection of uses of one place that leaves out none by which the generator there changes. -/
structure Covers (fresh : Nat → Congruential) (place : Place)
    (selected? : Event Item → Option (Use Item)) : Prop where
  used : ∀ event use, selected? event = some use → event.use? place = some use
  quiet : ∀ event system, selected? event = none →
    (event.perform fresh system).2.generator? place = system.generator? place

theorem covers_use (fresh : Nat → Congruential) (place : Place) :
    Covers fresh place (@Event.use? Item place) where
  used := fun _ _ selected => selected
  quiet := fun _ system elsewhere => Event.generator?_perform fresh elsewhere system

/-- Whatever else happens, the uses of a place get the answers that they get alone. -/
theorem Covers.answersTo_runEvents
    {fresh : Nat → Congruential} {place : Place} {selected? : Event Item → Option (Use Item)}
    (covers : Covers fresh place selected?) (events : List (Event Item)) (system : System) :
    answersTo selected? (runEvents fresh events system).1 =
      replay (events.filterMap selected?) (system.generator? place) := by
  induction events generalizing system with
  | nil => rfl
  | cons event rest inductionHypothesis =>
      rw [runEvents_cons, answersTo, List.filterMap_cons, List.filterMap_cons]
      cases selected : selected? event with
      | none =>
          have kept := covers.quiet event system selected
          rw [← kept]
          exact inductionHypothesis _
      | some use =>
          obtain ⟨answer, generator⟩ :=
            Event.perform_of_use fresh (covers.used event use selected) system
          rw [replay, ← generator, ← answer]
          exact congrArg _ (inductionHypothesis _)

/-- An index into nothing and a choice from nothing. -/
def Request.isIdle : Request Item → Bool
  | .draw (.index 0) _ => true
  | .sample [] _ => true
  | _ => false

def Use.isIdle : Use Item → Bool
  | .seeding _ => false
  | .request wanted => wanted.isIdle

theorem run_collect_kept
    {State α : Type} {source : Source State} {program : Draws α} {state : State}
    (kept : (program.run source state).2 = state) (times : Nat) :
    ((Draws.collect times program).run source state).2 = state := by
  induction times with
  | zero => rfl
  | succ times inductionHypothesis =>
      rw [Draws.collect_succ, Draws.run_bind, Draws.run_bind, kept, inductionHypothesis]
      rfl

theorem Request.run_program_of_isIdle
    {wanted : Request Item} (idle : wanted.isIdle) (generator : Congruential) :
    (wanted.program.run Congruential.source generator).2 = generator := by
  unfold isIdle at idle
  split at idle
  case h_1 times =>
    rw [program, Draws.run_map]
    exact run_collect_kept rfl times
  case h_2 times =>
    rw [program, Draws.run_map]
    exact run_collect_kept rfl times
  case h_3 => cases idle

/-- An idle use leaves the generator alone. -/
theorem Use.perform_of_isIdle
    {use : Use Item} (idle : use.isIdle) (generator? : Option Congruential) :
    (use.perform generator?).2 = generator? := by
  cases use with
  | seeding seed => cases idle
  | request wanted =>
      cases generator? with
      | none => rfl
      | some generator => exact congrArg some (Request.run_program_of_isIdle idle generator)

/-- What an event does with the generator at a place, unless it is idle. -/
def Event.busyUse? (place : Place) (event : Event Item) : Option (Use Item) :=
  (event.use? place).filter fun use => !use.isIdle

theorem covers_busyUse (fresh : Nat → Congruential) (place : Place) :
    Covers fresh place (@Event.busyUse? Item place) where
  used := by
    intro event use selected
    exact (Option.filter_eq_some_iff.mp selected).1
  quiet := by
    intro event system unselected
    cases used : event.use? place with
    | none => exact Event.generator?_perform fresh used system
    | some use =>
        have idle : use.isIdle := by
          simpa [Event.busyUse?, used] using unselected
        rw [(Event.perform_of_use fresh used system).2, Use.perform_of_isIdle idle]

/-! ## A seed fixes the answers behind it -/

theorem runAll_cons
    (fresh : Nat → Congruential) (step : Step Item) (rest : List (Step Item)) (world : World) :
    runAll fresh (step :: rest) world =
      ((step.run fresh world).1 :: (runAll fresh rest (step.run fresh world).2).1,
        (runAll fresh rest (step.run fresh world).2).2) := by
  rw [runAll]

/-- The answers to requests that one thread makes to one source. -/
theorem runAll_requests
    (fresh : Nat → Congruential) (requests : List (Request Item)) (origin : Origin) (world : World) :
    (runAll fresh (requests.map (Request.step origin)) world).1 =
      replay (requests.map .request) (world.generator? origin) := by
  induction requests generalizing world with
  | nil => rfl
  | cons wanted rest inductionHypothesis =>
      have makes := wanted.makes fresh origin world
      rw [List.map_cons, List.map_cons, runAll_cons, replay, ← makes.answer, ← makes.generator,
        inductionHypothesis]

/-- The answers of a source that is created with a seed and used by nobody else. -/
theorem answers_create
    (fresh : Nat → Congruential) (name : String) (seed : UInt64) (requests : List (Request Item)) :
    answers fresh (.create name seed :: requests.map (Request.step (.shared name))) =
      replay (.seeding seed :: requests.map .request) none := by
  rw [answers, runAll_cons, Step.run, runAll_requests, World.generator?_setGenerator, replay,
    Use.perform]

/-- From a seeding on, a place gives the answers of a source created with the seed. -/
theorem answersTo_log_of_seeding
    {place : Place} {event : Event Item} {seed : UInt64}
    (seeds : event.use? place = some (.seeding seed)) {later : List (Event Item)}
    {requests : List (Request Item)}
    (unseeded : later.filterMap (Event.use? place) = requests.map .request)
    (fresh others : Nat → Congruential) (earlier : List (Event Item)) (name : String) :
    answersTo (Event.use? place) (log fresh (earlier ++ event :: later)) =
      answersTo (Event.use? place) (log fresh earlier) ++
        answers others (.create name seed :: requests.map (Request.step (.shared name))) := by
  have behind := (covers_use fresh place).answersTo_runEvents (event :: later)
  rw [log, runEvents_append, answersTo_append, behind, List.filterMap_cons, seeds, answers_create,
    unseeded]
  -- The generator found at the place does not matter where it is seeded first.
  rfl

/-- Two programs whose uses of a place are the same but for idle ones get the same answers there. -/
theorem answersTo_log_congr
    {place : Place} {events others : List (Event Item)}
    (same : events.filterMap (Event.busyUse? place) = others.filterMap (Event.busyUse? place))
    (fresh : Nat → Congruential) :
    answersTo (Event.busyUse? place) (log fresh events) =
      answersTo (Event.busyUse? place) (log fresh others) := by
  rw [log, log, (covers_busyUse fresh place).answersTo_runEvents,
    (covers_busyUse fresh place).answersTo_runEvents, same]

end RandomCodes.Threads

import RandomCodes.Proofs.Random.NestedThreads
/-!
# What a seed fixes

A seed fixes all answers that a place gives until it is seeded again, whichever threads ask and
whatever happens elsewhere. Each thread also remembers its last seed, of which no other thread learns.
-/

namespace RandomCodes.Threads

variable {Item : Type}

/-- The seed that a step gives to its own thread. -/
def Step.threadSeed? : Step Item → Option UInt64
  | .seedThread seed => some seed
  | _ => none

/-- The seed that an event gives to a thread. -/
def Event.threadSeed? (thread : Nat) (event : Event Item) : Option UInt64 :=
  if event.thread = thread then event.act.step.threadSeed? else none

theorem getLast?_filterMap_cons
    {α β : Type} (choose? : α → Option β) (first : α) (rest : List α) (last : Option β) :
    ((first :: rest).filterMap choose?).getLast?.or last =
      (rest.filterMap choose?).getLast?.or ((choose? first).or last) := by
  cases chosen : choose? first with
  | none => rw [List.filterMap_cons_none chosen, Option.none_or]
  | some value =>
      rw [List.filterMap_cons_some chosen, List.getLast?_cons, Option.some_or]
      cases (rest.filterMap choose?).getLast? with
      | none => rfl
      | some later => rfl

theorem World.lastSeed_setGenerator
    (world : World) (origin : Origin) (generator : Congruential) :
    (world.setGenerator origin generator).thread.lastSeed = world.thread.lastSeed := by
  cases origin with
  | thread => rfl
  | shared name => rfl

theorem Request.lastSeed_run
    (fresh : Nat → Congruential) (wanted : Request Item) (origin : Origin) (world : World) :
    ((wanted.step origin).run fresh world).2.thread.lastSeed = world.thread.lastSeed := by
  cases found : world.generator? origin with
  | some generator =>
      rw [wanted.run_step fresh found]
      exact world.lastSeed_setGenerator origin _
  | none => rw [wanted.run_step_of_missing fresh found]

/-- A step gives a thread the seed it says, and leaves it the last one otherwise. -/
theorem Step.lastSeed_run
    (fresh : Nat → Congruential) (step : Step Item) (world : World) :
    (step.run fresh world).2.thread.lastSeed = step.threadSeed?.or world.thread.lastSeed := by
  cases step with
  | create name seed =>
      rw [Step.run]
      exact world.lastSeed_setGenerator (.shared name) _
  | seedThread seed =>
      rw [Step.run]
      rfl
  | currentSeed =>
      rw [Step.run]
      rfl
  | draw origin call times => exact (Request.draw call times).lastSeed_run fresh origin world
  | sample origin items times => exact (Request.sample items times).lastSeed_run fresh origin world
  | inThread steps =>
      rw [Step.run]
      rfl

/-- A thread knows the last seed that it has been given, or the one it knew before. -/
theorem runAll_currentSeed
    (fresh : Nat → Congruential) (front back : List (Step Item)) (world : World) :
    (runAll fresh (front ++ .currentSeed :: back) world).1[front.length]? =
      some (.seed ((front.filterMap Step.threadSeed?).getLast?.or world.thread.lastSeed)) := by
  induction front generalizing world with
  | nil =>
      rw [List.nil_append, runAll_cons, Step.run]
      rfl
  | cons step rest inductionHypothesis =>
      rw [List.cons_append, runAll_cons, List.length_cons, List.getElem?_cons_succ,
        inductionHypothesis, step.lastSeed_run, getLast?_filterMap_cons]

theorem Event.lastSeed_perform
    (fresh : Nat → Congruential) (event : Event Item) (system : System) (thread : Nat) :
    ((event.perform fresh system).2.threads thread).lastSeed =
      (event.threadSeed? thread).or (system.threads thread).lastSeed := by
  rw [perform_eq, Event.threadSeed?]
  by_cases same : event.thread = thread
  · rw [if_pos same, ← same]
    simp only [System.setWorld, Function.update_self]
    exact event.act.step.lastSeed_run fresh (system.world event.thread)
  · rw [if_neg same, Option.none_or]
    simp only [System.setWorld, Function.update_of_ne (Ne.symm same)]

/-- Among threads that take turns, each knows the last seed of its own. -/
theorem runEvents_currentSeed
    (fresh : Nat → Congruential) (thread : Nat) (earlier later : List (Event Item))
    (system : System) :
    (runEvents fresh (earlier ++ { thread, act := .currentSeed } :: later) system).1[earlier.length]? =
      some ({ thread, act := .currentSeed },
        .seed ((earlier.filterMap (Event.threadSeed? thread)).getLast?.or
          (system.threads thread).lastSeed)) := by
  induction earlier generalizing system with
  | nil =>
      rw [List.nil_append, runEvents_cons, Event.perform_eq, Act.step, Step.run]
      rfl
  | cons event rest inductionHypothesis =>
      rw [List.cons_append, runEvents_cons, List.length_cons, List.getElem?_cons_succ,
        inductionHypothesis, event.lastSeed_perform, getLast?_filterMap_cons]

/-- Sources do not influence each other, and a seed fixes the answers behind it. A program with nested
threads is one order of events, where each thread has a number of its own. In every order of events,
* a place answers from a seeding on as a source created with the seed that gets the same requests,
* events elsewhere and idle requests change no answer to what else is asked there,
* a thread knows the last seed it has been given itself, and none when it starts. -/
theorem seeds_fix_answers (fresh : Nat → Congruential) :
    (∀ steps : List (Step Item),
      leavesAll (answers fresh steps) = (log fresh (scheduleAll steps 0 1).1).map Prod.snd) ∧
    (∀ (steps : List (Step Item)) thread started, thread < started →
      ∀ event ∈ (scheduleAll steps thread started).1, event.thread = thread ∨
        started ≤ event.thread ∧ event.thread < (scheduleAll steps thread started).2) ∧
    (∀ place (event : Event Item) seed later (requests : List (Request Item)),
      event.use? place = some (.seeding seed) →
      later.filterMap (Event.use? place) = requests.map .request →
      ∀ others earlier name,
        answersTo (Event.use? place) (log fresh (earlier ++ event :: later)) =
          answersTo (Event.use? place) (log fresh earlier) ++
            answers others (.create name seed :: requests.map (Request.step (.shared name)))) ∧
    (∀ place (events others : List (Event Item)),
      events.filterMap (Event.busyUse? place) = others.filterMap (Event.busyUse? place) →
      answersTo (Event.busyUse? place) (log fresh events) =
        answersTo (Event.busyUse? place) (log fresh others)) ∧
    (∀ thread (earlier later : List (Event Item)),
      (log fresh (earlier ++ { thread, act := .currentSeed } :: later))[earlier.length]? =
        some ({ thread, act := .currentSeed },
          .seed (earlier.filterMap (Event.threadSeed? thread)).getLast?)) ∧
    (∀ front back : List (Step Item),
      (answers fresh (front ++ .currentSeed :: back))[front.length]? =
        some (.seed (front.filterMap Step.threadSeed?).getLast?)) ∧
    ∀ (front back : List (Step Item)) world, ∃ nested,
      ((Step.inThread (front ++ .currentSeed :: back)).run fresh world).1 = .thread nested ∧
        nested[front.length]? = some (.seed (front.filterMap Step.threadSeed?).getLast?) := by
  refine ⟨leavesAll_answers fresh, ?_, ?_, ?_, ?_, ?_, ?_⟩
  · intro steps thread started running
    exact thread_of_mem_scheduleAll steps running
  · intro place event seed later requests seeds unseeded others earlier name
    exact answersTo_log_of_seeding seeds unseeded fresh others earlier name
  · intro place events others same
    exact answersTo_log_congr same fresh
  · intro thread earlier later
    rw [log, runEvents_currentSeed]
    exact congrArg (fun last => some (_, Answer.seed last)) Option.or_none
  · intro front back
    rw [answers, runAll_currentSeed]
    exact congrArg (fun last => some (Answer.seed last)) Option.or_none
  · intro front back world
    refine ⟨_, by rw [Step.run], ?_⟩
    rw [runAll_currentSeed]
    exact congrArg (fun last => some (Answer.seed last)) Option.or_none

end RandomCodes.Threads

import RandomCodes.Proofs.Random.Interleaving
/-!
# Programs that start threads

A thread that starts another one waits until it has ended. A program with nested threads is thus one
order of events, in which every thread gets the number that is next when it starts. The answers are
the same in both readings.
-/

namespace RandomCodes.Threads

variable {Item : Type}

mutual

/-- The events of a step of the thread with a number when `started` threads have been started, and how
many have been started after it. -/
def Step.schedule (step : Step Item) (thread started : Nat) : List (Event Item) × Nat :=
  match step with
  | .create name seed => ([{ thread, act := .create name seed }], started)
  | .seedThread seed => ([{ thread, act := .seedThread seed }], started)
  | .currentSeed => ([{ thread, act := .currentSeed }], started)
  | .draw origin call times =>
      ([{ thread, act := .request origin (.draw call times) }], started)
  | .sample origin items times =>
      ([{ thread, act := .request origin (.sample items times) }], started)
  | .inThread steps => scheduleAll steps started (started + 1)

/-- The events of a list of steps, one after the other. -/
def scheduleAll (steps : List (Step Item)) (thread started : Nat) : List (Event Item) × Nat :=
  match steps with
  | [] => ([], started)
  | step :: rest =>
      let (events, started) := step.schedule thread started
      let (others, started) := scheduleAll rest thread started
      (events ++ others, started)

end

mutual

/-- The answers of an answer that are not answers of threads. -/
def Answer.leaves (answer : Answer Item) : List (Answer Item) :=
  match answer with
  | .thread answers => leavesAll answers
  | .nothing => [.nothing]
  | .seed last => [.seed last]
  | .numbers values => [.numbers values]
  | .chosen items => [.chosen items]
  | .unknownSource => [.unknownSource]

def leavesAll (answers : List (Answer Item)) : List (Answer Item) :=
  match answers with
  | [] => []
  | answer :: rest => answer.leaves ++ leavesAll rest

end

theorem scheduleAll_cons (step : Step Item) (rest : List (Step Item)) (thread started : Nat) :
    scheduleAll (step :: rest) thread started =
      ((step.schedule thread started).1 ++
          (scheduleAll rest thread (step.schedule thread started).2).1,
        (scheduleAll rest thread (step.schedule thread started).2).2) := by
  rw [scheduleAll]

section Started

variable (world : World) (started : Nat) (origin : Origin)

theorem World.generator?_started :
    { world with started }.generator? origin = world.generator? origin := by
  cases origin with
  | thread => rfl
  | shared name => rfl

theorem World.setGenerator_started (generator : Congruential) :
    { world with started }.setGenerator origin generator =
      { world.setGenerator origin generator with started } := by
  cases origin with
  | thread => rfl
  | shared name => rfl

end Started

/-- An act takes no notice of how many threads have been started. -/
theorem Act.run_started
    (fresh : Nat → Congruential) (act : Act Item) (world : World) (started : Nat) :
    act.step.run fresh { world with started } =
      ((act.step.run fresh world).1, { (act.step.run fresh world).2 with started }) := by
  cases act with
  | create name seed =>
      rw [step, Step.run, Step.run, World.setGenerator_started]
  | seedThread seed => rw [step, Step.run, Step.run]
  | currentSeed => rw [step, Step.run, Step.run]
  | request origin wanted =>
      cases found : world.generator? origin with
      | some generator =>
          have foundAgain := (World.generator?_started world started origin).trans found
          rw [step, wanted.run_step fresh found, wanted.run_step fresh foundAgain,
            World.setGenerator_started]
      | none =>
          have missing := (World.generator?_started world started origin).trans found
          rw [step, wanted.run_step_of_missing fresh found,
            wanted.run_step_of_missing fresh missing]

theorem Act.started_run (fresh : Nat → Congruential) (act : Act Item) (world : World) :
    (act.step.run fresh world).2.started = world.started :=
  congrArg (·.2.started) (act.run_started fresh world world.started)

theorem Act.schedule_step (act : Act Item) (thread started : Nat) :
    act.step.schedule thread started = ([{ thread, act }], started) := by
  cases act with
  | create name seed => rw [step, Step.schedule]
  | seedThread seed => rw [step, Step.schedule]
  | currentSeed => rw [step, Step.schedule]
  | request origin wanted =>
      cases wanted with
      | draw call times => rw [step, Request.step, Step.schedule]
      | sample items times => rw [step, Request.step, Step.schedule]

theorem Act.leaves_run (fresh : Nat → Congruential) (act : Act Item) (world : World) :
    (act.step.run fresh world).1.leaves = [(act.step.run fresh world).1] := by
  cases act with
  | create name seed => rw [step, Step.run, Answer.leaves]
  | seedThread seed => rw [step, Step.run, Answer.leaves]
  | currentSeed => rw [step, Step.run, Answer.leaves]
  | request origin wanted =>
      cases found : world.generator? origin with
      | some generator =>
          rw [step, wanted.run_step fresh found]
          cases wanted with
          | draw call times => rw [Request.program, Draws.run_map, Answer.leaves]
          | sample items times => rw [Request.program, Draws.run_map, Answer.leaves]
      | none => rw [step, wanted.run_step_of_missing fresh found, Answer.leaves]

/-- The running thread finds in its world what the system has for it, and threads that have not been
started are fresh. -/
structure Shows (fresh : Nat → Congruential) (system : System) (thread : Nat) (world : World) :
    Prop where
  shared : system.shared = world.shared
  own : system.threads thread = world.thread
  unstarted : ∀ number, world.started ≤ number → system.threads number = { generator := fresh number }
  running : thread < world.started

theorem shows_initial (fresh : Nat → Congruential) :
    Shows fresh (System.initial fresh) 0 (World.initial fresh) where
  shared := rfl
  own := rfl
  unstarted := fun _ _ => rfl
  running := Nat.zero_lt_one

/-- A thread that is started has the next number and is fresh. -/
theorem Shows.startThread
    {fresh : Nat → Congruential} {system : System} {thread : Nat} {world : World}
    (shows : Shows fresh system thread world) :
    Shows fresh system world.started (world.startThread fresh) where
  shared := shows.shared
  own := shows.unstarted world.started (Nat.le_refl _)
  unstarted := fun number later => shows.unstarted number (Nat.le_of_succ_le later)
  running := Nat.lt_succ_self _

/-- Events lead from one world of the running thread to another one and give the answers. They belong
to the running thread and to those that have been started meanwhile, and no other thread changes. -/
structure Leads (fresh : Nat → Congruential) (system : System) (thread : Nat) (world : World)
    (events : List (Event Item)) (answers : List (Answer Item)) (after : World) : Prop where
  answers : (runEvents fresh events system).1.map Prod.snd = answers
  shows : Shows fresh (runEvents fresh events system).2 thread after
  grows : world.started ≤ after.started
  numbered : ∀ event ∈ events, event.thread = thread ∨
    world.started ≤ event.thread ∧ event.thread < after.started
  kept : ∀ number < world.started, number ≠ thread →
    (runEvents fresh events system).2.threads number = system.threads number

section Leads

variable {fresh : Nat → Congruential} {system : System} {thread : Nat} {world : World}
variable (shows : Shows fresh system thread world)

include shows

theorem leads_nil : Leads fresh system thread world ([] : List (Event Item)) [] world where
  answers := rfl
  shows := shows
  grows := Nat.le_refl _
  numbered := fun _ member => absurd member List.not_mem_nil
  kept := fun _ _ _ => rfl

theorem leads_act (act : Act Item) :
    Leads fresh system thread world [{ thread, act }] (act.step.run fresh world).1.leaves
      (act.step.run fresh world).2 := by
  have seen : system.world thread = { world with started := 0 } := by
    rw [System.world, shows.shared, shows.own]
  have counted := act.started_run fresh world
  have performed : Event.perform fresh { thread, act } system =
      ((act.step.run fresh world).1,
        system.setWorld thread (act.step.run fresh world).2) := by
    rw [Event.perform_eq, seen, act.run_started]
    rfl
  refine ⟨?_, ?_, ?_, ?_, ?_⟩
  · rw [runEvents_cons, performed, act.leaves_run]
    rfl
  · rw [runEvents_cons, performed]
    refine ⟨rfl, Function.update_self _ _ _, ?_, ?_⟩
    · intro number later
      rw [counted] at later
      have different : number ≠ thread := Nat.ne_of_gt (Nat.lt_of_lt_of_le shows.running later)
      exact (Function.update_of_ne different _ _).trans (shows.unstarted number later)
    · rw [counted]
      exact shows.running
  · exact Nat.le_of_eq counted.symm
  · intro event member
    exact Or.inl (congrArg Event.thread (List.mem_singleton.mp member))
  · intro number _ different
    rw [runEvents_cons, performed]
    exact Function.update_of_ne different _ _

/-- A thread that has ended leaves the one that waited for it as it was. -/
theorem leads_inThread
    {events : List (Event Item)} {answers : List (Answer Item)} {ended : World}
    (leads : Leads fresh system world.started (world.startThread fresh) events answers ended) :
    Leads fresh system thread world events answers (ended.endThread world.thread) where
  answers := leads.answers
  shows := by
    -- The waiting thread has a lower number than all that have been started since.
    have waiting := leads.kept thread (Nat.lt_succ_of_lt shows.running) (Nat.ne_of_lt shows.running)
    exact ⟨leads.shows.shared, waiting.trans shows.own, leads.shows.unstarted,
      Nat.lt_of_lt_of_le shows.running (Nat.le_of_succ_le leads.grows)⟩
  grows := Nat.le_of_succ_le leads.grows
  numbered := by
    intro event member
    right
    rcases leads.numbered event member with own | started
    · rw [own]
      exact ⟨Nat.le_refl _, leads.grows⟩
    · exact ⟨Nat.le_of_succ_le started.1, started.2⟩
  kept := by
    intro number earlier _
    exact leads.kept number (Nat.lt_succ_of_lt earlier) (Nat.ne_of_lt earlier)

end Leads

theorem Leads.append
    {fresh : Nat → Congruential} {system : System} {thread : Nat} {world middle after : World}
    {first second : List (Event Item)} {answers others : List (Answer Item)}
    (leads : Leads fresh system thread world first answers middle)
    (further : Leads fresh (runEvents fresh first system).2 thread middle second others after) :
    Leads fresh system thread world (first ++ second) (answers ++ others) after where
  answers := by
    rw [runEvents_append, List.map_append, leads.answers, further.answers]
  shows := by
    rw [runEvents_append]
    exact further.shows
  grows := Nat.le_trans leads.grows further.grows
  numbered := by
    intro event member
    rcases List.mem_append.mp member with early | late
    · rcases leads.numbered event early with own | started
      · exact Or.inl own
      · exact Or.inr ⟨started.1, Nat.lt_of_lt_of_le started.2 further.grows⟩
    · rcases further.numbered event late with own | started
      · exact Or.inl own
      · exact Or.inr ⟨Nat.le_trans leads.grows started.1, started.2⟩
  kept := by
    intro number earlier different
    rw [runEvents_append]
    exact (further.kept number (Nat.lt_of_lt_of_le earlier leads.grows) different).trans
      (leads.kept number earlier different)

/-- The events of a step lead where the step does. -/
def Step.Scheduled (fresh : Nat → Congruential) (step : Step Item) : Prop :=
  ∀ system thread world, Shows fresh system thread world →
    Leads fresh system thread world (step.schedule thread world.started).1
        (step.run fresh world).1.leaves (step.run fresh world).2 ∧
      (step.schedule thread world.started).2 = (step.run fresh world).2.started

theorem Act.scheduled (fresh : Nat → Congruential) (act : Act Item) : act.step.Scheduled fresh := by
  intro system thread world shows
  rw [act.schedule_step]
  exact ⟨leads_act shows act, (act.started_run fresh world).symm⟩

mutual

/-- Every step is scheduled, a nested program by the events of its steps. -/
theorem Step.scheduled (fresh : Nat → Congruential) (step : Step Item) : step.Scheduled fresh := by
  match step with
  | .create name seed => exact (Act.create name seed).scheduled fresh
  | .seedThread seed => exact (Act.seedThread seed).scheduled fresh
  | .currentSeed => exact Act.currentSeed.scheduled fresh
  | .draw origin call times => exact (Act.request origin (.draw call times)).scheduled fresh
  | .sample origin items times => exact (Act.request origin (.sample items times)).scheduled fresh
  | .inThread steps =>
      intro system thread world shows
      obtain ⟨leads, started⟩ := leads_scheduleAll shows.startThread steps
      rw [Step.schedule, Step.run, Answer.leaves]
      exact ⟨leads_inThread shows leads, started⟩

theorem leads_scheduleAll
    {fresh : Nat → Congruential} {system : System} {thread : Nat} {world : World}
    (shows : Shows fresh system thread world) (steps : List (Step Item)) :
    Leads fresh system thread world (scheduleAll steps thread world.started).1
        (leavesAll (runAll fresh steps world).1) (runAll fresh steps world).2 ∧
      (scheduleAll steps thread world.started).2 = (runAll fresh steps world).2.started := by
  match steps with
  | [] =>
      rw [scheduleAll, runAll, leavesAll]
      exact ⟨leads_nil shows, rfl⟩
  | step :: rest =>
      obtain ⟨leads, started⟩ := step.scheduled fresh system thread world shows
      obtain ⟨further, last⟩ := leads_scheduleAll leads.shows rest
      rw [scheduleAll_cons, runAll_cons, leavesAll, started]
      exact ⟨leads.append further, last⟩

end

/-- The answers of a program are those to its events. -/
theorem leavesAll_answers (fresh : Nat → Congruential) (steps : List (Step Item)) :
    leavesAll (answers fresh steps) = (log fresh (scheduleAll steps 0 1).1).map Prod.snd :=
  (leads_scheduleAll (shows_initial fresh) steps).1.answers.symm

/-- The threads that a program starts have numbers of their own. -/
theorem thread_of_mem_scheduleAll
    (steps : List (Step Item)) {thread started : Nat} (running : thread < started) :
    ∀ event ∈ (scheduleAll steps thread started).1, event.thread = thread ∨
      started ≤ event.thread ∧ event.thread < (scheduleAll steps thread started).2 := by
  let fresh : Nat → Congruential := fun _ => Congruential.ofSeed 0
  let world : World := { thread := { generator := fresh thread }, started }
  have shows : Shows fresh (System.initial fresh) thread world :=
    ⟨rfl, rfl, fun _ _ => rfl, running⟩
  obtain ⟨leads, last⟩ := leads_scheduleAll shows steps
  intro event member
  rw [last]
  exact leads.numbered event member

end RandomCodes.Threads

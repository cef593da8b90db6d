import HyperPlotter.Foundation.Shares
import HyperPlotter.Pipeline.Moves

/-!
# The hash tasks in flight

Where the hash tasks are, and what an event does to them: threads hand them on,
the dispatcher adds one at a time and takes one back with each report.
-/

namespace HyperPlotter.Pipeline

open Foundation Poc Interaction

/-! ## A writer pops with empty hands -/

/-- Only a writer without a task in hand pops. -/
def PopsEmpty (s : WriterState) (request : WriterRequest) : Prop :=
  request = .pop → s.current = none

/-- `Always` for any choices of the environment. -/
abbrev Orderly {α : Type} (post : α → WriterState → Prop) (program : WriterProgram α)
    (s : WriterState) : Prop :=
  Always WriterState.respond (fun _ _ _ => True) PopsEmpty post program s

/-- At the head of the outer loop a writer has no task in hand. -/
def EmptyHanded : WriterControl → WriterState → Prop
  | .outer _ _, s => s.current = none
  | _, _ => True

/-- The end of `run` asks for nothing. -/
private theorem leaveWriter_orderly (s : WriterState) : Orderly EmptyHanded leaveWriter s :=
  always_perform.mpr ⟨nofun, fun _ _ => trivial⟩

private theorem writerOuter_orderly (bench : Bool) (plan : List PlannedFile) (success : Bool)
    (lastWriteTask : Int) {s : WriterState} (empty : s.current = none) :
    Orderly EmptyHanded (writerOuter bench plan success lastWriteTask) s := by
  unfold writerOuter
  cases success with
  | false => exact leaveWriter_orderly s
  | true =>
      refine always_perform.mpr ⟨nofun, fun choice _ => ?_⟩
      have polled : s.respond choice (.stopped .outer) = (choice.stop, s) := rfl
      rw [polled]
      cases choice.stop with
      | true => exact leaveWriter_orderly s
      | false =>
          refine always_perform.mpr ⟨fun _ => empty, fun popping _ => ?_⟩
          have popped : s.respond popping .pop = (popping.task,
              { s with current := popping.task.map fun task => (task, popping.block) }) := rfl
          rw [popped]
          cases popping.task with
          | none => rfl
          | some task =>
              simp only []
              split
              · exact leaveWriter_orderly _
              · split
                · exact always_perform.mpr ⟨nofun, fun _ _ => rfl⟩
                · split
                  · exact always_perform.mpr ⟨nofun, fun _ _ => trivial⟩
                  · trivial

private theorem writerAttempt_orderly (plan : List PlannedFile) (lastWriteTask : Int)
    (task : HasherTask) (s : WriterState) :
    Orderly EmptyHanded (writerAttempt plan lastWriteTask task) s := by
  unfold writerAttempt
  split
  · trivial
  · rename_i file _
    have attempt : Orderly (fun _ _ => True)
        (attemptWrite task.currentWriteTask.toNat file task) s :=
      (attemptWrite_quiet _ _ _).always (fun _ _ quiet popping => absurd popping quiet.1) s
    refine attempt.bind fun ok s _ => ?_
    split
    · exact always_perform.mpr ⟨nofun, fun _ _ => rfl⟩
    · refine always_perform.mpr ⟨nofun, fun choice _ => ?_⟩
      split
      · exact always_perform.mpr ⟨nofun, fun _ _ => rfl⟩
      · trivial

/-- Every part of the writer's program pops with empty hands. -/
theorem writerBody_orderly (bench : Bool) (plan : List PlannedFile) {control : WriterControl}
    {s : WriterState} (empty : EmptyHanded control s) :
    Orderly EmptyHanded (writerBody bench plan control) s := by
  match control with
  | .outer success lastWriteTask => exact writerOuter_orderly bench plan success lastWriteTask empty
  | .attempt lastWriteTask task => exact writerAttempt_orderly plan lastWriteTask task s
  | .exited => trivial

/-! ## In flight -/

namespace System

variable (setup : PlotterSetup)

/-- The hash tasks in flight: queued for the hasher, being hashed, queued for or
being written by their writers, and reported. -/
def inFlight (s : System) : List HasherTask :=
  s.hasherQueue ++ s.hasher.task.toList ++
    shares setup.plans.length (fun i => s.queues i ++ (s.threads i).inHand) ++ s.reports

/-- The hash tasks made for writer `i`, from the first it reported to the last one
queued for the hasher. -/
def issued (s : System) (i : Nat) : List HasherTask :=
  (s.threads i).state.reported ++ (s.threads i).inHand ++ s.queues i ++
    (s.hasher.task.toList ++ s.hasherQueue).filter (fun task => task.writer = i)

/-- A hash task as `next_hasher_task` makes them. -/
structure Known (task : HasherTask) : Prop where
  writer : task.writer < setup.plans.length
  current : 0 ≤ task.currentWriteTask
  positive : 0 < task.nonces
  size : task.nonces ≤ toInt32 setup.workSize

/-- The writers pop with empty hands. -/
def WritersOrderly (s : System) : Prop :=
  ∀ i, Orderly EmptyHanded (s.threads i).program (s.threads i).state

/-- The tasks in flight are the same, and each writer's are in the same order. -/
structure Passed (s t : System) : Prop where
  flight : (t.inFlight setup).Perm (s.inFlight setup)
  issued : ∀ i, t.issued i = s.issued i

/-- What an event does to the dispatcher and to the hash tasks in flight. -/
inductive Flow (s t : System) : SystemEvent → Prop where
  | pass {event : SystemEvent} (dispatcher : t.dispatcher = s.dispatcher)
      (passed : Passed setup s t)
      (elsewhere : ∀ hasherSize writerSize choice, event ≠ .dispatch hasherSize writerSize choice) :
      Flow s t event
  | poll (dispatcher : t.dispatcher = s.dispatcher.poll s.stopped) (passed : Passed setup s t) :
      Flow s t .poll
  | timeout (dispatcher : t.dispatcher = s.dispatcher.receive setup none)
      (passed : Passed setup s t) : Flow s t (.receive true)
  | report (report : HasherTask) (place : s.dispatcher.place = .reports)
      (dispatcher : t.dispatcher = s.dispatcher.receive setup (some report))
      (flight : (s.inFlight setup).Perm (report :: t.inFlight setup))
      (issued : ∀ i, t.issued i = s.issued i) : Flow s t (.receive false)
  | dispatch (hasherSize : Nat) (writerSize : Nat → Nat) (choice : MemoryChoice)
      (place : s.dispatcher.place = .deciding)
      (fresh : ∀ data, choice.fresh = some data →
        s.dispatcher.allocator.Fresh ⟨data, setup.blockSize⟩)
      (dispatcher : t.dispatcher = (s.dispatcher.dispatch setup hasherSize writerSize choice).2)
      (flight : (t.inFlight setup).Perm (s.inFlight setup ++
        (s.dispatcher.dispatch setup hasherSize writerSize choice).1.toList))
      (issued : ∀ i, t.issued i = s.issued i ++
        (s.dispatcher.dispatch setup hasherSize writerSize choice).1.toList.filter
          (fun task => task.writer = i)) : Flow s t (.dispatch hasherSize writerSize choice)

variable {setup} {s t : System}

variable (setup) in
/-- What an event does to the thread of writer `i`. -/
inductive ThreadMove (s : System) (event : SystemEvent) (t : System) (i : Nat) : Prop where
  | away (elsewhere : ∀ outcome, event ≠ .writer i outcome) (same : t.threads i = s.threads i)
  | turn {outcome : Outcome} {control : WriterControl} (own : event = .writer i outcome)
      (done : (s.threads i).program = .done control)
      (turned : t.threads i =
        (s.threads i).turn (setup.bench.testBit 0) (setup.plan i) control)
  | answer {outcome : Outcome} {request : WriterRequest}
      {next : request.Reply → WriterProgram WriterControl} (own : event = .writer i outcome)
      (asks : (s.threads i).program = .ask request next)
      (answered : t.threads i = (s.threads i).answer request next (s.choice i outcome))

/-- The thread of another writer is left alone. -/
private theorem ThreadMove.other {i j : Nat} {outcome : Outcome} {thread : WriterThread}
    (threads : t.threads = Function.update s.threads j thread) (differ : i ≠ j) :
    ThreadMove setup s (.writer j outcome) t i := by
  refine .away ?_ (by rw [threads, Function.update_of_ne differ])
  rintro _ ⟨⟩
  exact differ rfl

private theorem ThreadMove.answered {i j : Nat} {outcome : Outcome} {request : WriterRequest}
    {next : request.Reply → WriterProgram WriterControl}
    (asks : (s.threads j).program = .ask request next)
    (threads : t.threads = Function.update s.threads j
      ((s.threads j).answer request next (s.choice j outcome))) :
    ThreadMove setup s (.writer j outcome) t i := by
  by_cases same : i = j
  · subst same
    exact .answer rfl asks (by rw [threads, Function.update_self])
  · exact .other threads same

/-- A thread changes by a turn or an answer, at an event of its own. -/
theorem step_thread {event : SystemEvent} (taken : s.step setup event = some t) (i : Nat) :
    ThreadMove setup s event t i := by
  cases step_move taken with
  | @turn j outcome control inside done =>
      by_cases same : i = j
      · subst same
        exact .turn rfl done (Function.update_self ..)
      · exact .other rfl same
  | popNothing inside asks => exact .answered asks rfl
  | pop inside asks => exact .answered asks rfl
  | report inside asks => exact .answered asks rfl
  | other inside asks => exact .answered asks rfl
  | close =>
      refine .away (by rintro _ ⟨⟩) ?_
      unfold close
      split <;> rfl
  | _ => exact .away (by rintro _ ⟨⟩) rfl

/-- The writers pop with empty hands in every run. -/
theorem WritersOrderly.step (orderly : WritersOrderly s) {event : SystemEvent}
    (taken : s.step setup event = some t) : WritersOrderly t := by
  intro i
  have discipline := orderly i
  cases step_thread taken i with
  | away _ same =>
      rw [same]
      exact discipline
  | turn _ done turned =>
      rw [done] at discipline
      rw [turned]
      exact writerBody_orderly _ _ discipline
  | answer _ asks answered =>
      rw [asks] at discipline
      rw [answered]
      exact discipline.2 _ trivial

/-- The writers are orderly in a start state. -/
theorem Start.writersOrderly (start : s.Start setup) : WritersOrderly s := by
  intro i
  obtain ⟨plotting, final, writeBuffer, thread⟩ := start.threads i
  rw [thread]
  exact rfl

/-- A writer's new share of the tasks in flight. -/
private theorem inFlight_writer {i : Nat} (inside : i < setup.plans.length)
    (hasherQueue : t.hasherQueue = s.hasherQueue)
    (others : ∀ j, j ≠ i → t.queues j ++ (t.threads j).inHand = s.queues j ++ (s.threads j).inHand)
    (moved : (t.hasher.task.toList ++ (t.queues i ++ (t.threads i).inHand) ++ t.reports).Perm
      (s.hasher.task.toList ++ (s.queues i ++ (s.threads i).inHand) ++ s.reports)) :
    (t.inFlight setup).Perm (s.inFlight setup) := by
  obtain ⟨rest, taken, exchange⟩ := shares_perm inside fun j => s.queues j ++ (s.threads j).inHand
  have given := exchange (fun j => t.queues j ++ (t.threads j).inHand) others
  rw [List.perm_iff_count] at *
  intro task
  have before := taken task
  have after := given task
  have together := moved task
  simp only [inFlight, hasherQueue, List.count_append] at *
  omega

/-- The hasher takes, hashes or delivers a task. -/
private theorem hash_passed (known : ∀ task ∈ s.inFlight setup, Known setup task)
    (move : Move setup s .hasher t) : t.dispatcher = s.dispatcher ∧ Passed setup s t := by
  cases move with
  | hasherHead here =>
      have idle : (if s.stopped then HasherPlace.left else .popping).task = s.hasher.task := by
        rw [here]
        cases s.stopped <;> rfl
      refine ⟨rfl, .of_eq ?_, fun i => ?_⟩
      · simp only [inFlight, idle]
      · simp only [issued, idle]
  | hasherExit here =>
      refine ⟨rfl, .of_eq ?_, fun i => ?_⟩
      · simp only [inFlight, here, HasherPlace.task]
      · simp only [issued, here, HasherPlace.task]
  | @hasherLeave task rest _ _ queued last =>
      have mine : task ∈ s.inFlight setup := by simp [inFlight, queued]
      have current := (known task mine).current
      omega
  | @hasherTake task rest here _ queued =>
      refine ⟨rfl, ?_, fun i => ?_⟩
      · rw [List.perm_iff_count]
        intro other
        simp only [inFlight, here, queued, HasherPlace.task, List.count_append, List.count_cons,
          Option.toList_some, Option.toList_none, List.count_nil]
        omega
      · simp only [issued, here, queued, HasherPlace.task, Option.toList_some,
          Option.toList_none, List.nil_append, List.singleton_append]
  | hasherPlot here =>
      refine ⟨rfl, .of_eq ?_, fun i => ?_⟩
      · simp only [inFlight, here, HasherPlace.task]
      · simp only [issued, here, HasherPlace.task]
  | @hasherDeliver task here =>
      have mine : task ∈ s.inFlight setup := by simp [inFlight, here, HasherPlace.task]
      refine ⟨rfl, inFlight_writer (known task mine).writer rfl (fun j differ => ?_) ?_, fun i => ?_⟩
      · simp only [Function.update_of_ne differ]
      · rw [List.perm_iff_count]
        intro other
        simp only [here, HasherPlace.task, Function.update_self, List.count_append,
          List.count_cons, Option.toList_some, Option.toList_none, List.count_nil]
        omega
      · simp only [issued, here, HasherPlace.task, Option.toList_some, Option.toList_none,
          List.nil_append, List.singleton_append, List.filter_cons]
        by_cases same : task.writer = i
        · simp [same]
        · simp [same, Function.update_of_ne (Ne.symm same)]

/-- A writer's answer to a quiet request leaves its tasks alone. -/
private theorem answer_quiet {thread : WriterThread} {request : WriterRequest}
    (next : request.Reply → WriterProgram WriterControl) (quiet : request.Quiet) (choice : Choice) :
    (thread.answer request next choice).inHand = thread.inHand ∧
      (thread.answer request next choice).state.reported = thread.state.reported := by
  have same := WriterState.respond_quiet quiet choice thread.state
  unfold WriterThread.inHand WriterState.reported
  rw [← same.1, ← same.2]
  exact ⟨rfl, rfl⟩

/-- Only the thread of writer `i` changes, and keeps its tasks. -/
private theorem thread_passed {i : Nat} (inside : i < setup.plans.length) {thread : WriterThread}
    (inHand : thread.inHand = (s.threads i).inHand)
    (reported : thread.state.reported = (s.threads i).state.reported) :
    Passed setup s { s with threads := Function.update s.threads i thread } := by
  refine ⟨inFlight_writer inside rfl (fun j differ => ?_) (.of_eq ?_), fun j => ?_⟩
  · simp only [Function.update_of_ne differ]
  · simp only [Function.update_self, inHand]
  · by_cases same : j = i
    · subst same
      simp only [issued, Function.update_self, inHand, reported]
    · simp only [issued, Function.update_of_ne same]

/-- A writer takes a task, works on it or reports it. -/
private theorem write_passed (orderly : WritersOrderly s) {i : Nat} {outcome : Outcome}
    (move : Move setup s (.writer i outcome) t) :
    t.dispatcher = s.dispatcher ∧ Passed setup s t := by
  have discipline := orderly i
  have popped : ∀ next choice,
      ((s.threads i).answer .pop next choice).inHand = choice.task.toList := by
    intro next choice
    unfold WriterThread.inHand WriterThread.answer WriterState.respond
    simp only []
    cases choice.task <;> rfl
  have emptyHanded : ∀ {next}, (s.threads i).program = .ask .pop next →
      (s.threads i).inHand = [] := by
    intro next asks
    rw [asks] at discipline
    unfold WriterThread.inHand
    rw [discipline.1 rfl]
    rfl
  cases move with
  | turn inside done => exact ⟨rfl, thread_passed inside rfl rfl⟩
  | popNothing inside asks exit =>
      refine ⟨rfl, thread_passed inside ?_ rfl⟩
      rw [popped, emptyHanded asks, choice_nothing exit]
      rfl
  | @pop _ _ next task rest inside asks running queued =>
      have kept : ∀ choice, ((s.threads i).answer .pop next choice).state.reported =
          (s.threads i).state.reported := fun _ => rfl
      have handed : (s.choice i outcome).task = some task := choice_task running queued
      refine ⟨rfl, inFlight_writer inside rfl (fun j differ => ?_) ?_, fun j => ?_⟩
      · simp only [answer, Function.update_of_ne differ]
      · simp only [answer, Function.update_self, popped, emptyHanded asks, handed, queued]
        rw [List.perm_iff_count]
        intro other
        simp only [Option.toList_some, List.count_append, List.count_cons, List.count_nil]
        omega
      · by_cases same : j = i
        · subst same
          simp only [issued, answer, Function.update_self, popped, kept, emptyHanded asks, handed,
            queued, Option.toList_some, List.append_assoc, List.nil_append, List.cons_append]
        · simp only [issued, answer, Function.update_of_ne same]
  | @report _ _ next inside asks =>
      have reported : ∀ choice, ((s.threads i).answer .report next choice).inHand = [] :=
        fun _ => rfl
      have extended : ∀ choice, ((s.threads i).answer .report next choice).state.reported =
          (s.threads i).state.reported ++ (s.threads i).inHand := by
        intro choice
        show ((s.threads i).state.finished ++ (s.threads i).state.current.toList).map Prod.fst = _
        rw [List.map_append]
        unfold WriterThread.inHand
        cases (s.threads i).state.current <;> rfl
      refine ⟨rfl, inFlight_writer inside rfl (fun j differ => ?_) ?_, fun j => ?_⟩
      · simp only [answer, Function.update_of_ne differ]
      · rw [List.perm_iff_count]
        intro other
        simp only [answer, Function.update_self, reported, List.count_append, List.count_nil]
        omega
      · by_cases same : j = i
        · subst same
          simp only [issued, answer, Function.update_self, reported, extended, List.append_nil]
        · simp only [issued, answer, Function.update_of_ne same]
  | other inside asks quiet =>
      obtain ⟨inHand, reported⟩ := answer_quiet _ quiet (s.choice i outcome)
      exact ⟨rfl, thread_passed inside inHand reported⟩

/-- Every event lets the tasks in flight pass on, or is one of the dispatcher's. -/
theorem step_flow (known : ∀ task ∈ s.inFlight setup, Known setup task) (orderly : WritersOrderly s)
    {event : SystemEvent} (taken : s.step setup event = some t) : Flow setup s t event := by
  have move := step_move taken
  cases event with
  | hasher =>
      obtain ⟨dispatcher, passed⟩ := hash_passed known move
      exact .pass dispatcher passed (by rintro _ _ _ ⟨⟩)
  | writer i outcome =>
      obtain ⟨dispatcher, passed⟩ := write_passed orderly move
      exact .pass dispatcher passed (by rintro _ _ _ ⟨⟩)
  | interrupt =>
      cases move
      exact .pass rfl ⟨.refl _, fun _ => rfl⟩ (by rintro _ _ _ ⟨⟩)
  | close worker =>
      cases move
      unfold close
      split <;> exact .pass rfl ⟨.refl _, fun _ => rfl⟩ (by rintro _ _ _ ⟨⟩)
  | poll =>
      cases move
      exact .poll rfl ⟨.refl _, fun _ => rfl⟩
  | receive timeout =>
      cases move with
      | timeout => exact .timeout rfl ⟨.refl _, fun _ => rfl⟩
      | @receive report rest place reported =>
          refine .report report place rfl ?_ fun _ => rfl
          rw [List.perm_iff_count]
          intro other
          simp only [inFlight, reported, List.count_append, List.count_cons]
          omega
  | dispatch hasherSize writerSize choice =>
      cases move with
      | dispatch place fresh =>
          refine .dispatch hasherSize writerSize choice place fresh rfl ?_ fun i => ?_
          · rw [List.perm_iff_count]
            intro other
            simp only [inFlight, dispatch, List.count_append]
            omega
          · simp only [issued, dispatch, List.filter_append, List.append_assoc]

end System

end HyperPlotter.Pipeline

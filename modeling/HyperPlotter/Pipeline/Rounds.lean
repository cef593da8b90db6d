import HyperPlotter.Pipeline.Iterations

/-!
# A hash task on its way

From a state with nothing in flight a hash task can be dispatched, hashed,
written and reported, so that nothing is in flight again and fewer nonces are
left. No file operation fails on that way.
-/

namespace HyperPlotter.Pipeline

open Foundation Poc Interaction

/-- Nothing fails. -/
def smoothly : Outcome := ⟨true, 0, fun _ => 0⟩

namespace System

/-- The state with another thread of writer `i`. -/
def withThread (s : System) (i : Nat) (thread : WriterThread) : System :=
  { s with threads := Function.update s.threads i thread }

variable {setup : PlotterSetup} {s : System} {i : Nat} {outcome : Outcome}

/-! ## Accesses of a writer -/

section

variable (outcome : Outcome)

/-- A writer at the end of a part goes on with the next one. -/
theorem write_done {control : WriterControl} (done : (s.threads i).program = .done control)
    (proceeds : control ≠ .exited) : s.write setup i outcome = some (s.withThread i
      ((s.threads i).turn (setup.bench.testBit 0) (setup.plan i) control)) := by
  unfold write
  rw [done]
  cases control with
  | exited => exact absurd rfl proceeds
  | _ => rfl

/-- A quiet request changes the thread only. -/
theorem write_quiet {request : WriterRequest} {next : request.Reply → WriterProgram WriterControl}
    (asks : (s.threads i).program = .ask request next) (quiet : request.Quiet) :
    s.write setup i outcome = some (s.answer i request next outcome) := by
  unfold write
  rw [asks]
  cases request with
  | pop => exact absurd rfl quiet.1
  | report => exact absurd rfl quiet.2
  | _ => rfl

/-- A writer pops the first task of its queue. -/
theorem write_pop {next : Option HasherTask → WriterProgram WriterControl} {task : HasherTask}
    {rest : List HasherTask} (asks : (s.threads i).program = .ask .pop next)
    (running : s.exits i = false) (queued : s.queues i = task :: rest) :
    s.write setup i outcome = some
      { s.answer i .pop next outcome with queues := Function.update s.queues i rest } := by
  unfold write
  rw [asks]
  simp [running, queued]

/-- A writer reports the task in its hands. -/
theorem write_report {next : Unit → WriterProgram WriterControl}
    (asks : (s.threads i).program = .ask .report next) : s.write setup i outcome = some
      { s.answer i .report next outcome with reports := s.reports ++ (s.threads i).inHand } := by
  unfold write
  rw [asks]
  rfl

end

/-! ## A writer alone -/

variable (setup) in
/-- In the given state writer `i` may have come to a program and a state of its own. -/
def ThreadAt (s : System) (i : Nat) (program : WriterProgram WriterControl) (state : WriterState) :
    Prop := setup.machine.Reachable (s.withThread i ⟨program, state⟩)

variable {state : WriterState}

/-- The thread that was put in place. -/
theorem withThread_threads (thread : WriterThread) : (s.withThread i thread).threads i = thread :=
  Function.update_self ..

/-- The last thread counts. -/
theorem withThread_withThread (thread thread' : WriterThread) :
    (s.withThread i thread).withThread i thread' = s.withThread i thread' := by
  unfold withThread
  simp only [Function.update_idem]

/-- The accesses of a writer are steps. -/
private theorem step_write (inside : i < setup.plans.length) {t : System}
    (reached : setup.machine.Reachable s) (taken : s.write setup i outcome = some t) :
    setup.machine.Reachable t := by
  have moved : setup.machine.step s (.writer i outcome) = some t := (if_pos inside).trans taken
  exact .step reached trivial moved

/-- The next part of the program begins. -/
theorem ThreadAt.turn (inside : i < setup.plans.length) {control : WriterControl}
    (proceeds : control ≠ .exited) (here : ThreadAt setup s i (.done control) state) :
    ThreadAt setup s i (writerBody (setup.bench.testBit 0) (setup.plan i) control) state := by
  have done : ((s.withThread i ⟨.done control, state⟩).threads i).program = .done control := by
    rw [withThread_threads]
  have reached := step_write inside here (write_done smoothly done proceeds)
  rw [withThread_withThread, withThread_threads] at reached
  exact reached

/-- A quiet request is answered without a failure. -/
theorem ThreadAt.ask (inside : i < setup.plans.length) (running : s.stopped = false)
    {request : WriterRequest} {next : request.Reply → WriterProgram WriterControl}
    (quiet : request.Quiet) (here : ThreadAt setup s i (.ask request next) state) :
    ∃ choice, Smooth state request choice ∧ ThreadAt setup s i
      (next (state.respond choice request).1) (state.respond choice request).2 := by
  have asks : ((s.withThread i ⟨.ask request next, state⟩).threads i).program =
      .ask request next := by
    rw [withThread_threads]
  have reached := step_write inside here (write_quiet smoothly asks quiet)
  refine ⟨(s.withThread i ⟨.ask request next, state⟩).choice i smoothly, ⟨rfl, running⟩, ?_⟩
  unfold answer at reached
  rw [withThread_threads] at reached
  unfold ThreadAt
  rw [← withThread_withThread ⟨.ask request next, state⟩]
  exact reached

/-- A program without queue operations runs to its end without a failure. -/
theorem ThreadAt.run {α : Type} (inside : i < setup.plans.length) (running : s.stopped = false)
    {post : α → WriterState → Prop} {program : WriterProgram α}
    {next : α → WriterProgram WriterControl} (quiet : program.Only WriterRequest.Quiet)
    (smooth : Smoothly post program state) (here : ThreadAt setup s i (program >>= next) state) :
    ∃ result final, post result final ∧ final.SameTasks state ∧
      ThreadAt setup s i (next result) final := by
  induction program generalizing state with
  | done result => exact ⟨result, state, smooth, ⟨rfl, rfl⟩, here⟩
  | ask request answered ih =>
      obtain ⟨choice, allowed, later⟩ := here.ask inside running quiet.1
      obtain ⟨result, final, met, same, done⟩ := ih _ (quiet.2 _) (smooth.2 choice allowed) later
      exact ⟨result, final, met, same.trans (WriterState.respond_quiet quiet.1 choice state), done⟩

/-- The first task in the queue is taken in hand. -/
theorem ThreadAt.pop (inside : i < setup.plans.length) (exits : s.exits i = false)
    {task : HasherTask} {rest : List HasherTask} (queued : s.queues i = task :: rest)
    {next : Option HasherTask → WriterProgram WriterControl}
    (here : ThreadAt setup s i (.ask .pop next) state) :
    ∃ data, ThreadAt setup { s with queues := Function.update s.queues i rest } i
      (next (some task)) { state with current := some (task, data) } := by
  have asks : ((s.withThread i ⟨.ask .pop next, state⟩).threads i).program = .ask .pop next := by
    rw [withThread_threads]
  have reached := step_write inside here (write_pop smoothly asks exits queued)
  have chosen : ((s.withThread i ⟨.ask .pop next, state⟩).choice i smoothly).task = some task := by
    show (if s.exits i then none else (s.queues i).head?) = some task
    rw [exits, queued]
    rfl
  unfold answer at reached
  rw [withThread_threads] at reached
  generalize (s.withThread i ⟨.ask .pop next, state⟩).choice i smoothly = choice at reached chosen
  have answered : WriterThread.answer ⟨.ask .pop next, state⟩ .pop next choice =
      ⟨next (some task), { state with current := some (task, choice.block) }⟩ := by
    unfold WriterThread.answer WriterState.respond
    simp only [chosen, Option.map_some]
  rw [answered] at reached
  refine ⟨choice.block, ?_⟩
  unfold ThreadAt withThread at *
  simp only [Function.update_idem] at reached
  exact reached

/-- The task in hand is reported. -/
theorem ThreadAt.report (inside : i < setup.plans.length) {task : HasherTask} {data : Memory}
    (current : state.current = some (task, data)) {next : Unit → WriterProgram WriterControl}
    (here : ThreadAt setup s i (.ask .report next) state) :
    ThreadAt setup { s with reports := s.reports ++ [task] } i (next ())
      { state with current := none, finished := state.finished ++ [(task, data)] } := by
  have asks : ((s.withThread i ⟨.ask .report next, state⟩).threads i).program =
      .ask .report next := by
    rw [withThread_threads]
  have reached := step_write inside here (write_report smoothly asks)
  have inHand : ((s.withThread i ⟨.ask .report next, state⟩).threads i).inHand = [task] := by
    rw [withThread_threads, WriterThread.inHand, current]
    rfl
  rw [inHand] at reached
  unfold answer at reached
  rw [withThread_threads] at reached
  have answered : ∀ choice, WriterThread.answer ⟨.ask .report next, state⟩ .report next choice =
      ⟨next (), { state with current := none, finished := state.finished ++ [(task, data)] }⟩ := by
    intro choice
    unfold WriterThread.answer WriterState.respond
    simp only [current, Option.toList_some]
  rw [answered] at reached
  unfold ThreadAt withThread at *
  simp only [Function.update_idem] at reached
  exact reached

/-- What a writer without a stop asks for at the head of its loop. -/
private theorem writerOuter_asks (bench : Bool) (plan : List PlannedFile) (lastWriteTask : Int) :
    ∃ polled next, writerOuter bench plan true lastWriteTask = .ask (.stopped .outer) polled ∧
      polled false = .ask .pop next ∧
      ∀ task : HasherTask, 0 ≤ task.currentWriteTask → task.currentWriteTask < plan.length →
        next (some task) =
          if bench then .ask .report fun _ => .done (.outer true lastWriteTask)
          else if lastWriteTask ≠ task.currentWriteTask then
            .ask .closeFile fun _ => .done (.attempt task.currentWriteTask task)
          else .done (.attempt lastWriteTask task) := by
  refine ⟨_, _, rfl, rfl, fun task lower upper => ?_⟩
  exact if_neg (by omega)

/-- An attempt with what follows its success. -/
private theorem writerAttempt_asks {plan : List PlannedFile} {task : HasherTask} {index : Nat}
    {file : PlannedFile} (found : plan[index]? = some file)
    (current : task.currentWriteTask = (index : Int)) (lastWriteTask : Int) :
    ∃ next, writerAttempt plan lastWriteTask task = attemptWrite index file task >>= next ∧
      next true = .ask .report fun _ => .done (.outer true lastWriteTask) := by
  have indexEq : task.currentWriteTask.toNat = index := by omega
  unfold writerAttempt
  rw [indexEq, found]
  exact ⟨_, rfl, rfl⟩

/-- An attempt that nothing disturbs, with its report. -/
private theorem ThreadAt.attempt (inside : i < setup.plans.length) (running : s.stopped = false)
    {task : HasherTask} {index : Nat} {file : PlannedFile} {data : Memory}
    (found : (setup.plan i)[index]? = some file) (current : task.currentWriteTask = (index : Int))
    {lastWriteTask : Int} (inHand : state.current = some (task, data))
    (handle : state.handle = none ∨ state.IsOpen)
    (here : ThreadAt setup s i (.done (.attempt lastWriteTask task)) state) :
    ∃ final, ThreadAt setup { s with reports := s.reports ++ [task] } i
        (.done (.outer true lastWriteTask)) final ∧
      final.current = none ∧ (final.handle = none ∨ final.IsOpen) := by
  obtain ⟨next, attempt, reports⟩ := writerAttempt_asks found current lastWriteTask
  have begun := here.turn inside (by rintro ⟨⟩)
  rw [writerBody, attempt] at begun
  obtain ⟨ok, final, ⟨rfl, reopens⟩, same, written⟩ :=
    begun.run inside running (attemptWrite_quiet index file task) (attemptWrite_smooth handle)
  rw [reports] at written
  exact ⟨_, written.report inside (same.1.trans inHand), rfl, reopens⟩

/-- A writer at the head of its loop takes the only task in its queue, writes it and
reports it. -/
theorem ThreadAt.task (inside : i < setup.plans.length) (running : s.stopped = false)
    (exits : s.exits i = false) {task : HasherTask} (queued : s.queues i = [task]) {index : Nat}
    {file : PlannedFile} (found : (setup.plan i)[index]? = some file)
    (current : task.currentWriteTask = (index : Int)) {lastWriteTask : Int}
    (handle : state.handle = none ∨ state.IsOpen)
    (here : ThreadAt setup s i (.done (.outer true lastWriteTask)) state) :
    ∃ last final, ThreadAt setup
        { s with queues := Function.update s.queues i [], reports := s.reports ++ [task] } i
        (.done (.outer true last)) final ∧
      final.current = none ∧ (final.handle = none ∨ final.IsOpen) := by
  have within : index < (setup.plan i).length := (List.getElem?_eq_some_iff.mp found).1
  obtain ⟨polled, next, outer, starts, popped⟩ :=
    writerOuter_asks (setup.bench.testBit 0) (setup.plan i) lastWriteTask
  have begun := here.turn inside (by rintro ⟨⟩)
  rw [writerBody, outer] at begun
  obtain ⟨choice, smooth, asked⟩ := begun.ask inside running ⟨by rintro ⟨⟩, by rintro ⟨⟩⟩
  have answered : state.respond choice (.stopped .outer) = (false, state) := Prod.ext smooth.2 rfl
  rw [answered, starts] at asked
  obtain ⟨data, taken⟩ := asked.pop inside exits queued
  rw [popped task (by omega) (by omega)] at taken
  have goesOn : ({ s with queues := Function.update s.queues i [] } : System).stopped = false :=
    running
  split at taken
  · exact ⟨_, _, taken.report inside rfl, rfl, handle⟩
  · split at taken
    · obtain ⟨closing, _, closed⟩ := taken.ask inside goesOn ⟨by rintro ⟨⟩, by rintro ⟨⟩⟩
      exact ⟨_, closed.attempt inside goesOn found current rfl (.inl rfl)⟩
    · refine ⟨_, taken.attempt inside goesOn found current rfl ?_⟩
      exact handle

/-! ## The hasher alone -/

/-- The hasher's next access is a step. -/
private theorem step_hash {t : System} (reached : setup.machine.Reachable s)
    (taken : s.hash setup = some t) : setup.machine.Reachable t := by
  have moved : setup.machine.step s .hasher = some t := taken
  exact .step reached trivial moved

/-- The chunks of a task are plotted, and the task goes to its writer. -/
private theorem hashes_chunks {task : HasherTask} (chunks : List Chunk) {devBuff : Memory}
    {memory : Nat → Memory} (reached : setup.machine.Reachable
      { s with hasher := .hashing task chunks, devBuff := devBuff, memory := memory }) :
    ∃ devBuff memory, setup.machine.Reachable { s with
      hasher := .head
      devBuff := devBuff
      memory := memory
      queues := Function.update s.queues task.writer (s.queues task.writer ++ [task]) } := by
  induction chunks generalizing devBuff memory with
  | nil => exact ⟨devBuff, memory, step_hash reached rfl⟩
  | cons chunk rest ih => exact ih (step_hash reached rfl)

/-- The hasher takes the only task in its queue and delivers it. -/
theorem hashes_task (reached : setup.machine.Reachable s) (running : s.stopped = false)
    (exits : s.hasherExit = false) (head : s.hasher = .head) {task : HasherTask}
    (queued : s.hasherQueue = [task]) (proceeds : 0 ≤ task.currentWriteTask) :
    ∃ devBuff memory, setup.machine.Reachable { s with
      hasherQueue := []
      hasher := .head
      devBuff := devBuff
      memory := memory
      queues := Function.update s.queues task.writer (s.queues task.writer ++ [task]) } := by
  have waits : s.hash setup = some { s with hasher := .popping } := by
    unfold hash
    rw [head]
    simp [running]
  have takes : ({ s with hasher := .popping } : System).hash setup = some { s with
      hasher := .hashing task (if setup.bench.testBit 1 then []
        else task.chunks setup.gpu.globalWorkSize)
      hasherQueue := [] } := by
    unfold hash
    simp only [exits, queued]
    rw [if_neg (by simp), if_neg (by omega)]
  have taken := step_hash (step_hash reached waits) takes
  exact hashes_chunks (s := { s with hasherQueue := [] }) _ taken

/-! ## The dispatcher alone -/

/-- While a block fits into the address space there is memory for one. -/
private theorem Idle.exists_choice (valid : setup.Valid)
    (fits : setup.blockSize < BlockAllocator.addressSpace) (idle : Idle setup s) :
    ∃ choice : MemoryChoice, (∀ data ∈ choice.fresh,
        s.dispatcher.allocator.Fresh ⟨data, setup.blockSize⟩) ∧
      ((s.dispatcher.allocator.allocate choice setup.blockSize).1).isSome := by
  have backed := (reachable_balanced valid idle.reached).1.backed
  rw [idle.empty, List.map_nil] at backed
  have unused : s.dispatcher.allocator.used = [] :=
    List.map_eq_nil_iff.mp (List.perm_nil.mp backed.used)
  cases free : s.dispatcher.allocator.free with
  | nil =>
      refine ⟨⟨0, setup.blockSize, some 1⟩, ?_, backed.allocates valid
        (Nat.pos_of_ne_zero valid.flying) (Nat.le_refl _) ⟨1, rfl⟩⟩
      rintro data ⟨⟩
      refine ⟨Nat.one_pos, by simp only []; omega, fun other member => ?_⟩
      rw [BlockAllocator.held, unused, free] at member
      cases member
  | cons block rest =>
      refine ⟨⟨0, 0, none⟩, by rintro _ ⟨⟩, ?_⟩
      have length := backed.lengths block
        (List.mem_append_left _ (by rw [free]; exact List.mem_cons_self ..))
      have fitting : s.dispatcher.allocator.fitting setup.blockSize =
          block :: rest.filter fun block => block.len = setup.blockSize := by
        rw [BlockAllocator.fitting, free, List.filter_cons_of_pos (by simpa using length)]
      rw [BlockAllocator.allocate, fitting]
      simp

variable (setup) in
/-- The dispatcher can come to have dispatched one hash task, alone. -/
def CanDispatch (s : System) : Prop :=
  ∃ task d, setup.machine.Reachable { s with dispatcher := d, hasherQueue := [task] } ∧
    d.place = .head ∧ d.remaining setup < s.dispatcher.remaining setup

/-- An idle dispatcher dispatches a hash task or goes on to the next position. -/
private theorem Idle.goesOn (valid : setup.Valid)
    (fits : setup.blockSize < BlockAllocator.addressSpace) (idle : Idle setup s) :
    CanDispatch setup s ∨ ∃ t : System, t = { s with dispatcher := t.dispatcher } ∧ Idle setup t ∧
      s.Exhausted (s.dispatcher.wrapped setup).toNat ∧
      t.dispatcher.writerTasks = s.dispatcher.writerTasks ∧
      t.dispatcher.curWorkerPos = s.dispatcher.wrapped setup + 1 := by
  obtain ⟨choice, fresh, serves⟩ := idle.exists_choice valid fits
  have taken := idle.iterate valid fresh
  have reached := iterate_reachable idle.reached taken
  generalize s.dispatch setup s.hasherQueue.length (fun i => (s.queues i).length) choice = t
    at taken reached
  rcases idle.dispatch valid fresh serves taken with ⟨task, same, place, less⟩ | next
  · rw [same] at reached
    exact .inl ⟨task, t.dispatcher, reached, place, less⟩
  · exact .inr ⟨t, next⟩

/-- An idle dispatcher can dispatch a hash task of a writer with something left. -/
private theorem Idle.reaches (valid : setup.Valid)
    (fits : setup.blockSize < BlockAllocator.addressSpace) (distance : Nat) (idle : Idle setup s)
    (left : ¬s.Exhausted (((s.dispatcher.wrapped setup).toNat + distance) % setup.plans.length)) :
    CanDispatch setup s := by
  have bounds := (reachable_balanced valid idle.reached).1.wrapped valid
  induction distance generalizing s with
  | zero =>
      rcases idle.goesOn valid fits with dispatches | ⟨_, _, _, exhausted, _⟩
      · exact dispatches
      · rw [Nat.add_zero, Nat.mod_eq_of_lt (by omega)] at left
        exact absurd exhausted left
  | succ distance ih =>
      rcases idle.goesOn valid fits with dispatches | ⟨t, same, still, _, tasks, position⟩
      · exact dispatches
      · have turn : ¬t.Exhausted
            (((t.dispatcher.wrapped setup).toNat + distance) % setup.plans.length) := by
          rw [wrapped_next valid bounds position, Nat.mod_add_mod, Nat.add_right_comm, Nat.add_assoc]
          unfold Exhausted at left ⊢
          rwa [tasks]
        obtain ⟨task, d, reached, place, less⟩ :=
          ih still turn ((reachable_balanced valid still.reached).1.wrapped valid)
        rw [same] at reached
        refine ⟨task, d, reached, place, ?_⟩
        unfold Dispatcher.remaining at less ⊢
        rwa [tasks] at less

/-- An idle dispatcher can dispatch a hash task. -/
theorem Idle.canDispatch (valid : setup.Valid)
    (fits : setup.blockSize < BlockAllocator.addressSpace) (idle : Idle setup s) :
    CanDispatch setup s := by
  obtain ⟨distance, _, left⟩ := idle.exists_distance valid
  exact idle.reaches valid fits distance left

/-! ## A round -/

variable (setup) in
/-- Nothing is in flight, and the hasher and the writers are at the heads of their
loops. -/
structure Resting (s : System) : Prop where
  reached : setup.machine.Reachable s
  running : s.stopped = false
  hasherExit : s.hasherExit = false
  exits : ∀ i, s.exits i = false
  hasher : s.hasher = .head
  hasherQueue : s.hasherQueue = []
  queues : ∀ i, s.queues i = []
  reports : s.reports = []
  threads : ∀ i, ∃ last state, s.threads i = ⟨.done (.outer true last), state⟩ ∧
    state.current = none ∧ (state.handle = none ∨ state.IsOpen)

/-- Before the first event all threads rest. -/
theorem Start.resting (start : s.Start setup) : Resting setup s where
  reached := .start start
  running := start.running
  hasherExit := start.hasherExit
  exits := start.exits
  hasher := start.hasher
  hasherQueue := start.hasherQueue
  queues := start.queues
  reports := start.reports
  threads := by
    intro i
    obtain ⟨plotting, final, writeBuffer, thread⟩ := start.threads i
    exact ⟨-1, _, thread, rfl, .inl rfl⟩

/-- Nothing is in flight in a resting state. -/
theorem Resting.empty (resting : Resting setup s) : s.inFlight setup = [] := by
  have nobody : (fun i => s.queues i ++ (s.threads i).inHand) = fun _ => [] := by
    funext i
    obtain ⟨last, state, thread, current, _⟩ := resting.threads i
    rw [resting.queues, thread, WriterThread.inHand, current]
    rfl
  unfold inFlight
  rw [resting.hasherQueue, resting.hasher, resting.reports, nobody]
  simp [shares, HasherPlace.task]

/-- A hash task queued for the hasher is of a file of its writer. -/
private theorem queued_file (valid : setup.Valid) (reached : setup.machine.Reachable s)
    {task : HasherTask} (queued : task ∈ s.hasherQueue) : task.writer < setup.plans.length ∧
      ∃ (index : Nat) (file : PlannedFile), (setup.plan task.writer)[index]? = some file ∧
        task.currentWriteTask = (index : Int) := by
  have known := (reachable_balanced valid reached).1.known task (by
    unfold inFlight
    exact List.mem_append_left _ (List.mem_append_left _ (List.mem_append_left _ queued)))
  have issued : task ∈ s.issued task.writer :=
    List.mem_append_right _ (List.mem_filter.mpr ⟨List.mem_append_right _ queued, by simp⟩)
  have sequence := ((reachable_ordered valid reached).issued task.writer known.writer).sequence
  obtain ⟨earlier, later, split⟩ := List.append_of_mem issued
  rw [split] at sequence
  obtain ⟨index, file, next⟩ := sequence.continues
  exact ⟨known.writer, index, file, next.found, next.current⟩

/-- A report is taken in at once. -/
private theorem takes_report (reached : setup.machine.Reachable s) (running : s.stopped = false)
    (place : s.dispatcher.place = .head) {task : HasherTask} (reported : s.reports = [task]) :
    ∃ d, setup.machine.Reachable { s with dispatcher := d, reports := [] } ∧
      d.writerTasks = s.dispatcher.writerTasks := by
  have polled : setup.machine.step s .poll =
      some { s with dispatcher := s.dispatcher.poll s.stopped } := if_pos place
  have received : setup.machine.step { s with dispatcher := s.dispatcher.poll s.stopped }
      (.receive false) = some { s with
        dispatcher := (s.dispatcher.poll s.stopped).receive setup (some task)
        reports := [] } := by
    refine (if_pos (by rw [running]; rfl)).trans ?_
    unfold receive
    simp only [reported]
    rfl
  exact ⟨_, .step (.step reached trivial polled) trivial received,
    (receive_side setup (s.dispatcher.poll s.stopped) (some task)).2⟩

/-- The state with a hash task delivered to its writer. -/
private def delivered (s : System) (d : Dispatcher) (devBuff : Memory) (memory : Nat → Memory)
    (task : HasherTask) : System :=
  { s with
    dispatcher := d
    hasherQueue := []
    hasher := .head
    devBuff := devBuff
    memory := memory
    queues := Function.update s.queues task.writer [task] }

/-- A hash task is dispatched and hashed. -/
private theorem Resting.delivers (valid : setup.Valid)
    (fits : setup.blockSize < BlockAllocator.addressSpace) (resting : Resting setup s)
    (few : setup.totalNonces - s.dispatcher.remaining setup < 2147483648)
    (work : 0 < s.dispatcher.remaining setup) :
    ∃ d devBuff memory task, setup.machine.Reachable (s.delivered d devBuff memory task) ∧
      d.place = .head ∧ d.remaining setup < s.dispatcher.remaining setup ∧
      task.writer < setup.plans.length ∧
      ∃ (index : Nat) (file : PlannedFile), (setup.plan task.writer)[index]? = some file ∧
        task.currentWriteTask = (index : Int) := by
  have idle : Idle setup s := ⟨resting.reached, resting.running, resting.empty, few, work⟩
  obtain ⟨task, d, dispatched, place, less⟩ := idle.canDispatch valid fits
  obtain ⟨writer, index, file, found, current⟩ :=
    queued_file valid dispatched (List.mem_singleton_self task)
  have proceeds : 0 ≤ task.currentWriteTask := by omega
  obtain ⟨devBuff, memory, hashed⟩ := hashes_task dispatched resting.running resting.hasherExit
    resting.hasher rfl proceeds
  simp only [resting.queues, List.nil_append] at hashed
  exact ⟨d, devBuff, memory, task, hashed, place, less, writer, index, file, found, current⟩

/-- A hash task is dispatched, hashed, written, and its report is taken in. -/
theorem Resting.round (valid : setup.Valid) (fits : setup.blockSize < BlockAllocator.addressSpace)
    (resting : Resting setup s)
    (few : setup.totalNonces - s.dispatcher.remaining setup < 2147483648)
    (work : 0 < s.dispatcher.remaining setup) :
    ∃ t, Resting setup t ∧ t.dispatcher.remaining setup < s.dispatcher.remaining setup := by
  obtain ⟨d, devBuff, memory, task, hashed, place, less, writer, index, file, found, current⟩ :=
    resting.delivers valid fits few work
  obtain ⟨last, state, thread, _, handle⟩ := resting.threads task.writer
  have here : ThreadAt setup (s.delivered d devBuff memory task) task.writer
      (.done (.outer true last)) state := by
    unfold ThreadAt withThread
    rw [← thread]
    simp only [delivered, Function.update_eq_self] at hashed ⊢
    exact hashed
  have running : (s.delivered d devBuff memory task).stopped = false := resting.running
  have exits : (s.delivered d devBuff memory task).exits task.writer = false := resting.exits _
  obtain ⟨next, final, written, empty, reopens⟩ :=
    here.task writer running exits (Function.update_self ..) found current handle
  obtain ⟨d', taken, same⟩ := takes_report written resting.running place
    (congrArg (· ++ [task]) resting.reports)
  refine ⟨_, ⟨taken, resting.running, resting.hasherExit, resting.exits, rfl, rfl, fun i => ?_, rfl,
    fun i => ?_⟩, ?_⟩
  · by_cases own : i = task.writer
    · subst own
      exact Function.update_self ..
    · refine (Function.update_of_ne own ..).trans ((Function.update_of_ne own ..).trans ?_)
      exact resting.queues i
  · by_cases own : i = task.writer
    · subst own
      exact ⟨next, final, Function.update_self .., empty, reopens⟩
    · obtain ⟨last, state, other, rest⟩ := resting.threads i
      exact ⟨last, state, (Function.update_of_ne own ..).trans other, rest⟩
  · unfold Dispatcher.remaining at less ⊢
    simp only [same]
    exact less

end System

end HyperPlotter.Pipeline

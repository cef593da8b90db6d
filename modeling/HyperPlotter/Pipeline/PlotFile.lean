import HyperPlotter.Pipeline.Hasher
import HyperPlotter.Pipeline.WriterProgress

/-!
# One file from first hash task to rename

The tasks of one file handed out one after the other, each hashed into a block
and written by the writer, which retries after failures. The finished file has
scoop `c` of all nonces next to each other, in nonce order.
-/

namespace HyperPlotter.Pipeline

open Foundation Poc Interaction

/-! ## Writing one task -/

/-- The environment while the writer works on `task` and no stop is requested. -/
def serve (task : HasherTask) (block : Memory) (outcome : Outcome) : Choice :=
  { outcome with stop := false, block := block, task := some task }

/-- Where the writer is: its place, its state, and the number of the next
outcome. -/
structure WriterPoint where
  control : WriterControl
  state : WriterState
  position : Nat

section Run

variable (plan : List PlannedFile) (outcomes : Nat → Outcome) (task : HasherTask) (block : Memory)

/-- One part of the writer's program. -/
def runPart (point : WriterPoint) : WriterPoint :=
  let run := exec WriterState.respond (fun i => serve task block (outcomes i))
    (writerBody false plan point.control) point.state point.position
  ⟨run.1, run.2.1, run.2.2⟩

/-- Attempts at a task until one succeeds, at most `fuel`. -/
def runAttempts : Nat → WriterPoint → WriterPoint
  | 0, point => point
  | fuel + 1, point =>
    match point.control with
    | .attempt .. => runAttempts fuel (runPart plan outcomes task block point)
    | _ => point

/-- The writer takes a task and works on it. -/
def writeTask (attempts : Nat) (point : WriterPoint) : WriterPoint :=
  runAttempts plan outcomes task block attempts (runPart plan outcomes task block point)

end Run

variable {plan : List PlannedFile} {outcomes : Nat → Outcome} {task : HasherTask} {block : Memory}

/-- The environment's answers are permitted while the task in hand is `task`. -/
private theorem serve_permitted {s : WriterState} (current : s.current = some (task, block))
    (outcome : Outcome) {request : WriterRequest} (quiet : request.Quiet) :
    Permitted plan False s request (serve task block outcome) := by
  cases request with
  | stopped poll => exact ⟨fun _ => rfl, fun _ _ => rfl⟩
  | pop => exact absurd rfl quiet.1
  | gather scoop nstart nsize =>
      rintro pair held
      rw [current] at held
      exact congrArg Prod.snd (Option.some.inj held)
  | rename file => exact nofun
  | _ => trivial

variable (outcomes) in
/-- A quiet program ends in its postcondition with the same task in hand. -/
private theorem exec_quiet {α : Type} {post : α → WriterState → Prop} {program : WriterProgram α}
    {s : WriterState} (verified : Verified plan False post program s)
    (quiet : program.Only WriterRequest.Quiet) (current : s.current = some (task, block)) (i : Nat) :
    let run := exec WriterState.respond (fun j => serve task block (outcomes j)) program s i
    post run.1 run.2.1 ∧ run.2.1.current = some (task, block) ∧ run.2.1.finished = s.finished := by
  have outcome := Always.exec (fun t => t.SameTasks s) (i := i) verified quiet ⟨rfl, rfl⟩
    (fun j _ t request quietly same =>
      (WriterState.respond_quiet quietly (serve task block (outcomes j)) t).trans same)
    fun j _ t request quietly same => serve_permitted (same.1.trans current) (outcomes j) quietly
  exact ⟨outcome.1, outcome.2.1.trans current, outcome.2.2⟩

variable (outcomes task block) in
/-- An attempt that fails met a failing file operation. -/
private theorem attempt_failure (index : Nat) (file : PlannedFile) {s : WriterState}
    (handle : s.handle = none ∨ s.IsOpen) (i : Nat)
    (failed : (exec WriterState.respond (fun i => serve task block (outcomes i))
      (attemptWrite index file task) s i).1 = false) :
    ∃ j, i ≤ j ∧ (outcomes j).ok = false := by
  by_contra never
  have always : ∀ j, i ≤ j → (outcomes j).ok = true := by
    intro j later
    cases okEq : (outcomes j).ok with
    | true => rfl
    | false => exact absurd ⟨j, later, okEq⟩ never
  have smooth : Smoothly (fun ok _ => ok = true) (attemptWrite index file task) s :=
    (attemptWrite_smooth handle).mono fun _ _ outcome => outcome.1
  have succeeded := smooth.exec (fun _ => True) (attemptWrite_quiet index file task) trivial
    (fun _ _ _ _ _ _ => trivial) fun j later _ _ _ _ =>
      (⟨always j later, rfl⟩ : Smooth _ _ (serve task block (outcomes j)))
  rw [failed] at succeeded
  cases succeeded.1

variable (outcomes) in
/-- An attempt ends with the task in its file, or with nothing lost; without a
failure it ends the first way. -/
private theorem runPart_attempt (valid : ∀ file ∈ plan, file.Valid) {index : Nat}
    {file : PlannedFile} {s : WriterState}
    (attempting : Attempting plan False index file task block s) (i : Nat) :
    let point := runPart plan outcomes task block ⟨.attempt task.currentWriteTask task, s, i⟩
    point.control = .outer true task.currentWriteTask ∧
      WriterPlace plan False point.control point.state ∧
      point.state.finished = s.finished ++ [(task, block)] ∨
    point.control = .attempt task.currentWriteTask task ∧
      Attempting plan False index file task block point.state ∧
      point.state.finished = s.finished ∧ i < point.position ∧
      ∃ j, i ≤ j ∧ (outcomes j).ok = false := by
  have current := attempting.next.current
  have indexEq : task.currentWriteTask.toNat = index := by omega
  have found := attempting.next.found
  have handle : s.handle = none ∨ s.IsOpen := by
    rcases attempting.handle with closed | ⟨opened, present⟩
    · exact .inl closed
    · exact .inr (WriterState.isOpen_of opened present)
  obtain ⟨outcome, inHand, kept⟩ := exec_quiet outcomes
    (attemptWrite_verified valid attempting) (attemptWrite_quiet index file task)
    attempting.current i
  have failure := attempt_failure outcomes task block index file handle i
  have position := exec_position WriterState.respond (fun i => serve task block (outcomes i))
    (attemptWrite index file task) s i
  unfold runPart
  simp only [writerBody, writerAttempt, indexEq, found]
  rw [exec_bind]
  generalize exec WriterState.respond (fun i => serve task block (outcomes i))
    (attemptWrite index file task) s i = run at outcome inHand kept failure position
  obtain ⟨ok, t, j⟩ := run
  cases ok with
  | true =>
      have reportable := outcome.1 rfl
      refine .inl ⟨rfl, ⟨reportable.disk, rfl, handleOf_attempt current reportable.handle⟩, ?_⟩
      show t.finished ++ t.current.toList = s.finished ++ [(task, block)]
      rw [inHand, kept]
      rfl
  | false =>
      exact .inr ⟨rfl, outcome.2 rfl, kept, Nat.lt_succ_of_le position, failure rfl⟩

variable (outcomes block) in
/-- The writer takes a task in hand. -/
private theorem runPart_outer {lastWriteTask : Int} {s : WriterState}
    (place : WriterPlace plan False (.outer true lastWriteTask) s) {index : Nat}
    {file : PlannedFile} (next : Continues plan s.reported task index file) (i : Nat) :
    let point := runPart plan outcomes task block ⟨.outer true lastWriteTask, s, i⟩
    point.control = .attempt task.currentWriteTask task ∧
      Attempting plan False index file task block point.state ∧
      point.state.finished = s.finished := by
  obtain ⟨disk, _, handle⟩ := place
  have inside : index < plan.length := (List.getElem?_eq_some_iff.mp next.found).1
  have current := next.current
  have known : ¬(task.currentWriteTask = -1 ∨ task.currentWriteTask ≥ plan.length) := by omega
  simp only [runPart, writerBody, writerOuter, if_pos, perform_bind, exec_ask,
    WriterState.respond, serve, Option.map_some, if_neg known, Bool.false_eq_true, if_false]
  by_cases same : lastWriteTask = task.currentWriteTask
  · rw [if_neg (not_not_intro same)]
    refine ⟨congrArg (WriterControl.attempt · task) same, ?_, rfl⟩
    refine ⟨disk.of_eq rfl rfl rfl rfl rfl, rfl, next, ?_⟩
    cases handleEq : s.handle with
    | none => exact .inl rfl
    | some i =>
        obtain ⟨here, present⟩ := handle i handleEq
        obtain rfl : i = index := by omega
        exact .inr ⟨rfl, present⟩
  · rw [if_pos same]
    exact ⟨rfl, ⟨disk.of_eq rfl rfl rfl rfl rfl, rfl, next, .inl rfl⟩, rfl⟩

/-- Attempts end with the task in its file once no operation fails any more. -/
private theorem runAttempts_done (valid : ∀ file ∈ plan, file.Valid) {settled : Nat}
    (smooth : ∀ j, settled ≤ j → (outcomes j).ok = true) {index : Nat} {file : PlannedFile}
    (fuel : Nat) : ∀ (s : WriterState) (i : Nat),
      Attempting plan False index file task block s → settled < i + fuel → 0 < fuel →
      let point := runAttempts plan outcomes task block fuel
        ⟨.attempt task.currentWriteTask task, s, i⟩
      point.control = .outer true task.currentWriteTask ∧
        WriterPlace plan False point.control point.state ∧
        point.state.finished = s.finished ++ [(task, block)] := by
  induction fuel with
  | zero => exact fun _ _ _ _ enough => absurd enough (Nat.lt_irrefl 0)
  | succ fuel ih =>
      intro s i attempting enough _
      rw [runAttempts]
      have ended := runPart_attempt outcomes valid attempting i
      generalize runPart plan outcomes task block ⟨.attempt task.currentWriteTask task, s, i⟩ =
        point at ended
      obtain ⟨control, t, position⟩ := point
      rcases ended with ⟨done, place, finished⟩ | ⟨again, still, finished, later, j, after, failed⟩
      · obtain rfl : control = .outer true task.currentWriteTask := done
        have stays : runAttempts plan outcomes task block fuel
            ⟨.outer true task.currentWriteTask, t, position⟩ =
              ⟨.outer true task.currentWriteTask, t, position⟩ := by
          cases fuel <;> rfl
        rw [stays]
        exact ⟨rfl, place, finished⟩
      · obtain rfl : control = .attempt task.currentWriteTask task := again
        have early : j < settled := by
          by_contra late
          rw [smooth j (Nat.not_lt.mp late)] at failed
          cases failed
        have moved : i < position := later
        obtain ⟨done, place, reported⟩ := ih t position still (by omega) (by omega)
        exact ⟨done, place, by rw [reported, show t.finished = s.finished from finished]⟩

/-- A writer at its outer loop gets the next task done. -/
theorem writeTask_done (block : Memory) (valid : ∀ file ∈ plan, file.Valid)
    {settled attempts : Nat} (smooth : ∀ j, settled ≤ j → (outcomes j).ok = true) (enough : settled < attempts)
    {lastWriteTask : Int} {s : WriterState}
    (place : WriterPlace plan False (.outer true lastWriteTask) s) {index : Nat}
    {file : PlannedFile} (next : Continues plan s.reported task index file) (i : Nat) :
    let point := writeTask plan outcomes task block attempts ⟨.outer true lastWriteTask, s, i⟩
    point.control = .outer true task.currentWriteTask ∧
      WriterPlace plan False point.control point.state ∧
      point.state.finished = s.finished ++ [(task, block)] := by
  have begun := runPart_outer outcomes block place next i
  unfold writeTask
  generalize runPart plan outcomes task block ⟨.outer true lastWriteTask, s, i⟩ = point at begun
  obtain ⟨control, t, position⟩ := point
  obtain ⟨taken, attempting, kept⟩ := begun
  obtain rfl : control = .attempt task.currentWriteTask task := taken
  have done := runAttempts_done valid smooth attempts t position attempting (by omega) (by omega)
  rwa [show t.finished = s.finished from kept] at done

/-! ## The whole file -/

/-- What a run of the pipeline for one file meets: the device, the files on disk
before, what buffers and blocks hold before they are filled, and how the file
operations end. -/
structure PlotRun where
  gpu : GpuPlotter
  plotting : Nat → Option FileEntry
  final : Nat → Option FileEntry
  writeBuffer : Memory
  devBuff : Memory
  prior : Nat → Memory
  outcomes : Nat → Outcome

/-- The writer's side of the dispatcher with the tasks it handed out, the device
buffer, and the writer. -/
structure PlotState where
  cur : Nat
  tasks : List WriterTask
  handed : List HasherTask
  devBuff : Memory
  point : WriterPoint

section Whole

variable (file : PlannedFile) (gws : Int) (run : PlotRun) (attempts : Nat)

/-- Before the first hash task. -/
def plotStart : PlotState where
  cur := 0
  tasks := [WriterTask.new file]
  handed := []
  devBuff := run.devBuff
  point := ⟨.outer true (-1),
    (WriterThread.start run.plotting run.final run.writeBuffer).state, 0⟩

/-- Hash tasks handed out one after the other; each is hashed into a block and
written. `round` numbers the blocks. -/
def plotLoop : Nat → Nat → PlotState → PlotState
  | 0, _, state => state
  | rounds + 1, round, state =>
    match nextHasherTask gws 0 0 state.cur state.tasks with
    | (none, cur, tasks) => { state with cur := cur, tasks := tasks }
    | (some task, cur, tasks) =>
      let hashed := hashTask run.gpu state.devBuff (run.prior round) task
      plotLoop rounds (round + 1)
        { cur := cur, tasks := tasks, handed := state.handed ++ [task], devBuff := hashed.1
          point := writeTask [file] run.outcomes task hashed.2 attempts state.point }

/-- The file plotted; every hash task takes at least one nonce. -/
def plotFile : PlotState :=
  plotLoop file gws run attempts (file.nonces.toNat + 1) 0 (plotStart file run)

end Whole

/-- What holds between two hash tasks. -/
structure PlotState.Growing (file : PlannedFile) (gws : Int) (run : PlotRun) (state : PlotState) :
    Prop where
  reported : state.point.state.reported = state.handed
  issued : Issued [file] state.handed state.cur state.tasks
  place : ∃ lastWriteTask, state.point.control = .outer true lastWriteTask ∧
    WriterPlace [file] False (.outer true lastWriteTask) state.point.state
  hashed : ∀ task block, (task, block) ∈ state.point.state.finished → task.pid = file.pid ∧
    task.nonces = min gws (file.nonces - task.offset file) ∧
    ∃ devBuff round, block = (hashTask run.gpu devBuff (run.prior round) task).2

section Whole

variable {file : PlannedFile} {gws : Int} {run : PlotRun} {attempts settled : Nat}

/-- An empty file grows. -/
theorem plotStart_growing (valid : file.Valid) : (plotStart file run).Growing file gws run where
  reported := rfl
  issued := Issued.initial (PlannedFile.typed (by simpa using valid))
  place := ⟨-1, rfl, WriterThread.start_sound (by simpa using valid) _ _ _⟩
  hashed := nofun

/-- One hash task, from `next_hasher_task` to its report. -/
private theorem PlotState.Growing.next (valid : file.Valid)
    (smooth : ∀ j, settled ≤ j → (run.outcomes j).ok = true) (enough : settled < attempts)
    {state : PlotState} (growing : state.Growing file gws run) {task : HasherTask} {cur : Nat}
    {tasks : List WriterTask} (answer : Issued.Answer [file] state.handed gws 0 0 (some task, cur, tasks))
    (round : Nat) :
    let hashed := hashTask run.gpu state.devBuff (run.prior round) task
    PlotState.Growing file gws run
      { cur := cur, tasks := tasks, handed := state.handed ++ [task], devBuff := hashed.1
        point := writeTask [file] run.outcomes task hashed.2 attempts state.point } := by
  have valid : ∀ other ∈ [file], other.Valid := by simpa using valid
  obtain ⟨_, _, index, other, next, size⟩ := answer.task task rfl
  obtain ⟨lastWriteTask, control, place⟩ := growing.place
  obtain ⟨rfl, rfl⟩ := only_file next.found
  have continues := next
  rw [← growing.reported] at continues
  generalize hashedEq : hashTask run.gpu state.devBuff (run.prior round) task = hashed
  obtain ⟨cur', tasks', handed, devBuff, ⟨control', s, i⟩⟩ := state
  obtain rfl : control' = .outer true lastWriteTask := control
  obtain ⟨done, placed, finished⟩ := writeTask_done hashed.2
    valid smooth enough place continues i
  constructor
  · show WriterState.reported _ = _
    rw [WriterState.reported, finished, List.map_append]
    exact congrArg (· ++ [task]) growing.reported
  · exact answer.state
  · rw [done] at placed
    exact ⟨_, done, placed⟩
  · intro task' block member
    rw [show (writeTask _ _ _ _ _ _).state.finished = _ from finished] at member
    rcases List.mem_append.mp member with old | new
    · exact growing.hashed task' block old
    · obtain ⟨rfl, rfl⟩ : task' = task ∧ block = hashed.2 := by simpa using new
      refine ⟨next.pid, ?_, devBuff, round, by rw [hashedEq]⟩
      rw [next.offset_eq valid growing.issued.sequence, size]

/-- The hash tasks of the whole file. -/
theorem plotLoop_growing (valid : file.Valid) (positive : 0 < gws)
    (smooth : ∀ j, settled ≤ j → (run.outcomes j).ok = true) (enough : settled < attempts)
    (rounds : Nat) : ∀ (round : Nat) (state : PlotState), state.Growing file gws run →
      file.nonces - issuedNonces 0 state.handed < rounds →
      let final := plotLoop file gws run attempts rounds round state
      final.Growing file gws run ∧ issuedNonces 0 final.handed = file.nonces := by
  have validPlan : ∀ other ∈ [file], other.Valid := by simpa using valid
  induction rounds with
  | zero =>
      intro round state growing few
      have upper := (growing.issued.sequence.issued_le (PlannedFile.typed validPlan) (i := 0) rfl).2
      omega
  | succ rounds ih =>
      intro round state growing few
      rw [plotLoop]
      have answer := growing.issued.nextHasherTask_answer (PlannedFile.typed validPlan) positive 0 0
      generalize nextHasherTask gws 0 0 state.cur state.tasks = answered at answer
      obtain ⟨handed, cur, tasks⟩ := answered
      cases handed with
      | none =>
          have issued := answer.state
          rw [Option.toList_none, List.append_nil] at issued
          exact ⟨⟨growing.reported, issued, growing.place, growing.hashed⟩,
            answer.exhausted rfl 0 file rfl⟩
      | some task =>
          refine ih (round + 1) _ (growing.next valid smooth enough answer round) ?_
          obtain ⟨_, _, index, other, next, _⟩ := answer.task task rfl
          have found := next.found
          have current := next.current
          have some_nonces := next.positive
          cases index with
          | succ index => simp at found
          | zero =>
              simp only [issuedNonces_append, issuedNonces_singleton]
              rw [if_pos current]
              omega

end Whole

end HyperPlotter.Pipeline

import HyperPlotter.Pipeline.WriterRules

/-!
# The writer thread as a loop

A thread is the program left to run and its state. `WriterPlace` is what holds
at the two loop heads of `run`; every part of the program leads from there to
the next loop head with it.
-/

namespace HyperPlotter.Pipeline

open Foundation Poc Interaction

/-- The program a writer thread has left, and its state. -/
structure WriterThread where
  program : WriterProgram WriterControl
  state : WriterState

/-- A part of the program is done: the next part begins. -/
def WriterThread.turn (bench : Bool) (plan : List PlannedFile) (thread : WriterThread)
    (control : WriterControl) : WriterThread :=
  { thread with program := writerBody bench plan control }

/-- A request is answered. -/
def WriterThread.answer (thread : WriterThread) (request : WriterRequest)
    (next : request.Reply → WriterProgram WriterControl) (choice : Choice) : WriterThread :=
  let answer := thread.state.respond choice request
  ⟨next answer.1, answer.2⟩

/-- A handle is only open on the file of the last task. -/
def HandleOf (lastWriteTask : Int) (s : WriterState) : Prop :=
  ∀ i, s.handle = some i → (i : Int) = lastWriteTask ∧ (s.plotting i).isSome

/-- What holds between two parts of the program. -/
def WriterPlace (plan : List PlannedFile) (strict : Prop) :
    WriterControl → WriterState → Prop
  | .outer true lastWriteTask, s =>
    Disk plan strict s ∧ s.current = none ∧ HandleOf lastWriteTask s
  | .outer false _, _ => ¬strict
  | .attempt lastWriteTask task, s => lastWriteTask = task.currentWriteTask ∧
    ∃ index file block, Attempting plan strict index file task block s
  | .exited, s => strict → Disk plan strict s

variable {plan : List PlannedFile} {strict : Prop}

/-- An attempt keeps the handle on its own file. -/
theorem handleOf_attempt {index : Nat} {task : HasherTask} {s : WriterState}
    (current : task.currentWriteTask = (index : Int))
    (handle : s.handle = none ∨ s.handle = some index ∧ (s.plotting index).isSome) :
    HandleOf task.currentWriteTask s := by
  intro i opened
  rcases handle with closed | ⟨here, present⟩
  · rw [closed] at opened
    cases opened
  · obtain rfl : index = i := Option.some.inj (here.symm.trans opened)
    exact ⟨current.symm, present⟩

/-- Leaving `run` closes the file and changes nothing on disk. -/
private theorem leaveWriter_verified {s : WriterState} (guarded : Guarded plan strict s .closeFile)
    (disk : strict → Disk plan strict s) :
    Verified plan strict (WriterPlace plan strict) leaveWriter s :=
  always_perform.mpr ⟨guarded, fun _ _ isStrict => (disk isStrict).of_eq rfl rfl rfl rfl rfl⟩

/-- The head of the outer loop: the next task in series is taken in hand. -/
theorem writerOuter_verified (valid : ∀ file ∈ plan, file.Valid) {lastWriteTask : Int}
    {s : WriterState} (place : WriterPlace plan strict (.outer true lastWriteTask) s) :
    Verified plan strict (WriterPlace plan strict) (writerOuter false plan true lastWriteTask) s := by
  obtain ⟨disk, empty, handle⟩ := place
  unfold writerOuter
  rw [if_pos rfl]
  refine Verified.poll (fun _ => disk.safe valid) fun stop _ _ => ?_
  cases stop with
  | true => exact leaveWriter_verified (disk.guarded valid nofun nofun) fun _ => disk
  | false =>
      rw [if_neg Bool.false_ne_true]
      refine always_perform.mpr ⟨disk.guarded valid nofun fun _ => empty, fun choice inSeries => ?_⟩
      have popped : s.respond choice .pop = (choice.task,
          { s with current := choice.task.map fun task => (task, choice.block) }) := rfl
      rw [popped]
      cases taskEq : choice.task with
      | none => exact ⟨disk.of_eq rfl rfl rfl rfl rfl, rfl, handle⟩
      | some task =>
          have series : Sequence plan (s.reported ++ [task]) := inSeries task taskEq
          obtain ⟨_, index, file, next⟩ := series.continues_last
          have inside : index < plan.length := (List.getElem?_eq_some_iff.mp next.found).1
          have current := next.current
          simp only []
          rw [if_neg (by omega), if_neg Bool.false_ne_true]
          have diskPopped : Disk plan strict
              { s with current := some (task, choice.block) } := disk.of_eq rfl rfl rfl rfl rfl
          by_cases same : lastWriteTask = task.currentWriteTask
          · rw [if_neg (not_not_intro same)]
            refine ⟨same, index, file, choice.block, diskPopped, rfl, next, ?_⟩
            cases handleEq : s.handle with
            | none => exact .inl rfl
            | some i =>
                obtain ⟨here, present⟩ := handle i handleEq
                obtain rfl : i = index := by omega
                exact .inr ⟨rfl, present⟩
          · rw [if_pos same]
            refine always_perform.mpr ⟨diskPopped.guarded valid nofun nofun, fun _ _ => ?_⟩
            exact ⟨rfl, index, file, choice.block, diskPopped.of_eq rfl rfl rfl rfl rfl, rfl,
              next, .inl rfl⟩

/-- One attempt with what follows it. -/
theorem writerAttempt_verified (valid : ∀ file ∈ plan, file.Valid) {lastWriteTask : Int}
    {task : HasherTask} {s : WriterState}
    (place : WriterPlace plan strict (.attempt lastWriteTask task) s) :
    Verified plan strict (WriterPlace plan strict) (writerAttempt plan lastWriteTask task) s := by
  obtain ⟨rfl, index, file, block, attempting⟩ := place
  have current := attempting.next.current
  have indexEq : task.currentWriteTask.toNat = index := by omega
  unfold writerAttempt
  rw [indexEq, attempting.next.found]
  refine (attemptWrite_verified valid attempting).bind fun ok s outcome => ?_
  cases ok with
  | true =>
      have reportable := outcome.1 rfl
      rw [if_pos rfl]
      refine always_perform.mpr ⟨⟨fun _ => reportable.safe, nofun, nofun⟩, fun _ _ => ?_⟩
      exact ⟨reportable.disk, rfl, handleOf_attempt current reportable.handle⟩
  | false =>
      have failed := outcome.2 rfl
      rw [if_neg Bool.false_ne_true]
      refine Verified.poll (fun _ => failed.disk.safe valid) fun stop _ noStop => ?_
      cases stop with
      | true =>
          have lax : ¬strict := fun isStrict => Bool.noConfusion (noStop rfl isStrict)
          rw [if_pos rfl]
          exact always_perform.mpr ⟨failed.disk.guarded valid nofun nofun, fun _ _ => lax⟩
      | false => exact ⟨rfl, index, file, block, failed⟩

/-- Every part of the program leads from one loop head to the next. -/
theorem writerBody_verified (valid : ∀ file ∈ plan, file.Valid) {control : WriterControl}
    {s : WriterState} (place : WriterPlace plan strict control s) :
    Verified plan strict (WriterPlace plan strict) (writerBody false plan control) s := by
  match control with
  | .outer true lastWriteTask => exact writerOuter_verified valid place
  | .outer false lastWriteTask =>
      exact leaveWriter_verified ⟨fun isStrict => absurd isStrict place, nofun, nofun⟩
        fun isStrict => absurd isStrict place
  | .attempt lastWriteTask task => exact writerAttempt_verified valid place
  | .exited => exact place

/-- The invariant of a writer thread at any moment. -/
def WriterThread.Sound (plan : List PlannedFile) (strict : Prop) (thread : WriterThread) : Prop :=
  Verified plan strict (WriterPlace plan strict) thread.program thread.state

/-- A thread stays sound from one part of its program to the next. -/
theorem WriterThread.Sound.turn (valid : ∀ file ∈ plan, file.Valid) {thread : WriterThread}
    (sound : thread.Sound plan strict) {control : WriterControl}
    (done : thread.program = .done control) : (thread.turn false plan control).Sound plan strict := by
  unfold Sound at sound
  rw [done] at sound
  exact writerBody_verified valid sound

/-- A thread stays sound under a permitted answer. -/
theorem WriterThread.Sound.answer {thread : WriterThread} (sound : thread.Sound plan strict)
    {request : WriterRequest} {next : request.Reply → WriterProgram WriterControl}
    (asks : thread.program = .ask request next) {choice : Choice}
    (permitted : Permitted plan strict thread.state request choice) :
    (thread.answer request next choice).Sound plan strict := by
  unfold Sound at sound
  rw [asks] at sound
  exact sound.2 choice permitted

/-- What holds before a request of a sound thread. -/
theorem WriterThread.Sound.guarded {thread : WriterThread} (sound : thread.Sound plan strict)
    {request : WriterRequest} {next : request.Reply → WriterProgram WriterControl}
    (asks : thread.program = .ask request next) : Guarded plan strict thread.state request := by
  unfold Sound at sound
  rw [asks] at sound
  exact sound.1

/-- With `strict` everything a sound thread has reported is safe at any moment. -/
theorem WriterThread.Sound.safe (valid : ∀ file ∈ plan, file.Valid) {thread : WriterThread}
    (sound : thread.Sound plan strict) (isStrict : strict) : Safe plan strict thread.state := by
  unfold Sound at sound
  cases running : thread.program with
  | ask request next =>
      rw [running] at sound
      exact sound.1.safe isStrict
  | done control =>
      rw [running] at sound
      match control, sound with
      | .outer true _, place => exact place.1.safe valid
      | .outer false _, lax => exact absurd isStrict lax
      | .attempt _ _, ⟨_, _, _, _, attempting⟩ => exact attempting.disk.safe valid
      | .exited, disk => exact (disk isStrict).safe valid

/-- A writer thread before its first poll, with any files in its directory. -/
def WriterThread.start (plotting final : Nat → Option FileEntry) (writeBuffer : Memory) :
    WriterThread where
  program := .done (.outer true (-1))
  state :=
    { plotting := plotting, final := final, handle := none, position := 0
      writeBuffer := writeBuffer, submitted := fun _ => 0, current := none, finished := []
      history := [] }

/-- A writer thread starts sound. -/
theorem WriterThread.start_sound (valid : ∀ file ∈ plan, file.Valid)
    (plotting final : Nat → Option FileEntry) (writeBuffer : Memory) :
    (WriterThread.start plotting final writeBuffer).Sound plan strict := by
  refine ⟨⟨.nil, nofun, ?_, fun _ _ _ => rfl, nofun, .nil⟩, rfl, nofun⟩
  intro i file found complete
  have nonempty := (valid file (List.mem_of_getElem? found)).nonempty
  rw [← complete] at nonempty
  exact absurd nonempty (Int.lt_irrefl 0)

end HyperPlotter.Pipeline

import HyperPlotter.Pipeline.Bookkeeping

/-!
# What a writer submits

In every run, with failures and stops: a writer submits the nonces of a hash task
at most once, and the file it has open is one of a task it has popped.
-/

namespace HyperPlotter.Pipeline

open Foundation Poc Interaction

/-- The hash tasks a writer has taken off its queue. -/
def WriterState.popped (s : WriterState) : List HasherTask :=
  s.reported ++ (s.current.map Prod.fst).toList

/-- Of no file more than the nonces of the given tasks is submitted. -/
def Tallied (tasks : List HasherTask) (s : WriterState) : Prop :=
  ∀ k, -9223372036854775808 ≤ s.submitted k ∧ s.submitted k ≤ issuedNonces k tasks

/-- The open file is one of a task the writer has popped. -/
def OpensOwn (s : WriterState) : Prop :=
  ∀ k, s.handle = some k → ∃ task ∈ s.popped, task.currentWriteTask = (k : Int)

/-- A task in hand whose nonces are not submitted yet. -/
structure Holding (task : HasherTask) (s : WriterState) : Prop where
  current : ∃ data, s.current = some (task, data)
  positive : 0 < task.nonces
  tallied : Tallied s.reported s
  opens : OpensOwn s

/-- A task in hand whose nonces may be submitted. -/
structure Submitted (task : HasherTask) (s : WriterState) : Prop where
  current : ∃ data, s.current = some (task, data)
  tallied : Tallied s.popped s
  opens : OpensOwn s

/-- What holds at a writer's requests. -/
structure TallyCheck (plan : List PlannedFile) (s : WriterState) (request : WriterRequest) :
    Prop where
  opens : OpensOwn s
  submits : ∀ k nonces initNonces, request = .submit k nonces initNonces →
    ∃ task file, Holding task s ∧ task.currentWriteTask = (k : Int) ∧ task.nonces = nonces ∧
      plan[k]? = some file ∧ file.nonces = initNonces

/-- The queue hands out hash tasks with nonces. -/
def Offered (_ : WriterState) (request : WriterRequest) (choice : Choice) : Prop :=
  request = .pop → ∀ task, choice.task = some task → 0 ≤ task.currentWriteTask ∧ 0 < task.nonces

/-- What holds between two parts of the program. -/
def TallyPlace : WriterControl → WriterState → Prop
  | .outer _ _, s => s.current = none ∧ Tallied s.reported s ∧ OpensOwn s
  | .attempt _ task, s => 0 ≤ task.currentWriteTask ∧ Holding task s
  | .exited, s => OpensOwn s

/-- `Always` with these checks, whatever the files and the flag do. -/
abbrev Tallying {α : Type} (plan : List PlannedFile) (post : α → WriterState → Prop)
    (program : WriterProgram α) (s : WriterState) : Prop :=
  Always WriterState.respond Offered (TallyCheck plan) post program s

variable {plan : List PlannedFile} {task : HasherTask} {s t : WriterState}

/-- The same tasks are popped. -/
theorem WriterState.SameTasks.popped (same : s.SameTasks t) : s.popped = t.popped := by
  unfold WriterState.popped WriterState.reported
  rw [same.1, same.2]

/-- A pop with empty hands. -/
theorem WriterState.popped_pop (empty : s.current = none) (choice : Choice) :
    (s.respond choice .pop).2.popped = s.popped ++ choice.task.toList := by
  show s.reported ++
    ((choice.task.map fun task => (task, choice.block)).map Prod.fst).toList = _
  unfold WriterState.popped
  rw [empty, Option.map_map, Option.map_none, Option.toList_none, List.append_nil]
  cases choice.task <;> rfl

/-- A report turns the popped tasks into reported ones. -/
theorem WriterState.reported_report (choice : Choice) :
    (s.respond choice .report).2.reported = s.popped := by
  show (s.finished ++ s.current.toList).map Prod.fst = _
  rw [List.map_append]
  unfold WriterState.popped
  cases s.current <;> rfl

/-- A request other than a submission needs no more than its own file open. -/
theorem TallyCheck.of_opens {request : WriterRequest} (opens : OpensOwn s)
    (other : ∀ k nonces initNonces, request ≠ .submit k nonces initNonces) :
    TallyCheck plan s request :=
  ⟨opens, fun k nonces initNonces same => absurd same (other k nonces initNonces)⟩

/-- More tasks allow more submissions. -/
theorem Tallied.append {tasks : List HasherTask} (tallied : Tallied tasks s)
    (positive : 0 < task.nonces) : Tallied (tasks ++ [task]) s := by
  intro k
  obtain ⟨lower, upper⟩ := tallied k
  rw [issuedNonces_append, issuedNonces_singleton]
  split <;> omega

/-- A task in hand is the last one popped. -/
theorem Holding.popped (holding : Holding task s) : s.popped = s.reported ++ [task] := by
  obtain ⟨data, current⟩ := holding.current
  unfold WriterState.popped
  rw [current]
  rfl

/-- A task in hand may be submitted. -/
theorem Holding.submitted (holding : Holding task s) : Submitted task s where
  current := holding.current
  tallied := by
    rw [holding.popped]
    exact holding.tallied.append holding.positive
  opens := holding.opens

/-- The open file stays, is closed, or is the task's. -/
theorem OpensOwn.of_same (opens : OpensOwn s) (same : t.SameTasks s)
    (handle : t.handle = s.handle ∨ t.handle = none ∨
      ∃ k, t.handle = some k ∧ ∃ task ∈ s.popped, task.currentWriteTask = (k : Int)) :
    OpensOwn t := by
  intro k opened
  rw [same.popped]
  rcases handle with kept | closed | ⟨i, own, task, member, current⟩
  · exact opens k (kept ▸ opened)
  · rw [closed] at opened
    cases opened
  · obtain rfl : i = k := Option.some.inj (own.symm.trans opened)
    exact ⟨task, member, current⟩

/-- Nothing is submitted, and no other file than `index` is opened. -/
def Leaves (index : Nat) (s t : WriterState) : Prop :=
  t.submitted = s.submitted ∧ (t.handle = s.handle ∨ t.handle = none ∨ t.handle = some index)

/-- A request that concerns one file and is no submission. -/
theorem respond_leaves {index : Nat} {file : PlannedFile} {request : WriterRequest}
    (ofFile : request.OfFile index file)
    (quiet : ∀ k nonces initNonces, request ≠ .submit k nonces initNonces) (choice : Choice)
    (s : WriterState) : Leaves index s (s.respond choice request).2 := by
  cases request with
  | pop => exact absurd ofFile id
  | report => exact absurd ofFile id
  | submit k nonces initNonces => exact absurd rfl (quiet k nonces initNonces)
  | openFile k create =>
      obtain rfl : k = index := ofFile
      show Leaves k s (s.openFile choice.toOutcome k create).2
      unfold WriterState.openFile
      split
      · exact ⟨rfl, .inl rfl⟩
      · split
        · exact ⟨rfl, .inl rfl⟩
        · split
          · exact ⟨rfl, .inr (.inr rfl)⟩
          · split
            · exact ⟨rfl, .inr (.inr rfl)⟩
            · exact ⟨rfl, .inl rfl⟩
  | allocate bytes =>
      show Leaves index s (s.allocate choice.toOutcome bytes).2
      unfold WriterState.allocate
      split
      · exact ⟨rfl, .inl rfl⟩
      · split
        · exact ⟨rfl, .inl rfl⟩
        · split <;> exact ⟨rfl, .inl rfl⟩
  | seek offset =>
      show Leaves index s (s.seek choice.toOutcome offset).2
      unfold WriterState.seek
      split <;> exact ⟨rfl, .inl rfl⟩
  | write bytes =>
      show Leaves index s (s.write choice.toOutcome bytes).2
      unfold WriterState.write
      split <;> exact ⟨rfl, .inl rfl⟩
  | rename k =>
      show Leaves index s (s.rename choice.toOutcome k).2
      unfold WriterState.rename
      split
      · split <;> exact ⟨rfl, .inl rfl⟩
      · exact ⟨rfl, .inl rfl⟩
  | closeFile => exact ⟨rfl, .inr (.inl rfl)⟩
  | _ => exact ⟨rfl, .inl rfl⟩

/-- The task in hand accounts for the open file. -/
private theorem OpensOwn.respond {index : Nat} {file : PlannedFile} {request : WriterRequest}
    (opens : OpensOwn s) (inHand : ∃ data, s.current = some (task, data))
    (current : task.currentWriteTask = (index : Int)) (ofFile : request.OfFile index file)
    (quiet : ∀ k nonces initNonces, request ≠ .submit k nonces initNonces) (choice : Choice) :
    OpensOwn (s.respond choice request).2 := by
  have same := WriterState.respond_quiet ofFile.quiet choice s
  have handle := (respond_leaves ofFile quiet choice s).2
  refine opens.of_same same (handle.imp_right (.imp_right fun own => ⟨index, own, task, ?_, current⟩))
  obtain ⟨data, held⟩ := inHand
  unfold WriterState.popped
  rw [held]
  exact List.mem_append_right _ (List.mem_singleton_self _)

/-- A task in hand stays there until it is submitted. -/
private theorem Holding.respond {index : Nat} {file : PlannedFile} {request : WriterRequest}
    (holding : Holding task s) (current : task.currentWriteTask = (index : Int))
    (ofFile : request.OfFile index file)
    (quiet : ∀ k nonces initNonces, request ≠ .submit k nonces initNonces) (choice : Choice) :
    Holding task (s.respond choice request).2 := by
  have same := WriterState.respond_quiet ofFile.quiet choice s
  refine ⟨?_, holding.positive, fun k => ?_,
    holding.opens.respond holding.current current ofFile quiet choice⟩
  · rw [same.1]
    exact holding.current
  · rw [(respond_leaves ofFile quiet choice s).1, WriterState.reported, same.2]
    exact holding.tallied k

/-- So does a submitted task. -/
private theorem Submitted.respond {index : Nat} {file : PlannedFile} {request : WriterRequest}
    (submitted : Submitted task s) (current : task.currentWriteTask = (index : Int))
    (ofFile : request.OfFile index file)
    (quiet : ∀ k nonces initNonces, request ≠ .submit k nonces initNonces) (choice : Choice) :
    Submitted task (s.respond choice request).2 := by
  have same := WriterState.respond_quiet ofFile.quiet choice s
  refine ⟨?_, fun k => ?_, submitted.opens.respond submitted.current current ofFile quiet choice⟩
  · rw [same.1]
    exact submitted.current
  · rw [(respond_leaves ofFile quiet choice s).1, same.popped]
    exact submitted.tallied k

/-- A part of an attempt before its submission. -/
private theorem Holding.keeps {α : Type} {index : Nat} {file : PlannedFile}
    {program : WriterProgram α} (only : program.Only (WriterRequest.Writes index file))
    (current : task.currentWriteTask = (index : Int)) (holding : Holding task s) :
    Tallying plan (fun _ => Holding task) program s := by
  have quiet : ∀ request : WriterRequest, request.Writes index file →
      ∀ k nonces initNonces, request ≠ .submit k nonces initNonces := by
    rintro request writes k nonces initNonces rfl
    exact writes
  exact only.keeps (Holding task) holding
    (fun choice _ request writes _ kept =>
      kept.respond current writes.ofFile (quiet request writes) choice)
    fun _ request writes kept => .of_opens kept.opens (quiet request writes)

/-- A submission adds the task's nonces, or less when the counter wraps. -/
private theorem Holding.submit (holding : Holding task s) {k : Nat}
    (current : task.currentWriteTask = (k : Int)) (initNonces : Int) :
    Submitted task (s.submit k task.nonces initNonces).2 where
  current := holding.current
  tallied := by
    intro i
    have popped : (s.submit k task.nonces initNonces).2.popped = s.reported ++ [task] :=
      holding.popped
    obtain ⟨lower, upper⟩ := holding.tallied i
    have positive := holding.positive
    rw [popped, issuedNonces_append, issuedNonces_singleton]
    show _ ≤ Function.update s.submitted k (toInt64 (s.submitted k + task.nonces)) i ∧
      Function.update s.submitted k (toInt64 (s.submitted k + task.nonces)) i ≤ _
    by_cases same : i = k
    · subst same
      rw [Function.update_self, if_pos current]
      unfold toInt64
      omega
    · rw [Function.update_of_ne same, if_neg (by omega)]
      omega
  opens := holding.opens

/-- An attempt submits at most once, and only a successful one submits. -/
theorem attemptWrite_tallied {index : Nat} {file : PlannedFile} (found : plan[index]? = some file)
    (current : task.currentWriteTask = (index : Int)) (holding : Holding task s) :
    Tallying plan (fun ok s => Submitted task s ∧ (ok = false → Holding task s))
      (attemptWrite index file task) s := by
  refine (holding.keeps (openPlotting_writes index file) current).bind fun _ s holding => ?_
  refine (holding.keeps (scoopLoop_writes index file task scoopsPerPlot 0) current).bind
    fun written s holding => ?_
  have close : WriterRequest.closeFile.OfFile index file := trivial
  have move : (WriterRequest.rename index).OfFile index file := rfl
  have closing : ∀ k nonces initNonces,
      WriterRequest.closeFile ≠ .submit k nonces initNonces := by rintro _ _ _ ⟨⟩
  have moving : ∀ k nonces initNonces,
      WriterRequest.rename index ≠ .submit k nonces initNonces := by rintro _ _ _ ⟨⟩
  cases written with
  | false =>
      refine always_perform.mpr ⟨.of_opens holding.opens closing, fun choice _ => ?_⟩
      have closed : Holding task (s.respond choice .closeFile).2 :=
        holding.respond current close closing choice
      exact ⟨closed.submitted, fun _ => closed⟩
  | true =>
      refine always_perform.mpr ⟨⟨holding.opens, ?_⟩, fun choice _ => ?_⟩
      · rintro _ _ _ ⟨⟩
        exact ⟨task, file, holding, current, rfl, found, rfl⟩
      · have submitted := holding.submit current file.nonces
        have answered : s.respond choice (.submit index task.nonces file.nonces) =
          s.submit index task.nonces file.nonces := rfl
        rw [answered]
        generalize s.submit index task.nonces file.nonces = reply at submitted
        obtain ⟨complete, s⟩ := reply
        cases complete with
        | false => exact ⟨submitted, nofun⟩
        | true =>
            refine always_perform.mpr ⟨.of_opens submitted.opens closing, fun first _ => ?_⟩
            have closed : Submitted task (s.respond first .closeFile).2 :=
              submitted.respond current close closing first
            refine always_perform.mpr ⟨.of_opens closed.opens moving, fun second _ => ?_⟩
            exact ⟨closed.respond current move moving second, nofun⟩

/-! ## The thread -/

/-- A report takes the task out of the writer's hands. -/
private theorem Submitted.report (submitted : Submitted task s) (choice : Choice) (success : Bool)
    (lastWriteTask : Int) :
    TallyPlace (.outer success lastWriteTask) (s.respond choice .report).2 := by
  have reported := s.reported_report choice
  refine ⟨rfl, fun k => ?_, fun k opened => ?_⟩
  · rw [reported]
    exact submitted.tallied k
  · obtain ⟨task, member, current⟩ := submitted.opens k opened
    rw [← reported] at member
    exact ⟨task, List.mem_append_left _ member, current⟩

/-- Leaving closes the file. -/
private theorem leaveWriter_tallied (opens : OpensOwn s) :
    Tallying plan TallyPlace leaveWriter s :=
  always_perform.mpr ⟨.of_opens opens (by rintro _ _ _ ⟨⟩), fun _ _ => by rintro _ ⟨⟩⟩

private theorem writerOuter_tallied (bench success : Bool) (lastWriteTask : Int)
    (place : TallyPlace (.outer success lastWriteTask) s) :
    Tallying plan TallyPlace (writerOuter bench plan success lastWriteTask) s := by
  obtain ⟨empty, tallied, opens⟩ := place
  unfold writerOuter
  cases success with
  | false => exact leaveWriter_tallied opens
  | true =>
      refine always_perform.mpr ⟨.of_opens opens (by rintro _ _ _ ⟨⟩), fun choice _ => ?_⟩
      have polled : s.respond choice (.stopped .outer) = (choice.stop, s) := rfl
      rw [polled]
      cases choice.stop with
      | true => exact leaveWriter_tallied opens
      | false =>
          refine always_perform.mpr ⟨.of_opens opens (by rintro _ _ _ ⟨⟩), fun popping offered => ?_⟩
          have popped : s.respond popping .pop = (popping.task,
              { s with current := popping.task.map fun task => (task, popping.block) }) := rfl
          rw [popped]
          have reported : OpensOwn { s with
              current := popping.task.map fun task => (task, popping.block) } := by
            intro k opened
            obtain ⟨task, member, current⟩ := opens k opened
            unfold WriterState.popped at member
            rw [empty] at member
            exact ⟨task, List.mem_append_left _ (by simpa using member), current⟩
          cases handed : popping.task with
          | none =>
              rw [handed] at reported
              exact ⟨rfl, tallied, reported⟩
          | some task =>
              obtain ⟨index, positive⟩ := offered rfl task handed
              rw [handed] at reported
              have holding : Holding task { s with current := some (task, popping.block) } :=
                ⟨⟨popping.block, rfl⟩, positive, tallied, reported⟩
              simp only []
              split
              · exact leaveWriter_tallied holding.opens
              · split
                · exact always_perform.mpr ⟨.of_opens holding.opens (by rintro _ _ _ ⟨⟩),
                    fun reporting _ => holding.submitted.report reporting true lastWriteTask⟩
                · split
                  · refine always_perform.mpr ⟨.of_opens holding.opens (by rintro _ _ _ ⟨⟩),
                      fun closing _ => ⟨index, ⟨popping.block, rfl⟩, positive, tallied, ?_⟩⟩
                    rintro _ ⟨⟩
                  · exact ⟨index, holding⟩

private theorem writerAttempt_tallied (lastWriteTask : Int)
    (place : TallyPlace (.attempt lastWriteTask task) s) :
    Tallying plan TallyPlace (writerAttempt plan lastWriteTask task) s := by
  obtain ⟨lower, holding⟩ := place
  unfold writerAttempt
  split
  · exact holding.opens
  · rename_i file found
    have current : task.currentWriteTask = (task.currentWriteTask.toNat : Int) :=
      (Int.toNat_of_nonneg lower).symm
    refine (attemptWrite_tallied found current holding).bind fun ok s written => ?_
    obtain ⟨submitted, failed⟩ := written
    cases ok with
    | true =>
        exact always_perform.mpr ⟨.of_opens submitted.opens (by rintro _ _ _ ⟨⟩),
          fun reporting _ => submitted.report reporting true lastWriteTask⟩
    | false =>
        refine always_perform.mpr ⟨.of_opens submitted.opens (by rintro _ _ _ ⟨⟩),
          fun choice _ => ?_⟩
        have polled : s.respond choice (.stopped .retry) = (choice.stop, s) := rfl
        rw [polled]
        cases choice.stop with
        | true =>
            exact always_perform.mpr ⟨.of_opens submitted.opens (by rintro _ _ _ ⟨⟩),
              fun reporting _ => submitted.report reporting false lastWriteTask⟩
        | false => exact ⟨lower, failed rfl⟩

/-- Every part of the writer's program keeps the tally. -/
theorem writerBody_tallied (bench : Bool) {control : WriterControl} (place : TallyPlace control s) :
    Tallying plan TallyPlace (writerBody bench plan control) s := by
  cases control with
  | outer success lastWriteTask => exact writerOuter_tallied bench success lastWriteTask place
  | attempt lastWriteTask task => exact writerAttempt_tallied lastWriteTask place
  | exited => exact place

/-- The writers keep the tally. -/
def System.WritersTally (setup : PlotterSetup) (s : System) : Prop :=
  ∀ i, Tallying (setup.plan i) TallyPlace (s.threads i).program (s.threads i).state

/-- A writer is handed a task in flight. -/
theorem System.choice_inFlight {setup : PlotterSetup} {s : System} {i : Nat}
    (inside : i < setup.plans.length) {outcome : Outcome} {task : HasherTask}
    (handed : (s.choice i outcome).task = some task) : task ∈ s.inFlight setup := by
  have queued : task ∈ s.queues i := by
    unfold choice at handed
    simp only [] at handed
    split at handed
    · cases handed
    · exact List.mem_of_head? handed
  have shared : task ∈ shares setup.plans.length fun j => s.queues j ++ (s.threads j).inHand :=
    mem_shares.mpr ⟨i, inside, List.mem_append_left _ queued⟩
  unfold inFlight
  exact List.mem_append_left _ (List.mem_append_right _ shared)

/-- What holds of a thread at its start, and is kept from part to part and by the
answers it can get, holds of every writer in every run. -/
theorem System.reachable_threads {setup : PlotterSetup} (valid : setup.Valid)
    (Holds : Nat → WriterThread → Prop)
    (start : ∀ i plotting final writeBuffer, Holds i (.start plotting final writeBuffer))
    (turn : ∀ i (thread : WriterThread) control, thread.program = .done control → Holds i thread →
      Holds i (thread.turn (setup.bench.testBit 0) (setup.plan i) control))
    (answer : ∀ i (thread : WriterThread) request next choice,
      thread.program = .ask request next → Offered thread.state request choice → Holds i thread →
      Holds i (thread.answer request next choice))
    {s : System} (run : setup.machine.Reachable s) (i : Nat) : Holds i (s.threads i) := by
  refine Machine.Reaches.invariant (fun s : System => ∀ i, Holds i (s.threads i))
    (fun {s} starts i => ?_) (fun {s event t} reached holds _ taken i => ?_) run i
  · obtain ⟨plotting, final, writeBuffer, thread⟩ := System.Start.threads starts i
    rw [thread]
    exact start i plotting final writeBuffer
  · cases System.step_thread taken i with
    | away _ same =>
        rw [same]
        exact holds i
    | turn _ done turned =>
        rw [turned]
        exact turn i _ _ done (holds i)
    | @answer outcome request next own asks answered =>
        rw [answered]
        refine answer i _ request next _ asks ?_ (holds i)
        rintro rfl task handed
        subst own
        obtain ⟨inside, _⟩ := Option.ite_none_right_eq_some.mp taken
        have known := (reachable_balanced valid reached).1.known task
          (System.choice_inFlight inside handed)
        exact ⟨known.current, known.positive⟩

/-- In every run the writers keep the tally. -/
theorem reachable_tally {setup : PlotterSetup} (valid : setup.Valid) {s : System}
    (run : setup.machine.Reachable s) : s.WritersTally setup := by
  refine System.reachable_threads valid
    (fun i thread => Tallying (setup.plan i) TallyPlace thread.program thread.state)
    (fun i plotting final writeBuffer => ?_) (fun i thread control done kept => ?_)
    (fun i thread request next choice asks offered kept => ?_) run
  · refine ⟨rfl, fun k => ⟨?_, Int.le_refl 0⟩, by rintro _ ⟨⟩⟩
    show (-9223372036854775808 : Int) ≤ 0
    decide
  · rw [done] at kept
    exact writerBody_tallied _ kept
  · rw [asks] at kept
    exact kept.2 choice offered

end HyperPlotter.Pipeline

import HyperPlotter.Pipeline.Returns

/-!
# What a writer gets to see

A writer pops the hash tasks made for it, in order, and is done with a file before it
gets a task of the next. So the close at a change of `last_write_task` finds no file
open that has tasks to come.
-/

namespace HyperPlotter.Pipeline

open Foundation Poc Interaction

/-- From a state on, neither the dispatcher nor the queue of writer `i` gives the
writer a task of file `k`. -/
def NoMore (setup : PlotterSetup) (i k : Nat) (s : System) (events : List SystemEvent) : Prop :=
  ∀ task ∈ setup.machine.observed (System.returned setup i) s events ++
    setup.machine.observed (System.popped i) s events, task.currentWriteTask ≠ (k : Int)

/-- What a writer gets to see in a series of events: the tasks it pops are those
made for it, in order. When a submission completes a file, and when another file
than that of the task in hand is closed, the file has no tasks to come. -/
structure InOrder (setup : PlotterSetup) (i : Nat) (start : System) (events : List SystemEvent) :
    Prop where
  received : setup.machine.observed (System.popped i) start events <+:
    setup.machine.observed (System.returned setup i) start events
  ascending : (setup.machine.observed (System.returned setup i) start events).Pairwise
    fun a b => a.currentWriteTask ≤ b.currentWriteTask
  contiguous : ∀ (k : Nat) (file : PlannedFile), (setup.plan i)[k]? = some file →
    Contiguous file ((setup.machine.observed (System.returned setup i) start events).filter
      (fun task => task.currentWriteTask = (k : Int)))
  completed : ∀ earlier event later s t k, events = earlier ++ event :: later →
    setup.machine.run start earlier = some s → setup.machine.step s event = some t →
    k ∈ s.completed i event → NoMore setup i k t later
  uninterrupted : ∀ earlier later s next k task data, events = earlier ++ later →
    setup.machine.run start earlier = some s →
    (s.threads i).program = .ask .closeFile next → (s.threads i).state.handle = some k →
    (s.threads i).state.current = some (task, data) → task.currentWriteTask ≠ (k : Int) →
    NoMore setup i k s later

variable {setup : PlotterSetup} {s t : System} {i k : Nat}

/-- What a writer has been issued along a series of events. -/
private theorem issued_observed (valid : setup.Valid) (reached : setup.machine.Reachable s)
    (events : List SystemEvent) (runs : setup.machine.run s events = some t) (i : Nat) :
    t.issued i = s.issued i ++ setup.machine.observed (System.returned setup i) s events :=
  Machine.Reaches.observed (fun s => s.issued i)
    (fun reached taken => System.step_returned valid reached taken i) reached events runs

/-- What a writer has popped along a series of events. -/
private theorem popped_observed (valid : setup.Valid) (reached : setup.machine.Reachable s)
    (events : List SystemEvent) (runs : setup.machine.run s events = some t) (i : Nat) :
    (t.threads i).state.popped =
      (s.threads i).state.popped ++ setup.machine.observed (System.popped i) s events :=
  Machine.Reaches.observed (fun s => (s.threads i).state.popped)
    (fun reached taken => System.step_popped (reachable_balanced valid reached).2 taken i) reached
    events runs

/-- When the tasks a writer has popped complete a file, it gets no more of it. -/
private theorem noMore (valid : setup.Valid) (reached : setup.machine.Reachable s)
    (writer : i < setup.plans.length) {file : PlannedFile} (found : (setup.plan i)[k]? = some file)
    (complete : file.nonces ≤ issuedNonces k (s.threads i).state.popped)
    {events : List SystemEvent} (runs : setup.machine.run s events = some t) :
    NoMore setup i k s events := by
  have later : setup.machine.Reachable t := Machine.Reaches.run reached events runs
  have sequence := ((System.reachable_ordered valid later).issued i writer).sequence
  have returned := issued_observed valid reached events runs i
  have popped := popped_observed valid reached events runs i
  intro task member
  rcases List.mem_append.mp member with made | taken
  · rw [returned, System.issued_eq, List.append_assoc] at sequence
    exact sequence.none_after found complete task (List.mem_append_right _ made)
  · rw [System.issued_eq, popped, List.append_assoc] at sequence
    exact sequence.none_after found complete task (List.mem_append_left _ taken)

/-- What a submission that completes a file has popped. -/
private theorem completed_popped (valid : setup.Valid) (reached : setup.machine.Reachable s)
    {event : SystemEvent} (taken : s.step setup event = some t) (member : k ∈ s.completed i event) :
    ∃ file, (setup.plan i)[k]? = some file ∧
      file.nonces ≤ issuedNonces k (t.threads i).state.popped := by
  have popped := System.step_popped (reachable_balanced valid reached).2 taken i
  have tally := reachable_tally valid reached i
  unfold System.completed at member
  split at member
  · rename_i j outcome
    split at member
    · rename_i index nonces initNonces next asks
      rw [asks] at tally
      obtain ⟨task, file, holding, current, rfl, found, rfl⟩ := tally.1.submits _ _ _ rfl
      obtain ⟨⟨rfl, complete⟩, rfl⟩ : (j = i ∧ _) ∧ k = index := by
        split at member
        · rename_i meets
          exact ⟨meets, List.mem_singleton.mp member⟩
        · cases member
      refine ⟨file, found, ?_⟩
      have nothing : s.popped j (.writer j outcome) = [] := by
        unfold System.popped
        rw [asks]
      obtain ⟨lower, upper⟩ := holding.tallied k
      have positive := holding.positive
      rw [popped, nothing, List.append_nil, holding.popped, issuedNonces_append,
        issuedNonces_singleton, if_pos current]
      unfold submitNonces toInt64 at complete
      simp only [decide_eq_true_eq] at complete
      omega
    · cases member
  · cases member

/-- Another file is closed only after its last task. -/
private theorem closing_popped (valid : setup.Valid) (reached : setup.machine.Reachable s)
    (writer : i < setup.plans.length) {next : Unit → WriterProgram WriterControl}
    (asks : (s.threads i).program = .ask .closeFile next)
    (handle : (s.threads i).state.handle = some k) {task : HasherTask} {data : Memory}
    (current : (s.threads i).state.current = some (task, data))
    (other : task.currentWriteTask ≠ (k : Int)) :
    ∃ file, (setup.plan i)[k]? = some file ∧
      file.nonces ≤ issuedNonces k (s.threads i).state.popped := by
  have tally := reachable_tally valid reached i
  rw [asks] at tally
  obtain ⟨opener, member, opened⟩ := tally.1.opens k handle
  have series := ((System.reachable_ordered valid reached).issued i writer).sequence
  rw [System.issued_eq] at series
  have sequence := series.of_append _
  have popped : (s.threads i).state.popped = (s.threads i).state.reported ++ [task] := by
    unfold WriterState.popped
    rw [current]
    rfl
  rw [popped] at sequence member
  obtain ⟨prior, index, last, continued⟩ := sequence.continues_last
  have ascending := sequence.ascending
  rw [List.pairwise_append] at ascending
  rcases List.mem_append.mp member with earlier | here
  · have below := ascending.2.2 opener earlier task (List.mem_singleton_self _)
    have before : k < index := by
      have := continued.current
      omega
    have inside := (List.getElem?_eq_some_iff.mp continued.found).1
    have found : (setup.plan i)[k]? = some (setup.plan i)[k] := List.getElem?_eq_getElem (by omega)
    refine ⟨_, found, ?_⟩
    rw [popped, issuedNonces_append, continued.before k _ before found, issuedNonces_singleton,
      if_neg other]
    omega
  · rw [List.mem_singleton.mp here] at opened
    exact absurd opened other

/-- In every run every writer receives its hash tasks in order. -/
theorem hashTasks_inOrder (valid : setup.Valid) {start final : System} (starts : start.Start setup)
    (events : List SystemEvent) (runs : setup.machine.run start events = some final) {i : Nat}
    (writer : i < setup.plans.length) : InOrder setup i start events := by
  have reached : setup.machine.Reachable start := .start starts
  have issued := issued_observed valid reached events runs i
  rw [starts.issued_eq, List.nil_append] at issued
  have popped := popped_observed valid reached events runs i
  have nothing : (start.threads i).state.popped = [] := by
    obtain ⟨plotting, final, writeBuffer, thread⟩ := starts.threads i
    rw [thread]
    rfl
  rw [nothing, List.nil_append] at popped
  have sequence := ((System.reachable_ordered valid
    (Machine.Reaches.run reached events runs)).issued i writer).sequence
  constructor
  · rw [← issued, ← popped, System.issued_eq]
    exact List.prefix_append _ _
  · rw [← issued]
    exact sequence.ascending
  · intro k file found
    rw [← issued]
    exact sequence.contiguous (valid.plan i) found
  · rintro earlier event later s t k rfl before taken member
    obtain ⟨middle, first, rest⟩ := Machine.run_append runs
    obtain rfl : middle = s := Option.some.inj (first.symm.trans before)
    have arrived := Machine.Reaches.run reached earlier before
    obtain ⟨file, found, complete⟩ := completed_popped valid arrived taken member
    rw [Machine.run, List.foldlM_cons] at rest
    obtain ⟨next, here, rest⟩ := Option.bind_eq_some_iff.mp rest
    obtain rfl : next = t := Option.some.inj (here.symm.trans taken)
    exact noMore valid (.step arrived trivial taken) writer found complete rest
  · rintro earlier later s next k task data rfl before asks handle current other
    obtain ⟨middle, first, rest⟩ := Machine.run_append runs
    obtain rfl : middle = s := Option.some.inj (first.symm.trans before)
    have arrived := Machine.Reaches.run reached earlier before
    obtain ⟨file, found, complete⟩ := closing_popped valid arrived writer asks handle current other
    exact noMore valid arrived writer found complete rest

/-- When all nonces are counted each writer has popped all nonces of its files. -/
theorem popped_of_counted (valid : setup.Valid) (reached : setup.machine.Reachable s)
    (counted : (toUInt64 s.dispatcher.finishedNonces : Int) = setup.totalNonces)
    (writer : i < setup.plans.length) {file : PlannedFile}
    (found : (setup.plan i)[k]? = some file) :
    issuedNonces k (s.threads i).state.popped = file.nonces := by
  have balanced := (reachable_balanced valid reached).1
  obtain ⟨remaining, empty⟩ := balanced.all_counted valid counted
  obtain ⟨issued, inHand⟩ := System.issued_of_empty empty writer
  have exhausted := (System.reachable_ordered valid reached).exhausted balanced remaining writer found
  have popped : (s.threads i).state.popped = (s.threads i).state.reported ++ (s.threads i).inHand :=
    rfl
  rwa [popped, inHand, List.append_nil, ← issued]

/-- A writer that writes two files pops all their tasks. -/
theorem hashTasks_inOrder_twoFiles : ∃ events final,
    twoFiles.machine.run (.idle twoFiles) events = some final ∧
    InOrder twoFiles 0 (.idle twoFiles) events ∧
    let popped := twoFiles.machine.observed (System.popped 0) (.idle twoFiles) events
    issuedNonces 0 popped = 8 ∧ issuedNonces 1 popped = 8 := by
  have alone : System.LeftAlone (System.roundRobin twoFiles) :=
    System.roundRobin_leftAlone (by decide)
  obtain ⟨n, _, declared⟩ := (alone.completes twoFiles_valid (by decide)).exists
  obtain ⟨events, runs⟩ := (System.roundRobin twoFiles).exists_events n
  have all : ∀ (k : Nat) (file : PlannedFile), (twoFiles.plan 0)[k]? = some file →
      issuedNonces k (twoFiles.machine.observed (System.popped 0) (.idle twoFiles) events) =
        file.nonces := by
    intro k file found
    have counted := popped_of_counted twoFiles_valid ((System.roundRobin twoFiles).reachable n)
      declared.counted (i := 0) (by decide) found
    rwa [popped_observed twoFiles_valid (.start (System.idle_start twoFiles)) events runs 0]
      at counted
  exact ⟨events, _, runs,
    hashTasks_inOrder twoFiles_valid (System.idle_start twoFiles) events runs (by decide),
    all 0 ⟨1, 0, 8⟩ rfl, all 1 ⟨1, 8, 8⟩ rfl⟩

/-! ## The close at a change of `last_write_task` -/

/-- The close before the first attempt at a task, at a change of `last_write_task`. -/
def ClosesLast (program : WriterProgram WriterControl) (task : HasherTask) : Prop :=
  ∃ next lastWriteTask, program = .ask .closeFile next ∧ next () = .done (.attempt lastWriteTask task)

/-- A handle is only open on the file of the last task. -/
def OpensLast (lastWriteTask : Int) (s : WriterState) : Prop :=
  ∀ k, s.handle = some k → (k : Int) = lastWriteTask

/-- The handle between two parts of the program. -/
def HandlePlace : WriterControl → WriterState → Prop
  | .outer _ lastWriteTask, s => OpensLast lastWriteTask s
  | .attempt lastWriteTask task, s => lastWriteTask = task.currentWriteTask ∧
    0 ≤ task.currentWriteTask ∧ OpensLast lastWriteTask s
  | .exited, _ => True

/-- What is open between two parts of the program and at the close. -/
structure HandleKept (program : WriterProgram WriterControl) (s : WriterState) : Prop where
  place : ∀ control, program = .done control → HandlePlace control s
  closes : ∀ task, ClosesLast program task → (∃ data, s.current = some (task, data)) ∧
    ∀ k, s.handle = some k → task.currentWriteTask ≠ (k : Int)

section

variable {plan : List PlannedFile} {s : WriterState} {task : HasherTask} {lastWriteTask : Int}

/-- `Throughout` with these checks, whatever the files and the flag do. -/
abbrev Handling (program : WriterProgram WriterControl) (s : WriterState) : Prop :=
  Throughout WriterState.respond Offered HandleKept program s

/-- The end of a part. -/
theorem handling_done {control : WriterControl} (place : HandlePlace control s) :
    Handling (.done control) s := by
  refine ⟨?_, ?_⟩
  · rintro _ ⟨⟩
    exact place
  · rintro _ ⟨_, _, ⟨⟩, _⟩

/-- A request other than a close. -/
theorem handleKept_other {request : WriterRequest}
    {next : request.Reply → WriterProgram WriterControl} (other : request ≠ .closeFile) :
    HandleKept (.ask request next) s := by
  refine ⟨nofun, ?_⟩
  rintro _ ⟨_, _, ⟨⟩, _⟩
  exact absurd rfl other

/-- A request that no attempt follows at once. -/
theorem handleKept_ask {request : WriterRequest} {next : request.Reply → WriterProgram WriterControl}
    (goes : ∀ reply lastWriteTask task, next reply ≠ .done (.attempt lastWriteTask task)) :
    HandleKept (.ask request next) s := by
  refine ⟨nofun, ?_⟩
  rintro task ⟨_, lastWriteTask, ⟨⟩, attempts⟩
  exact absurd attempts (goes () lastWriteTask task)

/-- An attempt opens its own file only. -/
theorem OpensLast.respond {index : Nat} {file : PlannedFile} {request : WriterRequest}
    (opens : OpensLast index s) (ofFile : request.OfFile index file) (choice : Choice) :
    OpensLast index (s.respond choice request).2 := by
  have handle : (s.respond choice request).2.handle = s.handle ∨
      (s.respond choice request).2.handle = none ∨
      (s.respond choice request).2.handle = some index := by
    by_cases submits : ∃ k nonces initNonces, request = .submit k nonces initNonces
    · obtain ⟨k, nonces, initNonces, rfl⟩ := submits
      exact .inl rfl
    · exact (respond_leaves ofFile (fun k nonces initNonces same =>
        submits ⟨k, nonces, initNonces, same⟩) choice s).2
  intro k opened
  rcases handle with kept | closed | own
  · exact opens k (kept ▸ opened)
  · rw [closed] at opened
    cases opened
  · rw [own] at opened
    obtain rfl : index = k := Option.some.inj opened
    rfl

private theorem leaveWriter_handling : Handling leaveWriter s :=
  throughout_perform.mpr ⟨handleKept_ask nofun, fun _ _ => handling_done trivial⟩

private theorem writerAttempt_handling (place : HandlePlace (.attempt lastWriteTask task) s) :
    Handling (writerAttempt plan lastWriteTask task) s := by
  obtain ⟨rfl, lower, opens⟩ := place
  have index : ((task.currentWriteTask.toNat : Nat) : Int) = task.currentWriteTask :=
    Int.toNat_of_nonneg lower
  unfold writerAttempt
  split
  · exact handling_done trivial
  · rename_i file found
    rw [← index] at opens
    have attempted : Always WriterState.respond Offered (fun _ _ => True)
        (fun _ => OpensLast task.currentWriteTask.toNat)
        (attemptWrite task.currentWriteTask.toNat file task) s :=
      (attemptWrite_ofFile _ file task).keeps _ opens
        (fun choice _ _ ofFile _ opens => opens.respond ofFile choice) fun _ _ _ _ => trivial
    refine attempted.throughout (fun request answered s _ => handleKept_ask fun reply _ _ => ?_)
      fun ok s opens => ?_
    · -- the report or the poll of the retry loop comes first
      cases answered reply with
      | done ok => cases ok <;> nofun
      | ask => nofun
    · rw [index] at opens
      cases ok with
      | true => exact throughout_perform.mpr ⟨handleKept_other nofun, fun _ _ => handling_done opens⟩
      | false =>
          refine throughout_perform.mpr ⟨handleKept_other nofun, fun choice _ => ?_⟩
          have polled : s.respond choice (.stopped .retry) = (choice.stop, s) := rfl
          rw [polled]
          cases choice.stop with
          | true =>
              exact throughout_perform.mpr ⟨handleKept_other nofun, fun _ _ => handling_done opens⟩
          | false => exact handling_done ⟨rfl, lower, opens⟩

private theorem writerOuter_handling (bench success : Bool)
    (opens : HandlePlace (.outer success lastWriteTask) s) :
    Handling (writerOuter bench plan success lastWriteTask) s := by
  unfold writerOuter
  cases success with
  | false => exact leaveWriter_handling
  | true =>
      refine throughout_perform.mpr ⟨handleKept_other nofun, fun choice _ => ?_⟩
      have polled : s.respond choice (.stopped .outer) = (choice.stop, s) := rfl
      rw [polled]
      cases choice.stop with
      | true => exact leaveWriter_handling
      | false =>
          refine throughout_perform.mpr ⟨handleKept_other nofun, fun popping offered => ?_⟩
          have popped : s.respond popping .pop = (popping.task,
              { s with current := popping.task.map fun task => (task, popping.block) }) := rfl
          rw [popped]
          cases handed : popping.task with
          | none => exact handling_done opens
          | some task =>
              have index := (offered rfl task handed).1
              simp only []
              split
              · exact leaveWriter_handling
              · split
                · exact throughout_perform.mpr
                    ⟨handleKept_other nofun, fun _ _ => handling_done opens⟩
                · split
                  · rename_i changed
                    refine throughout_perform.mpr ⟨⟨nofun, ?_⟩, fun _ _ => ?_⟩
                    · rintro _ ⟨_, _, ⟨⟩, ⟨⟩⟩
                      exact ⟨⟨popping.block, rfl⟩,
                        fun k opened same => changed ((opens k opened).symm.trans same.symm)⟩
                    · exact handling_done ⟨rfl, index, nofun⟩
                  · rename_i same
                    have same : lastWriteTask = task.currentWriteTask := not_not.mp same
                    exact handling_done ⟨same, index, opens⟩

end

/-- In every run, when a writer closes at a change of `last_write_task`, an open file
is not that of the task in hand. -/
theorem reachable_closesLast (valid : setup.Valid) (reached : setup.machine.Reachable s)
    {task : HasherTask} (closes : ClosesLast (s.threads i).program task) :
    (∃ data, (s.threads i).state.current = some (task, data)) ∧
      ∀ k, (s.threads i).state.handle = some k → task.currentWriteTask ≠ (k : Int) := by
  have handling := System.reachable_threads valid
    (fun _ thread => Handling thread.program thread.state)
    (fun i plotting final writeBuffer => handling_done nofun)
    (fun i thread control done kept => ?_) (fun i thread request next choice asks offered kept => ?_)
    reached i
  · exact handling.now.closes task closes
  · rw [done] at kept
    have place := kept.now.place control rfl
    cases control with
    | outer success lastWriteTask => exact writerOuter_handling _ success place
    | attempt lastWriteTask task => exact writerAttempt_handling place
    | exited => exact handling_done trivial
  · rw [asks] at kept
    exact kept.2 choice offered

/-- This close never interrupts a file that still has tasks to come. -/
theorem closesLast_noMore (valid : setup.Valid) (reached : setup.machine.Reachable s)
    (writer : i < setup.plans.length) {task : HasherTask}
    (closes : ClosesLast (s.threads i).program task)
    (handle : (s.threads i).state.handle = some k) {events : List SystemEvent}
    (runs : setup.machine.run s events = some t) : NoMore setup i k s events := by
  obtain ⟨⟨data, current⟩, other⟩ := reachable_closesLast valid reached closes
  obtain ⟨next, _, asks, _⟩ := closes
  obtain ⟨file, found, complete⟩ :=
    closing_popped valid reached writer asks handle current (other k handle)
  exact noMore valid reached writer found complete runs

end HyperPlotter.Pipeline

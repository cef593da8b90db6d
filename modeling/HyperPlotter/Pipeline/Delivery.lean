import HyperPlotter.Pipeline.Bookkeeping
import HyperPlotter.Pipeline.PlotLayout

/-!
# What reaches a writer

A writer receives its hash tasks in the order they were made, and while it works
on one nobody else writes to the task's block. `Undisturbed` says which steps
the rules for writers cover; in runs of such steps every writer thread is sound.
-/

namespace HyperPlotter.Pipeline

open Foundation Poc Interaction

variable (setup : PlotterSetup)

namespace System

/-! ## In order -/

/-- Each writer's tasks are a series over its files, as far as the dispatcher's
side of the writer says. -/
structure Ordered (s : System) : Prop where
  issued : ∀ i, i < setup.plans.length →
    Issued (setup.plan i) (s.issued i) (s.dispatcher.cursors i) (s.dispatcher.writerTasks i)
  addressed : ∀ i, ∀ task ∈ s.issued i, task.writer = i ∧ task.nonces ≤ toInt32 setup.workSize

variable {setup} {s t : System}

/-- The decision makes the next task of one writer. -/
private theorem assign_issued (valid : setup.Valid) (d : Dispatcher) {issued : Nat → List HasherTask}
    (ordered : ∀ i, i < setup.plans.length →
      Issued (setup.plan i) (issued i) (d.cursors i) (d.writerTasks i))
    {pos : Int} (inside : pos.toNat < setup.plans.length) (work : 0 < toInt32 setup.workSize)
    (block : PagedBlock) :
    (∀ i, i < setup.plans.length →
      Issued (setup.plan i)
        (issued i ++ (d.assign setup pos block).1.toList.filter (fun task => task.writer = i))
        ((d.assign setup pos block).2.cursors i) ((d.assign setup pos block).2.writerTasks i)) := by
  intro i writer
  have answer := (ordered pos.toNat inside).nextHasherTask_answer (PlannedFile.typed (valid.plan pos.toNat)) work
    pos.toNat block.data
  unfold Dispatcher.assign
  generalize nextHasherTask (toInt32 setup.workSize) pos.toNat block.data (d.cursors pos.toNat)
    (d.writerTasks pos.toNat) = answered at answer
  obtain ⟨handed, cur, tasks⟩ := answered
  by_cases same : i = pos.toNat
  · subst same
    have state := answer.state
    cases handed with
    | none => simpa only [Option.toList_none, List.filter_nil, Function.update_self] using state
    | some task =>
        have own := (answer.task task rfl).1
        simpa only [Option.toList_some, List.filter_cons, own, decide_true, if_true,
          List.filter_nil, Function.update_self] using state
  · have state := ordered i writer
    cases handed with
    | none =>
        simpa only [Option.toList_none, List.filter_nil, List.append_nil,
          Function.update_of_ne same] using state
    | some task =>
        have own := (answer.task task rfl).1
        have other : ¬task.writer = i := by omega
        simpa only [Option.toList_some, List.filter_cons, other, decide_false, Bool.false_eq_true,
          if_false, List.filter_nil, List.append_nil, Function.update_of_ne same] using state

/-- A decision keeps the series. -/
private theorem dispatch_issued (valid : setup.Valid) {d : Dispatcher} {flight : List HasherTask}
    (balanced : Balanced setup d flight) (place : d.place = .deciding)
    {issued : Nat → List HasherTask} (ordered : ∀ i, i < setup.plans.length →
      Issued (setup.plan i) (issued i) (d.cursors i) (d.writerTasks i))
    (hasherSize : Nat) (writerSize : Nat → Nat) {choice : MemoryChoice}
    (fresh : ∀ data, choice.fresh = some data → d.allocator.Fresh ⟨data, setup.blockSize⟩) :
    (∀ i, i < setup.plans.length →
      Issued (setup.plan i)
        (issued i ++ (d.dispatch setup hasherSize writerSize choice).1.toList.filter
          (fun task => task.writer = i))
        ((d.dispatch setup hasherSize writerSize choice).2.cursors i)
        ((d.dispatch setup hasherSize writerSize choice).2.writerTasks i)) := by
  intro i writer
  have kept := ordered i writer
  obtain ⟨lower, upper⟩ := balanced.wrapped valid
  have decided := balanced.decision valid (balanced.deciding place) hasherSize writerSize fresh
  generalize d.dispatch setup hasherSize writerSize choice = answer at decided
  cases decided with
  | nobody => simpa only [Option.toList_none, List.filter_nil, List.append_nil] using kept
  | @asks block allocator member backed =>
      have inside : (d.wrapped setup).toNat < setup.plans.length := by omega
      exact assign_issued valid { d with
        curWorkerPos := d.wrapped setup + 1, allocator := allocator, place := .head } ordered inside
        (backed.workSize valid member) block i writer

variable (setup) in
/-- Taking in a report leaves the writers' side alone. -/
theorem receive_side (d : Dispatcher) (report : Option HasherTask) :
    (d.receive setup report).cursors = d.cursors ∧
      (d.receive setup report).writerTasks = d.writerTasks := by
  have gate : ∀ d : Dispatcher, (d.gate setup).cursors = d.cursors ∧
      (d.gate setup).writerTasks = d.writerTasks := by
    intro d
    unfold Dispatcher.gate
    split
    · exact ⟨rfl, rfl⟩
    · split
      · exact ⟨rfl, rfl⟩
      · split <;> exact ⟨rfl, rfl⟩
  cases report with
  | none => exact gate d
  | some report => exact gate (d.account report)

/-- An event keeps the series. -/
theorem Ordered.step (valid : setup.Valid) (ordered : Ordered setup s)
    (balanced : Balanced setup s.dispatcher (s.inFlight setup)) {event : SystemEvent}
    (flow : Flow setup s t event) :
    Ordered setup t := by
  cases flow with
  | pass dispatcher passed =>
      refine ⟨fun i writer => ?_, fun i => ?_⟩
      · rw [dispatcher, passed.issued]
        exact ordered.issued i writer
      · rw [passed.issued]
        exact ordered.addressed i
  | poll dispatcher passed =>
      refine ⟨fun i writer => ?_, fun i => ?_⟩
      · rw [dispatcher, passed.issued]
        exact ordered.issued i writer
      · rw [passed.issued]
        exact ordered.addressed i
  | timeout dispatcher passed =>
      obtain ⟨cursors, tasks⟩ := receive_side setup s.dispatcher none
      refine ⟨fun i writer => ?_, fun i => ?_⟩
      · rw [dispatcher, passed.issued, cursors, tasks]
        exact ordered.issued i writer
      · rw [passed.issued]
        exact ordered.addressed i
  | report report place dispatcher flight issued =>
      obtain ⟨cursors, tasks⟩ := receive_side setup s.dispatcher (some report)
      refine ⟨fun i writer => ?_, fun i => ?_⟩
      · rw [dispatcher, issued, cursors, tasks]
        exact ordered.issued i writer
      · rw [issued]
        exact ordered.addressed i
  | dispatch hasherSize writerSize choice place fresh dispatcher flight issued =>
      refine ⟨fun i writer => ?_, fun i task member => ?_⟩
      · rw [dispatcher, issued]
        exact dispatch_issued valid balanced place ordered.issued hasherSize writerSize fresh i writer
      · rw [issued] at member
        rcases List.mem_append.mp member with old | new
        · exact ordered.addressed i task old
        · obtain ⟨made, own⟩ := List.mem_filter.mp new
          have known := (balanced.dispatch valid place hasherSize writerSize fresh).known task
            (List.mem_append_right _ made)
          exact ⟨by simpa using own, known.size⟩

/-- A start state has issued nothing. -/
theorem Start.issued_eq (start : s.Start setup) (i : Nat) : s.issued i = [] := by
  obtain ⟨plotting, final, writeBuffer, thread⟩ := start.threads i
  unfold issued WriterThread.inHand
  rw [thread, start.queues, start.hasher, start.hasherQueue]
  rfl

/-- A start state is in order. -/
theorem Start.ordered (valid : setup.Valid) (start : s.Start setup) :
    Ordered setup s := by
  refine ⟨fun i _ => ?_, fun i task member => ?_⟩
  · rw [start.issued_eq, start.dispatcher]
    exact Issued.initial (PlannedFile.typed (valid.plan i))
  · rw [start.issued_eq] at member
    cases member

/-! ## Filled blocks -/

variable (setup) in
/-- The bytes are what hashing the task leaves in a block. Lanes the hasher does not
reach keep what they had; `PlotterSetup.Plots` says when there are none. -/
def Hashed (task : HasherTask) (data : Memory) : Prop :=
  ∃ devBuff prior, data = (hashTask setup.gpu devBuff prior task).2

variable (setup) in
/-- A block is hashed when its task reaches the writer, and stays so. -/
structure Filled (s : System) : Prop where
  hashing : ∀ task rest, s.hasher = .hashing task rest → ∃ devBuff prior done,
    task.chunks setup.gpu.globalWorkSize = done ++ rest ∧
    (s.devBuff, s.memory task.block) = done.foldl (plotChunk setup.gpu task.pid) (devBuff, prior)
  queued : ∀ i, i < setup.plans.length → ∀ task ∈ s.queues i,
    Hashed setup task (s.memory task.block)
  writing : ∀ i, i < setup.plans.length → ∀ task data,
    (s.threads i).state.current = some (task, data) →
    data = s.memory task.block ∧ Hashed setup task data
  finished : ∀ i, i < setup.plans.length → ∀ pair ∈ (s.threads i).state.finished,
    Hashed setup pair.1 pair.2

/-- The task being hashed has a block of its own. -/
private theorem other_block (distinct : ((s.inFlight setup).map HasherTask.block).Nodup)
    {task other : HasherTask} {rest : List Chunk} (here : s.hasher = .hashing task rest) {i : Nat}
    (writer : i < setup.plans.length) (member : other ∈ s.queues i ++ (s.threads i).inHand) :
    other.block ≠ task.block := by
  have shared : other ∈ shares setup.plans.length fun j => s.queues j ++ (s.threads j).inHand :=
    mem_shares.mpr ⟨i, writer, member⟩
  unfold inFlight at distinct
  rw [here, List.map_append, List.map_append, List.nodup_append, List.nodup_append] at distinct
  have apart := distinct.1.2.2 task.block (by simp [HasherPlace.task]) other.block
    (List.mem_map_of_mem shared)
  exact fun same => apart same.symm

/-- The hasher's step keeps the blocks filled. -/
private theorem Filled.hash (plots : setup.bench.testBit 1 = false) (filled : Filled setup s)
    (distinct : ((s.inFlight setup).map HasherTask.block).Nodup) (move : Move setup s .hasher t) :
    Filled setup t := by
  cases move with
  | hasherHead =>
      refine ⟨fun task rest here => ?_, filled.queued, filled.writing, filled.finished⟩
      simp only [] at here
      split at here <;> cases here
  | hasherExit => exact ⟨nofun, filled.queued, filled.writing, filled.finished⟩
  | hasherLeave => exact ⟨nofun, filled.queued, filled.writing, filled.finished⟩
  | @hasherTake task =>
      refine ⟨?_, filled.queued, filled.writing, filled.finished⟩
      rintro _ _ ⟨⟩
      rw [plots, if_neg Bool.false_ne_true]
      exact ⟨s.devBuff, s.memory task.block, [], rfl, rfl⟩
  | @hasherPlot task chunk rest here =>
      obtain ⟨devBuff, prior, done, chunks, plotted⟩ := filled.hashing task _ here
      have elsewhere : ∀ i, i < setup.plans.length → ∀ other,
          other ∈ s.queues i ++ (s.threads i).inHand → ∀ bytes,
          Function.update s.memory task.block bytes other.block = s.memory other.block := by
        intro i writer other member bytes
        exact Function.update_of_ne (other_block distinct here writer member) ..
      constructor
      · rintro _ _ ⟨⟩
        refine ⟨devBuff, prior, done ++ [chunk], by rw [chunks, List.append_assoc]; rfl, ?_⟩
        simp only [Function.update_self]
        rw [List.foldl_append, ← plotted]
        rfl
      · intro i writer other member
        simp only []
        rw [elsewhere i writer other (List.mem_append_left _ member)]
        exact filled.queued i writer other member
      · intro i writer other data current
        have mine : other ∈ (s.threads i).inHand := by
          unfold WriterThread.inHand
          rw [current]
          exact List.mem_singleton_self _
        simp only []
        rw [elsewhere i writer other (List.mem_append_right _ mine)]
        exact filled.writing i writer other data current
      · exact filled.finished
  | @hasherDeliver task here =>
      obtain ⟨devBuff, prior, done, chunks, plotted⟩ := filled.hashing task _ here
      refine ⟨nofun, fun i writer other member => ?_, filled.writing, filled.finished⟩
      have hashed : Hashed setup task (s.memory task.block) := by
        refine ⟨devBuff, prior, ?_⟩
        rw [List.append_nil] at chunks
        rw [hashTask, chunks, ← plotted]
      simp only [] at member
      by_cases same : i = task.writer
      · subst same
        rw [Function.update_self] at member
        rcases List.mem_append.mp member with old | new
        · exact filled.queued _ writer other old
        · obtain rfl : other = task := List.mem_singleton.mp new
          exact hashed
      · rw [Function.update_of_ne same] at member
        exact filled.queued i writer other member

/-- A writer's step that leaves the queues alone or shortens them, with a thread
whose tasks are hashed. -/
private theorem Filled.thread (filled : Filled setup s) {i : Nat} {thread : WriterThread}
    {queues : Nat → List HasherTask} {reports : List HasherTask}
    (shorter : ∀ j, ∀ task ∈ queues j, task ∈ s.queues j)
    (writing : ∀ task data, thread.state.current = some (task, data) →
      data = s.memory task.block ∧ Hashed setup task data)
    (finished : ∀ pair ∈ thread.state.finished, Hashed setup pair.1 pair.2) :
    Filled setup { s with
      threads := Function.update s.threads i thread, queues := queues, reports := reports } := by
  constructor
  · exact filled.hashing
  · exact fun j writer task member => filled.queued j writer task (shorter j task member)
  · intro j writer task data current
    simp only [] at current ⊢
    by_cases same : j = i
    · subst same
      rw [Function.update_self] at current
      exact writing task data current
    · rw [Function.update_of_ne same] at current
      exact filled.writing j writer task data current
  · intro j writer pair member
    simp only [] at member
    by_cases same : j = i
    · subst same
      rw [Function.update_self] at member
      exact finished pair member
    · rw [Function.update_of_ne same] at member
      exact filled.finished j writer pair member

/-- A writer's step keeps the blocks filled. -/
private theorem Filled.write (filled : Filled setup s) (orderly : WritersOrderly s) {i : Nat}
    {outcome : Outcome} (move : Move setup s (.writer i outcome) t) : Filled setup t := by
  cases move with
  | turn writer =>
      exact filled.thread (fun _ _ member => member) (filled.writing i writer)
        (filled.finished i writer)
  | popNothing writer asks exit =>
      refine filled.thread (fun _ _ member => member) (fun task data current => ?_)
        (filled.finished i writer)
      have popped : ((s.choice i outcome).task.map fun task => (task, (s.choice i outcome).block)) =
        some (task, data) := current
      rw [choice_nothing exit] at popped
      cases popped
  | @pop _ _ _ head rest writer asks running queued =>
      have discipline := orderly i
      rw [asks] at discipline
      have empty : (s.threads i).state.current = none := discipline.1 rfl
      refine filled.thread (fun j task member => ?_) (fun task data current => ?_)
        (filled.finished i writer)
      · by_cases same : j = i
        · subst same
          rw [Function.update_self] at member
          rw [queued]
          exact List.mem_cons_of_mem _ member
        · rwa [Function.update_of_ne same] at member
      · have bytes : (s.choice i outcome).block = s.memory head.block := by
          unfold choice
          rw [empty, queued]
          rfl
        have popped : ((s.choice i outcome).task.map fun task =>
          (task, (s.choice i outcome).block)) = some (task, data) := current
        rw [choice_task running queued, bytes] at popped
        obtain ⟨rfl, rfl⟩ := Prod.mk.inj (Option.some.inj popped)
        exact ⟨rfl, filled.queued i writer head (by rw [queued]; exact List.mem_cons_self ..)⟩
  | report writer asks =>
      refine filled.thread (fun _ _ member => member) nofun fun pair member => ?_
      have extended : pair ∈ (s.threads i).state.finished ++ (s.threads i).state.current.toList :=
        member
      rcases List.mem_append.mp extended with old | new
      · exact filled.finished i writer pair old
      · exact (filled.writing i writer pair.1 pair.2 (Option.mem_toList.mp new)).2
  | other writer asks quiet =>
      have same := WriterState.respond_quiet quiet (s.choice i outcome) (s.threads i).state
      refine filled.thread (fun _ _ member => member) (fun task data current => ?_)
        fun pair member => ?_
      · exact filled.writing i writer task data (same.1.symm.trans current)
      · refine filled.finished i writer pair ?_
        rw [← same.2]
        exact member

/-- An event keeps the blocks filled. -/
private theorem Filled.step (plots : setup.bench.testBit 1 = false) (filled : Filled setup s)
    (orderly : WritersOrderly s) (distinct : ((s.inFlight setup).map HasherTask.block).Nodup)
    {event : SystemEvent} (taken : s.step setup event = some t) : Filled setup t := by
  have move := step_move taken
  cases event with
  | hasher => exact filled.hash plots distinct move
  | writer i outcome => exact filled.write orderly move
  | close worker =>
      cases move
      unfold close
      split <;> exact ⟨filled.hashing, filled.queued, filled.writing, filled.finished⟩
  | _ =>
      cases move
      all_goals exact ⟨filled.hashing, filled.queued, filled.writing, filled.finished⟩

private theorem Start.filled (start : s.Start setup) : Filled setup s := by
  constructor
  · rw [start.hasher]
    exact nofun
  · intro i _ task member
    rw [start.queues] at member
    cases member
  · intro i _
    obtain ⟨plotting, final, writeBuffer, thread⟩ := start.threads i
    rw [thread]
    exact nofun
  · intro i _
    obtain ⟨plotting, final, writeBuffer, thread⟩ := start.threads i
    rw [thread]
    exact nofun

/-! ## Sound writers -/

/-- No writer reads a set stop flag in `perform_write_plot` with data left to
write. With `strict` none leaves its retry loop by the flag and no rename
fails. -/
def Undisturbed (strict : Prop) (s : System) : SystemEvent → Prop
  | .writer i outcome =>
    match (s.threads i).program with
    | .ask (.stopped poll) _ =>
      (poll.DataLeft → s.stopped = false) ∧ (poll = .retry → strict → s.stopped = false)
    | .ask (.rename _) _ => strict → outcome.ok = true
    | _ => True
  | _ => True

/-- Where nothing disturbs strictly, nothing disturbs. -/
theorem Undisturbed.weaken {event : SystemEvent} (undisturbed : Undisturbed True s event) :
    Undisturbed False s event := by
  cases event with
  | writer i outcome =>
      cases running : (s.threads i).program with
      | done control => simp [Undisturbed, running]
      | ask request next =>
          simp only [Undisturbed, running] at undisturbed ⊢
          cases request with
          | stopped poll => exact ⟨undisturbed.1, fun _ no => no.elim⟩
          | rename index => exact fun no => no.elim
          | _ => trivial
  | _ => trivial

variable (setup) in
/-- What holds in runs of undisturbed steps. -/
structure Delivered (strict : Prop) (s : System) : Prop where
  balanced : Balanced setup s.dispatcher (s.inFlight setup)
  orderly : WritersOrderly s
  ordered : Ordered setup s
  filled : Filled setup s
  sound : ∀ i, i < setup.plans.length → (s.threads i).Sound (setup.plan i) strict

/-- The other threads' side of an answer is what the rules permit. -/
theorem Delivered.permitted {strict : Prop} (delivered : Delivered setup strict s) {i : Nat}
    (writer : i < setup.plans.length) {request : WriterRequest}
    {next : request.Reply → WriterProgram WriterControl}
    (asks : (s.threads i).program = .ask request next) {outcome : Outcome}
    (undisturbed : Undisturbed strict s (.writer i outcome)) :
    Permitted (setup.plan i) strict (s.threads i).state request (s.choice i outcome) := by
  unfold Undisturbed at undisturbed
  simp only [asks] at undisturbed
  cases request with
  | stopped poll => exact undisturbed
  | rename file => exact undisturbed
  | pop =>
      intro task handed
      have discipline := delivered.orderly i
      rw [asks] at discipline
      have empty : (s.threads i).state.current = none := discipline.1 rfl
      have sequence := (delivered.ordered.issued i writer).sequence
      have queued : ∃ rest, s.queues i = task :: rest := by
        unfold choice at handed
        simp only [] at handed
        split at handed
        · cases handed
        · exact List.head?_eq_some_iff.mp handed
      obtain ⟨rest, queue⟩ := queued
      unfold issued WriterThread.inHand at sequence
      rw [empty, queue, Option.map_none, Option.toList_none, List.append_nil,
        List.append_cons, List.append_assoc] at sequence
      exact sequence.of_append _
  | gather scoop nstart nsize =>
      rintro ⟨task, data⟩ current
      have bytes : (s.choice i outcome).block = s.memory task.block := by
        unfold choice
        rw [current]
      rw [bytes]
      exact (delivered.filled.writing i writer task data current).1.symm
  | _ => trivial

/-- In runs of undisturbed steps outside bench mode every writer thread is
sound, and its blocks are filled. -/
theorem reaches_delivered {strict : Prop} (valid : setup.Valid) (plots : setup.bench = 0)
    (run : setup.machine.Reaches (Undisturbed strict) s) : Delivered setup strict s := by
  refine Machine.Reaches.invariant (Delivered setup strict) (fun {s} start => ?_)
    (fun {s event t} reached delivered undisturbed taken => ?_) run
  · obtain ⟨balanced, orderly⟩ := reachable_balanced valid (.start start)
    refine ⟨balanced, orderly, Start.ordered valid start, Start.filled start, fun i _ => ?_⟩
    obtain ⟨plotting, final, writeBuffer, thread⟩ := Start.threads start i
    rw [thread]
    exact WriterThread.start_sound (valid.plan i) plotting final writeBuffer
  · have anywhere : setup.machine.Reachable s := reached.mono fun _ _ _ => trivial
    obtain ⟨balanced, orderly⟩ := reachable_balanced valid (.step anywhere trivial taken)
    have flow := step_flow delivered.balanced.known delivered.orderly taken
    refine ⟨balanced, orderly, delivered.ordered.step valid delivered.balanced flow,
      delivered.filled.step (by rw [plots]; rfl) delivered.orderly delivered.balanced.distinct taken,
      fun i writer => ?_⟩
    have sound := delivered.sound i writer
    cases step_thread taken i with
    | away _ same =>
        rw [same]
        exact sound
    | turn _ done turned =>
        rw [turned, plots]
        exact sound.turn (valid.plan i) done
    | answer own asks answered =>
        subst own
        rw [answered]
        exact sound.answer asks (delivered.permitted writer asks undisturbed)

end System

end HyperPlotter.Pipeline

import HyperPlotter.Pipeline.Delivery

/-!
# What is on disk

What the writers' files hold, said by nonce. A block has its nonces in the lanes
the hasher filled, so the setup must be one that fills them: a supported device,
and no hash task with a second chunk that the `int` pointer product misses.
-/

namespace HyperPlotter.Pipeline

open Foundation Poc Interaction

variable (setup : PlotterSetup)

/-- How many lanes of a block the hasher fills. -/
def PlotterSetup.lanes : Nat :=
  if setup.gpu.globalWorkSize < 8192 then 32768 else setup.gpu.globalWorkSize

/-- The threads plot, and every lane of a hash task is filled. -/
structure PlotterSetup.Plots : Prop where
  bench : setup.bench = 0
  supported : setup.gpu.Supported
  filled : ∀ files ∈ setup.plans, ∀ file ∈ files,
    min (setup.workSize : Int) file.nonces ≤ setup.lanes

/-- The file has every scoop of a hash task's nonces in its slot. -/
def NoncesStored (file : PlannedFile) (entry : FileEntry) (task : HasherTask) : Prop :=
  ∀ c k b : Nat, c < 4096 → (k : Int) < task.nonces → b < 64 →
    (c * file.nonces.toNat + (task.offset file + k)) * 64 + b < entry.size ∧
    entry.bytes ((c * file.nonces.toNat + (task.offset file + k)) * 64 + b : Nat) =
      scoopByte (BitVec.ofNat 64 file.pid) (BitVec.ofNat 64 (task.sn + k)) c b

/-- The nonces of a task are in its file, under either name. -/
def TaskStored (s : System) (task : HasherTask) : Prop :=
  ∃ index file entry, task.currentWriteTask = ((index : Nat) : Int) ∧
    (setup.plan task.writer)[index]? = some file ∧
    ((s.threads task.writer).state.plotting index = some entry ∨
      (s.threads task.writer).state.final index = some entry) ∧
    NoncesStored file entry task

variable {setup} {s t : System}

/-! ## Nonces -/

/-- The lanes of a hashed task hold its nonces, whatever its block held before. -/
theorem PlotterSetup.Plots.lanesPlotted (plots : setup.Plots) {i index : Nat} {file : PlannedFile}
    (found : (setup.plan i)[index]? = some file) {task : HasherTask} {data : Memory}
    (hashed : System.Hashed setup task data) (positive : 0 < task.nonces)
    (size : task.nonces ≤ toInt32 setup.workSize) (fits : task.nonces ≤ file.nonces) :
    LanesPlotted task.pid task.sn 0 task.nonces.toNat data ∧ task.nonces ≤ 32768 := by
  have listed : ∃ files ∈ setup.plans, file ∈ files := by
    have member := List.mem_of_getElem? found
    unfold PlotterSetup.plan at member
    rw [List.getD_eq_getElem?_getD] at member
    cases here : setup.plans[i]? with
    | none => simp [here] at member
    | some files => exact ⟨files, List.mem_of_getElem? here, by simpa [here] using member⟩
  obtain ⟨files, planned, member⟩ := listed
  have filled := plots.filled files planned file member
  have bounded := plots.supported.bounded
  have whole : task.nonces ≤ setup.workSize := by
    unfold toInt32 at size
    omega
  have few : task.nonces ≤ setup.lanes := (le_min whole fits).trans filled
  obtain ⟨devBuff, prior, rfl⟩ := hashed
  unfold lanes at few
  split at few
  · next small =>
      exact ⟨hashTask_plotted plots.supported devBuff prior task (by omega) (by omega) (.inl small),
        few⟩
  · exact ⟨hashTask_plotted plots.supported devBuff prior task (by omega) (by omega) (.inr few),
      by omega⟩

/-- A file that holds the block of a hashed task has the task's nonces. -/
theorem TaskHolds.noncesStored {file : PlannedFile} {entry : FileEntry} {task : HasherTask}
    {data : Memory} (holds : TaskHolds entry file task data) (pid : task.pid = file.pid)
    (lanes : LanesPlotted task.pid task.sn 0 task.nonces.toNat data) (few : task.nonces ≤ 32768) :
    NoncesStored file entry task := by
  intro c k b scoop nonce byte
  have slot := holds c k scoop nonce
  have inside := slot.inside
  have lane := lanes k (by omega)
  rw [Nat.zero_add, pid] at lane
  refine ⟨by omega, ?_⟩
  rw [← laneByte_plotted (by omega) lane scoop byte, ← slot.bytes b byte]
  exact congrArg _ (by omega)

namespace System

/-- What a writer has written of a task are the task's nonces. -/
theorem Delivered.noncesStored {strict : Prop} (plots : setup.Plots)
    (delivered : Delivered setup strict s) {i : Nat} (writer : i < setup.plans.length)
    {task : HasherTask} {data : Memory}
    (mine : (task, data) ∈ (s.threads i).state.finished ++ (s.threads i).state.current.toList)
    {index : Nat} {file : PlannedFile} (current : task.currentWriteTask = (index : Int))
    (found : (setup.plan i)[index]? = some file) {entry : FileEntry}
    (holds : TaskHolds entry file task data) : NoncesStored file entry task := by
  have issued : task ∈ s.issued i := by
    have held : task ∈ (s.threads i).state.reported ++ (s.threads i).inHand := by
      rcases List.mem_append.mp mine with old | new
      · exact List.mem_append_left _ (List.mem_map_of_mem (f := Prod.fst) old)
      · refine List.mem_append_right _ ?_
        unfold WriterThread.inHand
        rw [Option.mem_toList.mp new]
        exact List.mem_singleton_self _
    exact List.mem_append_left _ (List.mem_append_left _ held)
  have hashed : Hashed setup task data := by
    rcases List.mem_append.mp mine with old | new
    · exact delivered.filled.finished i writer _ old
    · exact (delivered.filled.writing i writer task data (Option.mem_toList.mp new)).2
  have sequence := (delivered.ordered.issued i writer).sequence
  obtain ⟨earlier, later, split⟩ := List.append_of_mem issued
  rw [split] at sequence
  obtain ⟨other, planned, next⟩ := sequence.continues
  obtain rfl : other = index := Int.ofNat_inj.mp (next.current.symm.trans current)
  obtain rfl : planned = file := Option.some.inj (next.found.symm.trans found)
  have before : 0 ≤ issuedNonces other earlier :=
    issuedNonces_nonneg (fun task member => (sequence.of_append _).positive member) other
  have fits := next.fits
  obtain ⟨lanes, few⟩ := plots.lanesPlotted found hashed next.positive
    (delivered.ordered.addressed i task issued).2 (by omega)
  exact holds.noncesStored next.pid lanes few

/-- A file with all its tasks has the PoC2 layout. -/
theorem Delivered.layout {strict : Prop} (valid : setup.Valid) (plots : setup.Plots)
    (delivered : Delivered setup strict s) {i : Nat} (writer : i < setup.plans.length)
    {tasks : List (HasherTask × Memory)} (mine : ∀ pair ∈ tasks,
      pair ∈ (s.threads i).state.finished ++ (s.threads i).state.current.toList)
    (sequence : Sequence (setup.plan i) (tasks.map Prod.fst)) {index : Nat} {file : PlannedFile}
    (found : (setup.plan i)[index]? = some file)
    (complete : issuedNonces index (tasks.map Prod.fst) = file.nonces) {entry : FileEntry}
    (holds : FileHolds entry file index tasks) : PoC2Layout file entry := by
  intro c x b scoop nonce byte
  rw [← complete] at nonce
  obtain ⟨task, member, current, lower, upper⟩ := sequence.covers (valid.plan i) found nonce
  obtain ⟨pair, paired, rfl⟩ := List.mem_map.mp member
  have stored := delivered.noncesStored plots writer (mine pair paired) current found
    (holds pair.1 pair.2 paired current)
  have slot := stored c (x - pair.1.offset file) b scoop (by omega) byte
  rw [nonce_offset lower, Nat.add_sub_cancel' lower] at slot
  exact slot

/-! ## Reports -/

/-- A writer never takes a report back. -/
theorem step_reported {event : SystemEvent} (taken : s.step setup event = some t) (i : Nat)
    {task : HasherTask} (member : task ∈ (s.threads i).state.reported) :
    task ∈ (t.threads i).state.reported := by
  cases step_thread taken i with
  | away _ same => rwa [same]
  | turn _ _ turned =>
      rw [turned]
      exact member
  | @answer _ request _ _ _ answered =>
      rw [answered]
      by_cases quiet : request.Quiet
      · show task ∈ ((s.threads i).state.respond _ request).2.reported
        rw [WriterState.reported, (WriterState.respond_quiet quiet _ _).2]
        exact member
      · unfold WriterRequest.Quiet at quiet
        by_cases popping : request = .pop
        · subst popping
          exact member
        · obtain rfl : request = .report := by tauto
          show task ∈ ((s.threads i).state.finished ++ _).map Prod.fst
          rw [List.map_append]
          exact List.mem_append_left _ member

/-- A new report is of the task a writer had in hand. -/
private theorem step_reports {event : SystemEvent} (taken : s.step setup event = some t)
    {report : HasherTask} (member : report ∈ t.reports) : report ∈ s.reports ∨
      ∃ i, i < setup.plans.length ∧ report ∈ (s.threads i).inHand ∧
        report ∈ (t.threads i).state.reported := by
  cases step_move taken with
  | receive place reported =>
      rw [reported]
      exact .inl (List.mem_cons_of_mem _ member)
  | close =>
      unfold close at member
      split at member <;> exact .inl member
  | @report i outcome next inside asks =>
      rcases List.mem_append.mp member with old | new
      · exact .inl old
      · refine .inr ⟨i, inside, new, ?_⟩
        simp only [answer, Function.update_self]
        show report ∈ ((s.threads i).state.finished ++
          (s.threads i).state.current.toList).map Prod.fst
        rw [List.map_append]
        refine List.mem_append_right _ ?_
        unfold WriterThread.inHand at new
        cases current : (s.threads i).state.current with
        | none => simp [current] at new
        | some pair => simpa [current] using new
  | _ => exact .inl member

/-- A report in the queue is of a task its writer has reported. -/
theorem reaches_reported {strict : Prop} (valid : setup.Valid) (plots : setup.bench = 0)
    (run : setup.machine.Reaches (Undisturbed strict) s) :
    ∀ report ∈ s.reports, report.writer < setup.plans.length ∧
      report ∈ (s.threads report.writer).state.reported := by
  refine Machine.Reaches.invariant (fun s => ∀ report ∈ s.reports,
    report.writer < setup.plans.length ∧ report ∈ (s.threads report.writer).state.reported)
    (fun {s} start => ?_) (fun {s event t} reached held _ taken report member => ?_) run
  · rw [Start.reports start]
    exact nofun
  · rcases step_reports taken member with old | ⟨i, inside, inHand, reported⟩
    · obtain ⟨inside, reported⟩ := held report old
      exact ⟨inside, step_reported taken _ reported⟩
    · have delivered := reaches_delivered valid plots reached
      have issued : report ∈ s.issued i :=
        List.mem_append_left _ (List.mem_append_left _ (List.mem_append_right _ inHand))
      rw [(delivered.ordered.addressed i report issued).1]
      exact ⟨inside, reported⟩

end System

/-! ## On disk -/

/-- When all nonces are counted nothing is left to make and nothing in flight. -/
theorem Balanced.all_counted (valid : setup.Valid) {d : Dispatcher} {flight : List HasherTask}
    (balanced : Balanced setup d flight)
    (finished : (toUInt64 d.finishedNonces : Int) = setup.totalNonces) :
    d.remaining setup = 0 ∧ flight = [] := by
  have total := valid.total
  have remaining := balanced.remaining_nonneg
  have reported := balanced.reported
  have flying := balanced.flying_nonneg
  rw [balanced.finished] at finished
  have exact : setup.totalNonces - d.remaining setup - flyingNonces flight = setup.totalNonces := by
    unfold toUInt64 toInt32 at finished
    omega
  have nothing : flyingNonces flight = 0 := by omega
  refine ⟨by omega, List.eq_nil_iff_forall_not_mem.mpr fun task member => ?_⟩
  have zero := List.all_zero_of_le_zero_le_of_sum_eq_zero balanced.nonces_nonneg nothing
    (List.mem_map_of_mem member)
  have some_nonces := (balanced.known task member).positive
  omega

namespace System

variable {strict : Prop}

/-- What a writer with `strict` has reported is in its files. -/
theorem Delivered.stored (valid : setup.Valid) (plots : setup.Plots)
    (delivered : Delivered setup True s) {task : HasherTask} (writer : task.writer < setup.plans.length)
    (reported : task ∈ (s.threads task.writer).state.reported) : TaskStored setup s task := by
  have safe := (delivered.sound _ writer).safe (valid.plan _) trivial
  have series := (delivered.ordered.issued _ writer).sequence
  unfold issued at series
  rw [List.append_assoc, List.append_assoc] at series
  have sequence : Sequence (setup.plan task.writer) (s.threads task.writer).state.reported :=
    series.of_append _
  obtain ⟨earlier, later, split⟩ := List.append_of_mem reported
  have continued := sequence
  rw [split] at continued
  obtain ⟨index, file, next⟩ := continued.continues
  have some_issued := issuedNonces_pos (fun _ => sequence.positive) reported next.current
  obtain ⟨entry, place, holds⟩ := safe.stored index file next.found some_issued
  obtain ⟨⟨_, data⟩, listed, rfl⟩ := List.mem_map.mp reported
  exact ⟨index, file, entry, next.current, next.found, place,
    delivered.noncesStored plots writer (List.mem_append_left _ listed) next.current next.found
      (holds _ data listed next.current)⟩

/-- When nothing is in flight a writer's tasks are all reported. -/
theorem issued_of_empty (empty : s.inFlight setup = []) {i : Nat}
    (writer : i < setup.plans.length) : s.issued i = (s.threads i).state.reported ∧
      (s.threads i).inHand = [] := by
  unfold inFlight at empty
  obtain ⟨⟨⟨hasherQueue, hasher⟩, shared⟩, _⟩ := by simpa only [List.append_eq_nil_iff] using empty
  have mine : s.queues i ++ (s.threads i).inHand = [] := by
    refine List.eq_nil_iff_forall_not_mem.mpr fun task member => ?_
    have anywhere : task ∈ shares setup.plans.length fun j => s.queues j ++ (s.threads j).inHand :=
      mem_shares.mpr ⟨i, writer, member⟩
    rw [shared] at anywhere
    cases anywhere
  obtain ⟨queue, inHand⟩ := List.append_eq_nil_iff.mp mine
  refine ⟨?_, inHand⟩
  unfold issued
  rw [queue, inHand, hasher, hasherQueue]
  simp only [List.append_nil, List.filter_nil]

/-- When all nonces are counted each file has all its nonces issued. -/
theorem Ordered.exhausted (ordered : Ordered setup s) {flight : List HasherTask}
    (balanced : Balanced setup s.dispatcher flight) (remaining : s.dispatcher.remaining setup = 0)
    {i : Nat} (writer : i < setup.plans.length) {index : Nat} {file : PlannedFile}
    (found : (setup.plan i)[index]? = some file) :
    issuedNonces index (s.issued i) = file.nonces := by
  obtain ⟨task, here, _, left, _⟩ := (ordered.issued i writer).counters index file found
  have member : task.nonces ∈ shares setup.plans.length fun j =>
      (s.dispatcher.writerTasks j).map WriterTask.nonces :=
    mem_shares.mpr ⟨i, writer, List.mem_map_of_mem (List.mem_of_getElem? here)⟩
  have zero := List.all_zero_of_le_zero_le_of_sum_eq_zero balanced.counters_nonneg
    remaining member
  omega

/-- When all nonces are counted each file is there under its final name, with the
PoC2 layout. -/
theorem Delivered.final (valid : setup.Valid) (plots : setup.Plots)
    (delivered : Delivered setup True s)
    (finished : (toUInt64 s.dispatcher.finishedNonces : Int) = setup.totalNonces) {i : Nat}
    (writer : i < setup.plans.length) {index : Nat} {file : PlannedFile}
    (found : (setup.plan i)[index]? = some file) :
    ∃ entry, (s.threads i).state.final index = some entry ∧ PoC2Layout file entry := by
  obtain ⟨remaining, empty⟩ := delivered.balanced.all_counted valid finished
  obtain ⟨issued, inHand⟩ := issued_of_empty empty writer
  have exhausted := delivered.ordered.exhausted delivered.balanced remaining writer found
  rw [issued] at exhausted
  have sequence := (delivered.ordered.issued i writer).sequence
  rw [issued] at sequence
  have safe := (delivered.sound i writer).safe (valid.plan i) trivial
  obtain ⟨entry, final, holds⟩ := safe.complete trivial index file found exhausted
  exact ⟨entry, final, delivered.layout valid plots writer
    (fun _ member => List.mem_append_left _ member) sequence found exhausted holds⟩

end System

end HyperPlotter.Pipeline

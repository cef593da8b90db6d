import HyperPlotter.Pipeline.Stop

/-!
# What the dispatcher counts

The dispatcher adds up the nonces of the tasks the writers report and declares
the plotting finished when it has all of them. The sum says what is on disk in
runs where no writer is stopped in the middle of a task and no rename fails.
-/

namespace HyperPlotter.Pipeline

open Foundation Poc Interaction

variable {setup : PlotterSetup} {s t : System}

variable (setup) in
/-- What may be counted is stored, and when all is counted every file is there
under its final name with its nonces. -/
structure FinishedOnDisk (s : System) : Prop where
  counted : ∀ report ∈ s.reports, TaskStored setup s report
  complete : (toUInt64 s.dispatcher.finishedNonces : Int) = setup.totalNonces →
    ∀ i, i < setup.plans.length → ∀ index file, (setup.plan i)[index]? = some file →
      ∃ entry, (s.threads i).state.final index = some entry ∧ PoC2Layout file entry

/-- In a plotting run where no writer reads a set stop flag in the middle of a task and
no rename fails, the dispatcher counts what is on disk. -/
theorem undisturbed_finishedOnDisk (valid : setup.Valid) (plots : setup.Plots)
    (run : setup.machine.Reaches (System.Undisturbed True) s) : FinishedOnDisk setup s := by
  have delivered := System.reaches_delivered valid plots.bench run
  constructor
  · intro report member
    obtain ⟨writer, reported⟩ := System.reaches_reported valid plots.bench run report member
    exact delivered.stored valid plots writer reported
  · intro finished i writer index file found
    exact delivered.final valid plots finished writer found

/-- The count changes only when a report is taken in. -/
theorem System.step_finishedNonces {event : SystemEvent} (taken : s.step setup event = some t) :
    t.dispatcher.finishedNonces = s.dispatcher.finishedNonces ∨ s.reports ≠ [] := by
  have gate : ∀ d : Dispatcher, (d.gate setup).finishedNonces = d.finishedNonces := by
    intro d
    unfold Dispatcher.gate
    split
    · rfl
    · split
      · rfl
      · split <;> rfl
  cases System.step_move taken with
  | timeout => exact .inl (gate s.dispatcher)
  | receive _ reported => exact .inr (by simp [reported])
  | dispatch => exact .inl ((System.dispatch_ends s.dispatcher _ _ _).2)
  | close =>
      unfold System.close
      split <;> exact .inl rfl
  | _ => exact .inl rfl

/-- The task is reported with its nonces on disk, then counted; then its file is there
under the final name. -/
theorem undisturbed_finishedOnDisk_oneFile : ∃ (run : oneFile.machine.Endless) (m n : Nat)
    (report : HasherTask) (entry : FileEntry), m < n ∧
      report ∈ (run.state m).reports ∧ TaskStored oneFile (run.state m) report ∧
      (toUInt64 (run.state n).dispatcher.finishedNonces : Int) = oneFile.totalNonces ∧
      ((run.state n).threads 0).state.final 0 = some entry ∧ PoC2Layout ⟨1, 0, 8⟩ entry := by
  have alone : System.LeftAlone (System.roundRobin oneFile) :=
    System.roundRobin_leftAlone (by decide)
  have reached : ∀ n, oneFile.machine.Reaches (System.Undisturbed True)
      ((System.roundRobin oneFile).state n) := fun n => Machine.Endless.reaches fun m _ event happens =>
    alone.undisturbed oneFile_valid System.roundRobin_renames m happens
  obtain ⟨n, _, declared⟩ := (alone.completes oneFile_valid (by decide)).exists
  obtain ⟨m, event, before, happens, uncounted, counted⟩ :=
    (System.roundRobin oneFile).exists_event
      (fun s => (toUInt64 s.dispatcher.finishedNonces : Int) = oneFile.totalNonces) (n := n)
      (by decide) declared.counted
  rcases System.step_finishedNonces ((System.roundRobin oneFile).moves m event happens) with
    same | reports
  · exact absurd (same ▸ counted) uncounted
  · obtain ⟨report, rest, queued⟩ := List.exists_cons_of_ne_nil reports
    have member : report ∈ ((System.roundRobin oneFile).state m).reports := by simp [queued]
    have stored := (undisturbed_finishedOnDisk oneFile_valid oneFile_plots (reached m)).counted
      report member
    obtain ⟨entry, there, layout⟩ :=
      (undisturbed_finishedOnDisk oneFile_valid oneFile_plots (reached n)).complete
        declared.counted 0 (by decide) 0 ⟨1, 0, 8⟩ rfl
    exact ⟨_, m, n, report, entry, before, member, stored, declared.counted, there, layout⟩

/-! ## A stop and a rename that fails -/

/-- The dispatcher waits for a report when the signal comes. The writer writes
nothing, cannot rename its file, and reports. -/
def reportedUnwritten : List SystemEvent :=
  taskQueued ++ [.poll] ++ List.replicate 9 (.writer 0 ⟨true, 0, fun _ => 0⟩) ++ [.interrupt] ++
    List.replicate 3 (.writer 0 ⟨true, 0, fun _ => 0⟩) ++
    List.replicate 2 (.writer 0 ⟨false, 0, fun _ => 0⟩) ++ [.receive false]

/-- All nonces are counted without a file. -/
private theorem reportedUnwritten_run :
    ∃ s, oneFile.machine.run (.idle oneFile) reportedUnwritten = some s ∧
      s.dispatcher.finishedNonces = 8 ∧ s.dispatcher.declared = true ∧
      (s.threads 0).state.final 0 = none :=
  ⟨_, rfl, rfl, rfl, rfl⟩

/-- `Plotting finished!!!` can be declared when there is no file. -/
theorem not_finishedOnDisk_stopped : ∃ s, oneFile.machine.Reachable s ∧
    s.dispatcher.declared = true ∧ ¬FinishedOnDisk oneFile s := by
  obtain ⟨s, runs, finished, declared, absent⟩ := reportedUnwritten_run
  refine ⟨s, Machine.Reaches.run (.start (System.idle_start oneFile)) _ runs, declared,
    fun onDisk => ?_⟩
  have all : (toUInt64 s.dispatcher.finishedNonces : Int) = oneFile.totalNonces := by
    rw [finished]
    rfl
  obtain ⟨entry, present, _⟩ := onDisk.complete all 0 (by decide) 0 ⟨1, 0, 8⟩ rfl
  rw [absent] at present
  cases present

end HyperPlotter.Pipeline

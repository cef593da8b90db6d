import HyperPlotter.Pipeline.Finals
import HyperPlotter.Pipeline.Returns

/-!
# What a final name means

A writer renames a `.plotting` file when `submit_nonces` says it is complete.
`perform_write_plot` answers true as well when it was stopped half way, so the
file only holds its nonces in runs where no such stop is read.
-/

namespace HyperPlotter.Pipeline

open Foundation Poc Interaction

variable {setup : PlotterSetup}

variable (setup) in
/-- A file about to be renamed has the scoops of all its nonces in their slots. -/
def RenamesWhole (s : System) : Prop :=
  ∀ i, i < setup.plans.length → ∀ index next, (s.threads i).program = .ask (.rename index) next →
    ∃ file entry, (setup.plan i)[index]? = some file ∧
      (s.threads i).state.plotting index = some entry ∧ PoC2Layout file entry

/-- In a plotting run where no writer reads a set stop flag in `perform_write_plot`
with data left to write, every file about to be renamed has its nonces. -/
theorem undisturbed_renamesWhole (valid : setup.Valid) (plots : setup.Plots) {s : System}
    (run : setup.machine.Reaches (System.Undisturbed False) s) : RenamesWhole setup s := by
  intro i writer index next asks
  have delivered := System.reaches_delivered valid plots.bench run
  obtain ⟨file, entry, found, plotting, sequence, complete, holds⟩ :=
    ((delivered.sound i writer).guarded asks).rename index rfl
  exact ⟨file, entry, found, plotting,
    delivered.layout valid plots writer (fun _ member => member) sequence found complete holds⟩

/-- A run that is left alone comes to the rename of every planned file. -/
theorem System.LeftAlone.exists_rename {run : setup.machine.Endless}
    (alone : System.LeftAlone run) (valid : setup.Valid) (plots : setup.Plots)
    (small : setup.totalNonces < 2147483648) (renames : System.RenamesSucceed run) {i : Nat}
    (inside : i < setup.plans.length) {index : Nat} {file : PlannedFile}
    (found : (setup.plan i)[index]? = some file)
    (absent : ((run.state 0).threads i).state.final index = none) :
    ∃ n next, ((run.state n).threads i).program = .ask (.rename index) next := by
  obtain ⟨last, _, declared⟩ := (alone.completes valid small).exists
  obtain ⟨entry, there, _⟩ := alone.final valid plots renames declared inside found
  obtain ⟨n, event, _, happens, before, after⟩ := run.exists_event
    (fun s => (s.threads i).state.final index ≠ none) (by simp [absent]) (n := last) (by simp [there])
  rcases System.step_final (run.moves n event happens) i index with same | ⟨next, _, asks, _⟩
  · exact absurd (same ▸ after) before
  · exact ⟨n, next, asks⟩

/-- The signal comes when all is written and the writer is about to rename its file. -/
theorem undisturbed_renamesWhole_oneFile : ∃ (s : System) (next : _) (entry : FileEntry),
    oneFile.machine.Reachable s ∧ s.stopped = true ∧ (s.threads 0).program = .ask (.rename 0) next ∧
    (s.threads 0).state.plotting 0 = some entry ∧ PoC2Layout ⟨1, 0, 8⟩ entry := by
  have alone : System.LeftAlone (System.roundRobin oneFile) :=
    System.roundRobin_leftAlone (by decide)
  have planned : (oneFile.plan 0)[0]? = some ⟨1, 0, 8⟩ := rfl
  obtain ⟨n, next, asks⟩ := alone.exists_rename oneFile_valid oneFile_plots (by decide)
    System.roundRobin_renames (by decide) planned rfl
  have reached : oneFile.machine.Reaches (System.Undisturbed False)
      ((System.roundRobin oneFile).state n) := Machine.Endless.reaches fun m _ event happens =>
    System.Undisturbed.weaken (alone.undisturbed oneFile_valid System.roundRobin_renames m happens)
  have taken : oneFile.machine.step ((System.roundRobin oneFile).state n) .interrupt =
      some { (System.roundRobin oneFile).state n with stopped := true } := rfl
  have undisturbed : System.Undisturbed False ((System.roundRobin oneFile).state n) .interrupt :=
    trivial
  have interrupted : oneFile.machine.Reaches (System.Undisturbed False)
      { (System.roundRobin oneFile).state n with stopped := true } :=
    .step reached undisturbed taken
  obtain ⟨file, entry, found, plotting, layout⟩ :=
    undisturbed_renamesWhole oneFile_valid oneFile_plots interrupted 0 (by decide) 0 next asks
  obtain rfl : file = ⟨1, 0, 8⟩ := (Option.some.inj found).symm
  exact ⟨_, next, entry, interrupted.mono fun _ _ _ => trivial, rfl, asks, plotting, layout⟩

/-! ## A stop before the first write -/

/-- The writer takes the task and allocates its file, which holds `content`. The
signal comes before the first scoop. -/
def stoppedWrite (content : Memory) : List SystemEvent :=
  taskQueued ++ List.replicate 9 (.writer 0 ⟨true, 0, content⟩) ++ [.interrupt] ++
    List.replicate 3 (.writer 0 ⟨true, 0, content⟩)

/-- The writer is about to rename a file nothing was written to. -/
private theorem stoppedWrite_run (content : Memory) :
    ∃ s, oneFile.machine.run (.idle oneFile) (stoppedWrite content) = some s ∧
      (∃ next, (s.threads 0).program = .ask (.rename 0) next) ∧
      ∃ entry, (s.threads 0).state.plotting 0 = some entry ∧ entry.bytes 0 = content 0 :=
  ⟨_, rfl, ⟨_, rfl⟩, _, rfl, rfl⟩

/-- A stop between the outer poll and the first scoop lets a writer rename a file
it has not written to. -/
theorem not_renamesWhole_stopped :
    ∃ s, oneFile.machine.Reachable s ∧ ¬RenamesWhole oneFile s := by
  obtain ⟨s, runs, ⟨next, asks⟩, entry, plotting, byte⟩ := stoppedWrite_run
    fun _ => scoopByte (BitVec.ofNat 64 1) (BitVec.ofNat 64 0) 0 0 + 1
  refine ⟨s, Machine.Reaches.run (.start (System.idle_start oneFile)) _ runs, fun renames => ?_⟩
  obtain ⟨file, entry', found, here, layout⟩ := renames 0 (by decide) 0 next asks
  obtain rfl : entry = entry' := Option.some.inj (plotting.symm.trans here)
  obtain rfl : file = ⟨1, 0, 8⟩ := (Option.some.inj found).symm
  have first := (layout 0 0 0 (by decide) (by decide) (by decide)).2
  have read : entry.bytes 0 = scoopByte (BitVec.ofNat 64 1) (BitVec.ofNat 64 0) 0 0 := first
  rw [byte] at read
  generalize scoopByte (BitVec.ofNat 64 1) (BitVec.ofNat 64 0) 0 0 = b at read
  revert b
  decide

end HyperPlotter.Pipeline

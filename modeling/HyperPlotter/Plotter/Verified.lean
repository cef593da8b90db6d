import HyperPlotter.Plotter.Sessions
import HyperPlotter.Verify.Complete

/-!
# Plotted files are verified

What a session that is left alone leaves in the folders is what the verifier looks
for: every planned file is there under its name, has the size of its nonces, and is
reported `GOOD!`.
-/

namespace HyperPlotter.Plotter

open Foundation Poc Pipeline Plan Verify Filter

variable {options : Options} {drives : Text → Drive} {plan : Planner} {file : PlannedFile}
  {before : Folders} {driver : Text}

/-- No planned file is there already and longer than its nonces. -/
def Folders.FitFor (folders : Folders) (plan : Planner) : Prop :=
  ∀ driver file entry, file ∈ plan.files driver →
    folders driver (plottingName file) = some entry ∨ folders driver (fileName file) = some entry →
    entry.size ≤ file.bytes

/-- Nothing is too long in empty folders. -/
theorem Folders.empty_fitFor (plan : Planner) : Folders.empty.FitFor plan := by
  rintro _ _ _ _ (there | there)
  · cases there
  · cases there

/-- A writer has the files of a driver. -/
theorem exists_driver (planned : Planner.plan options.request drives = some plan) {i : Nat}
    (inside : i < (options.setup plan).plans.length) : ∃ driver, writerOf plan driver = i ∧
      (options.setup plan).plan i = plan.files driver := by
  have writer : i < plan.visited.length := by
    have count : (options.setup plan).plans.length = plan.visited.length := List.length_map ..
    omega
  have once := (reachable_writers (Planner.plan_reachable planned)).once
  have here : writerOf plan plan.visited[i] = i := once.idxOf_getElem i writer
  have files := (setup_plan options (List.getElem_mem writer)).2
  rw [here] at files
  exact ⟨_, here, files⟩

/-- The writers' files are no longer than their nonces when those in the folders are. -/
theorem Shows.withinSizes (planned : Planner.plan options.request drives = some plan) {s : System}
    (shows : Shows plan s before) (fit : before.FitFor plan) :
    ∀ i, i < (options.setup plan).plans.length →
      WithinSizes ((options.setup plan).plan i) (s.threads i).state := by
  intro i inside index file entry found there
  obtain ⟨driver, here, files⟩ := exists_driver planned inside
  rw [files] at found
  have final := shows.final driver index file found
  have plotting := shows.plotting driver index file found
  rw [here] at final plotting
  refine fit driver file entry (List.mem_of_getElem? found) ?_
  rw [final, plotting]
  exact there

/-- A file with the layout that is not too long has the size of its nonces. -/
theorem size_of_layout {entry : FileEntry} (layout : PoC2Layout file entry)
    (positive : 0 < file.nonces) (short : entry.size ≤ file.bytes) : entry.size = file.bytes := by
  have last := (layout 4095 (file.nonces.toNat - 1) 63 (by decide) (by omega) (by decide)).1
  unfold PlannedFile.bytes at short ⊢
  omega

/-- The verifier reports a planned file with the layout. -/
theorem good_of_layout (planned : Planner.plan options.request drives = some plan)
    (member : file ∈ plan.files driver) {entry : FileEntry} (layout : PoC2Layout file entry)
    (size : entry.size = file.bytes) {v : Verifier} (supported : v.gpu.Supported)
    (smooth : v.Smooth) (forward : 0 ≤ toInt32 v.step) :
    ∃ rounds t, runPlotVerify v (fileName file) (some entry) rounds = (.good, t) ∧
      ∀ read ∈ t.reads, InFile file.nonces.toNat v.gpu.globalWorkSize read := by
  obtain ⟨pair, listed, rfl⟩ := List.mem_map.mp member
  have pushed := List.mem_of_mem_filter listed
  have reached := Planner.plan_reachable planned
  have sized := (Planner.reachable_planning reached).sizes pair pushed
  obtain ⟨positive, aligned, _, small⟩ := sized
  have pid : pair.2.pid < 18446744073709551616 := by
    rw [Planner.reachable_pid reached pair pushed]
    exact options.request.plotId_lt
  have reads : ReadsAs (fileName pair.2) pair.2.pid pair.2.sn pair.2.nonces.toNat :=
    readsAs_plotName pid ((reachable_writers reached).starts pair pushed) (by omega)
  obtain ⟨t, good, inFile⟩ := runPlotVerify_good supported smooth forward reads (by omega) size
    (by omega) fun x covered c b scoop byte => by
      obtain ⟨k, _, inside, _⟩ := covered
      exact (layout c x b scoop (by omega) byte).2
  exact ⟨_, t, good, inFile⟩

/-- A session that is left alone with folders where no planned file is too long ends
with every planned file whole in its folder. -/
theorem leftAlone_plots (started : options.startUp drives = some plan) (plots : options.Plots)
    (small : (options.setup plan).totalNonces < 2147483648)
    {run : (options.setup plan).machine.Endless} (alone : System.LeftAlone run)
    (renames : System.RenamesSucceed run) (opened : Shows plan (run.state 0) before)
    (fit : before.FitFor plan) : ∀ᶠ n in atTop,
      System.ShutDown (options.setup plan) (run.state n) ∧
      ∀ driver, ∀ file ∈ plan.files driver, ∃ entry,
        leave plan (run.state n) before driver (fileName file) = some entry ∧
        entry.size = file.bytes ∧ PoC2Layout file entry := by
  have planned := (Options.startUp_eq_some.mp started).1
  have valid := Options.startUp_valid started (by omega)
  filter_upwards [alone.completes valid small] with n ⟨shutDown, declared⟩
  refine ⟨shutDown, fun driver file member => ?_⟩
  have undisturbed : ((options.setup plan).machine.startingAt (run.state 0)).Reaches
      (System.Undisturbed True) (run.state n) :=
    Machine.Endless.reaches_startingAt fun m _ event happens =>
      alone.undisturbed valid renames m happens
  have sizes := System.reaches_withinSizes valid plots.bench run.starts
    (opened.withinSizes planned fit) undisturbed
  obtain ⟨known, positive⟩ := files_positive planned member
  obtain ⟨inside, files⟩ := setup_plan options known
  obtain ⟨index, found⟩ := List.getElem?_of_mem member
  have mine := found
  rw [← files] at mine
  obtain ⟨entry, there, layout⟩ := alone.final valid (plots.setup plan) renames declared inside mine
  have size := size_of_layout layout positive (sizes _ inside index file entry mine (.inr there))
  refine ⟨entry, ?_, size, layout⟩
  rw [(leave_shows planned (run.state n) before).final driver index file found, there]

/-- Every verifier whose operations succeed reports these files as good, and reads in
them only. -/
theorem plots_verify (started : options.startUp drives = some plan) (plots : options.Plots)
    (small : (options.setup plan).totalNonces < 2147483648)
    {run : (options.setup plan).machine.Endless} (alone : System.LeftAlone run)
    (renames : System.RenamesSucceed run) (opened : Shows plan (run.state 0) before)
    (fit : before.FitFor plan) : ∀ᶠ n in atTop,
      System.ShutDown (options.setup plan) (run.state n) ∧
      ∀ driver, ∀ file ∈ plan.files driver, ∃ entry,
        leave plan (run.state n) before driver (fileName file) = some entry ∧
        ∀ v : Verifier, v.gpu.Supported → v.Smooth → 0 ≤ toInt32 v.step →
          ∃ rounds t, runPlotVerify v (fileName file) (some entry) rounds = (.good, t) ∧
            ∀ read ∈ t.reads, InFile file.nonces.toNat v.gpu.globalWorkSize read := by
  have planned := (Options.startUp_eq_some.mp started).1
  filter_upwards [leftAlone_plots started plots small alone renames opened fit] with n plotted
  obtain ⟨shutDown, plotted⟩ := plotted
  refine ⟨shutDown, fun driver file member => ?_⟩
  obtain ⟨entry, there, size, layout⟩ := plotted driver file member
  exact ⟨entry, there, fun v supported smooth forward =>
    good_of_layout planned member layout size supported smooth forward⟩

/-- One file of eight nonces. -/
theorem plots_verify_oneDriver : ∃ entry, ∀ v : Verifier, v.gpu.Supported → v.Smooth →
    0 ≤ toInt32 v.step → ∃ rounds t, runPlotVerify v (plotName 1 0 8) (some entry) rounds =
      (.good, t) := by
  obtain ⟨plan, started, setup, _, files⟩ := oneDriver_started
  have alone : System.LeftAlone (System.roundRobin (oneDriver.setup plan)) :=
    System.roundRobin_leftAlone (by rw [setup]; decide)
  have folders : Shows plan (.idle (oneDriver.setup plan)) fun _ _ => none :=
    ⟨fun _ _ _ _ => rfl, fun _ _ _ _ => rfl⟩
  have fit : Folders.FitFor (fun _ _ => none) plan := by
    intro driver file entry _ there
    simp at there
  have verified := plots_verify started oneDriver_plots (by rw [setup]; decide) alone
    System.roundRobin_renames folders fit
  obtain ⟨n, _, verifies⟩ := verified.exists
  obtain ⟨entry, _, good⟩ := verifies "a".toList ⟨1, 0, 8⟩ (by rw [files]; exact List.mem_singleton_self _)
  refine ⟨entry, fun v supported smooth forward => ?_⟩
  obtain ⟨rounds, t, reported, _⟩ := good v supported smooth forward
  exact ⟨rounds, t, reported⟩

end HyperPlotter.Plotter

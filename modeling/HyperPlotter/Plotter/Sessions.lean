import HyperPlotter.Pipeline.Finals
import HyperPlotter.Pipeline.Returns
import HyperPlotter.Plan.Names
import HyperPlotter.Plan.Volumes
import HyperPlotter.Plotter.StartUp

/-!
# Sessions over the drivers' folders

A session starts with the folders as they are, plans, plots, and is killed at any
moment or ends. The next one starts with what it leaves. Whatever happens, a file
under the name of a plot was there before or is a whole plot.
-/

namespace HyperPlotter.Plotter

open Foundation Poc Pipeline Plan Filter

/-- The folders of the drivers: the file under each name. -/
abbrev Folders := Text → Text → Option FileEntry

/-- No file is there. -/
def Folders.empty : Folders := fun _ _ => none

/-- The last component of `plot_file`. -/
def fileName (file : PlannedFile) : Text := plotName file.pid file.sn file.nonces.toNat

/-- A plot of these numbers is under its name. -/
def Folders.HoldsPlot (folders : Folders) (driver : Text) (pid sn nonces : Nat) : Prop :=
  ∃ entry, folders driver (plotName pid sn nonces) = some entry ∧
    PoC2Layout ⟨pid, sn, nonces⟩ entry

/-! ## The files of the writers -/

/-- The writer of a driver. -/
def writerOf (plan : Planner) (driver : Text) : Nat := plan.visited.idxOf driver

/-- The folders have the planned files as the writers have them. -/
structure Shows (plan : Planner) (s : System) (folders : Folders) : Prop where
  final : ∀ driver index file, (plan.files driver)[index]? = some file →
    folders driver (fileName file) = (s.threads (writerOf plan driver)).state.final index
  plotting : ∀ driver index file, (plan.files driver)[index]? = some file →
    folders driver (plottingName file) = (s.threads (writerOf plan driver)).state.plotting index

/-- The writers find empty folders. -/
theorem idle_shows (setup : PlotterSetup) (plan : Planner) :
    Shows plan (.idle setup) Folders.empty :=
  ⟨fun _ _ _ _ => rfl, fun _ _ _ _ => rfl⟩

/-- The folders with the planned files as the writers have them. -/
def leave (plan : Planner) (s : System) (before : Folders) : Folders := fun driver name =>
  match (plan.files driver).findIdx? (fileName · = name) with
  | some index => (s.threads (writerOf plan driver)).state.final index
  | none =>
    match (plan.files driver).findIdx? (plottingName · = name) with
    | some index => (s.threads (writerOf plan driver)).state.plotting index
    | none => before driver name

section

variable {options : Options} {drives : Text → Drive} {plan : Planner} {driver : Text}
  {file : PlannedFile} {s : System} {before : Folders}

/-- A name with an extension is not that of a plot. -/
theorem plottingName_ne (file : PlannedFile) (pid sn nonces : Nat) :
    plottingName file ≠ plotName pid sn nonces := by
  intro same
  have dot : '.' ∈ plottingName file := List.mem_append_right _ (by decide)
  rw [same] at dot
  exact dot_notMem_plotName pid sn nonces dot

/-- The first element with a value is the one, when values are distinct. -/
private theorem findIdx?_of_distinct {α β : Type} [DecidableEq β] {f : α → β} {l : List α}
    (distinct : (l.map f).Nodup) {k : Nat} {a : α} (found : l[k]? = some a) :
    l.findIdx? (f · = f a) = some k := by
  obtain ⟨inside, here⟩ := List.getElem?_eq_some_iff.mp found
  rw [List.findIdx?_eq_some_iff_getElem]
  refine ⟨inside, by simp [here], fun j earlier same => ?_⟩
  have before : j < l.length := Nat.lt_trans earlier inside
  have equal : (l.map f)[j]? = (l.map f)[k]? := by
    rw [List.getElem?_map, List.getElem?_map, found, List.getElem?_eq_getElem before]
    exact congrArg some (of_decide_eq_true same)
  have one := (List.getElem?_inj (by rwa [List.length_map]) distinct).mp equal
  omega

/-- What is planned for a driver is a file with nonces. -/
theorem files_positive (planned : Planner.plan options.request drives = some plan)
    (member : file ∈ plan.files driver) : driver ∈ plan.visited ∧ 0 < file.nonces := by
  obtain ⟨pair, listed, rfl⟩ := List.mem_map.mp member
  obtain ⟨pushed, own⟩ := List.mem_filter.mp listed
  obtain rfl := of_decide_eq_true own
  have planning := Planner.reachable_planning (Planner.plan_reachable planned)
  exact ⟨planning.writers pair pushed, (planning.sizes pair pushed).positive⟩

/-- The planned files of a driver have different names. -/
theorem fileNames_nodup (planned : Planner.plan options.request drives = some plan)
    (driver : Text) : ((plan.files driver).map fileName).Nodup := by
  refine List.Nodup.map_on ?_ (Planner.plan_files_nodup planned driver)
  intro first member second member' same
  obtain ⟨pid, sn, nonces⟩ := plotName_inj.mp same
  have positive := (files_positive planned member).2
  have positive' := (files_positive planned member').2
  cases first
  cases second
  simp only [PlannedFile.mk.injEq] at *
  omega

private theorem plottingNames_nodup (planned : Planner.plan options.request drives = some plan)
    (driver : Text) : ((plan.files driver).map plottingName).Nodup := by
  have names := fileNames_nodup planned driver
  have appended : (plan.files driver).map plottingName =
      ((plan.files driver).map fileName).map (· ++ ".plotting".toList) := by
    rw [List.map_map]
    rfl
  rw [appended]
  exact names.map fun _ _ same => List.append_cancel_right same

/-- What a session leaves are the writers' files. -/
theorem leave_shows (planned : Planner.plan options.request drives = some plan) (s : System)
    (before : Folders) : Shows plan s (leave plan s before) := by
  constructor
  · intro driver index file found
    unfold leave
    rw [findIdx?_of_distinct (fileNames_nodup planned driver) found]
  · intro driver index file found
    unfold leave
    have other : (plan.files driver).findIdx? (fileName · = plottingName file) = none := by
      rw [List.findIdx?_eq_none_iff]
      exact fun mine _ => decide_eq_false (plottingName_ne file _ _ _).symm
    rw [other, findIdx?_of_distinct (plottingNames_nodup planned driver) found]

/-- Other files are left alone. -/
theorem leave_other {pid sn nonces : Nat}
    (other : ∀ file ∈ plan.files driver, fileName file ≠ plotName pid sn nonces) :
    leave plan s before driver (plotName pid sn nonces) =
      before driver (plotName pid sn nonces) := by
  have final : (plan.files driver).findIdx? (fileName · = plotName pid sn nonces) = none := by
    rw [List.findIdx?_eq_none_iff]
    exact fun file member => decide_eq_false (other file member)
  have plotting : (plan.files driver).findIdx? (plottingName · = plotName pid sn nonces) = none := by
    rw [List.findIdx?_eq_none_iff]
    exact fun file _ => decide_eq_false (plottingName_ne file pid sn nonces)
  unfold leave
  rw [final, plotting]

variable (options) in
/-- The files of a driver's writer. -/
theorem setup_plan (known : driver ∈ plan.visited) :
    writerOf plan driver < (options.setup plan).plans.length ∧
      (options.setup plan).plan (writerOf plan driver) = plan.files driver := by
  have inside : plan.visited.idxOf driver < plan.visited.length := List.idxOf_lt_length_of_mem known
  refine ⟨?_, ?_⟩
  · show _ < (plan.visited.map plan.files).length
    rwa [List.length_map]
  · show (plan.visited.map plan.files).getD (plan.visited.idxOf driver) [] = _
    rw [List.getD_eq_getElem?_getD, List.getElem?_map, List.getElem?_eq_getElem inside]
    simp

end

/-! ## Sessions -/

/-- The device plots, and a block holds the lanes of a hash task. -/
structure Options.Plots (options : Options) : Prop where
  bench : options.bench = 0
  supported : options.gpu.Supported
  lanes : options.gpu.globalWorkSize * bufferFactor options.buffers options.gpu.globalWorkSize ≤
    32768
  filled : options.gpu.globalWorkSize < 8192 ∨
    options.gpu.globalWorkSize * bufferFactor options.buffers options.gpu.globalWorkSize ≤
      options.gpu.globalWorkSize

/-- The threads are started with a setup that plots. -/
theorem Options.Plots.setup {options : Options} (plots : options.Plots) (plan : Planner) :
    (options.setup plan).Plots where
  bench := plots.bench
  supported := plots.supported
  filled _ _ file _ := by
    have whole : (options.setup plan).workSize ≤ (options.setup plan).lanes := by
      unfold PlotterSetup.lanes
      split
      · exact plots.lanes
      · next large => exact plots.filled.resolve_left large
    exact (min_le_left _ _).trans (Int.ofNat_le.mpr whole)

/-- A session from its start to the moment it ends or is killed. The signal is not
read in the middle of a task. -/
structure Session (before : Folders) where
  options : Options
  drives : Text → Drive
  plan : Planner
  plots : options.Plots
  started : options.startUp drives = some plan
  counted : (options.setup plan).totalNonces < 9223372036854775808
  start : System
  starts : start.Start (options.setup plan)
  opened : Shows plan start before
  last : System
  run : ((options.setup plan).machine.startingAt start).Reaches (System.Undisturbed False) last

/-- The folders when it has ended. -/
def Session.after {before : Folders} (session : Session before) : Folders :=
  leave session.plan session.last before

/-- Any number of sessions, one after the other. -/
inductive Sessions (before : Folders) : Folders → Prop where
  | none : Sessions before before
  | another {between : Folders} (sessions : Sessions before between) (session : Session between) :
      Sessions before session.after

/-- A session leaves what is under the name of a plot, or a whole plot. -/
theorem Session.keeps {before : Folders} (session : Session before) (driver : Text)
    (pid sn nonces : Nat) :
    session.after driver (plotName pid sn nonces) = before driver (plotName pid sn nonces) ∨
      session.after.HoldsPlot driver pid sn nonces := by
  obtain ⟨options, drives, plan, plots, started, counted, start, starts, opened, last, run⟩ := session
  have planned := (Options.startUp_eq_some.mp started).1
  by_cases own : ∃ file ∈ plan.files driver, fileName file = plotName pid sn nonces
  · obtain ⟨file, member, named⟩ := own
    obtain ⟨known, positive⟩ := files_positive planned member
    obtain ⟨inside, plan_eq⟩ := setup_plan options known
    obtain ⟨index, found⟩ := List.getElem?_of_mem member
    have valid := Options.startUp_valid started counted
    have after := (leave_shows planned last before).final driver index file found
    have earlier := opened.final driver index file found
    rcases System.reaches_finals valid (plots.setup plan) starts run _ inside index with same | renamed
    · left
      show leave plan last before driver _ = _
      rw [← named, after, earlier, same]
    · right
      obtain ⟨other, entry, here, there, layout⟩ := renamed
      rw [plan_eq] at here
      obtain rfl : file = other := Option.some.inj (found.symm.trans here)
      obtain ⟨rfl, rfl, rfl⟩ := plotName_inj.mp named
      have numbers : (⟨file.pid, file.sn, (file.nonces.toNat : Int)⟩ : PlannedFile) = file := by
        rw [Int.toNat_of_nonneg (Int.le_of_lt positive)]
      exact ⟨entry, after.trans there, by rwa [numbers]⟩
  · refine .inl (leave_other fun file member named => own ⟨file, member, named⟩)

/-- After any number of sessions, each killed at any moment, a file under the name of
a plot is the one that was there before them or a whole plot; a whole plot stays one. -/
theorem sessions_keep {before after : Folders} (sessions : Sessions before after) (driver : Text)
    (pid sn nonces : Nat) :
    (after driver (plotName pid sn nonces) = before driver (plotName pid sn nonces) ∨
      after.HoldsPlot driver pid sn nonces) ∧
    (before.HoldsPlot driver pid sn nonces → after.HoldsPlot driver pid sn nonces) := by
  have kept : after driver (plotName pid sn nonces) = before driver (plotName pid sn nonces) ∨
      after.HoldsPlot driver pid sn nonces := by
    induction sessions with
    | none => exact .inl rfl
    | another sessions session ih =>
        rcases session.keeps driver pid sn nonces with same | whole
        · rcases ih with before | ⟨entry, there, layout⟩
          · exact .inl (same.trans before)
          · exact .inr ⟨entry, same.trans there, layout⟩
        · exact .inr whole
  refine ⟨kept, fun ⟨entry, there, layout⟩ => ?_⟩
  rcases kept with same | whole
  · exact ⟨entry, same.trans there, layout⟩
  · exact whole

/-! ## One session -/

/-- Eight nonces for one driver. -/
def oneDriver : Options where
  request :=
    { plotId := 1, startNonce := 0, totalNonces := 8, weight := 16, drivers := ["a".toList]
      plotId_lt := twoDrivers.plotId_lt
      startNonce_lt := twoDrivers.startNonce_lt }
  gpu := .inOrder 16
  buffers := 1
  maxMem := 16777216
  bench := 0
  maxMem_lt := oneFile_valid.memory

/-- An empty folder with room for them. -/
def oneDrive (_ : Text) : Drive := ⟨true, 2097152, []⟩

private theorem oneDriver_plan : (Planner.plan oneDriver.request oneDrive).map (fun plan =>
    (plan.noncesToGen, plan.visited, plan.files "a".toList)) =
      some (0, ["a".toList], [⟨1, 0, 8⟩]) := by decide +kernel

/-- The threads are started for one file. -/
theorem oneDriver_started : ∃ plan, oneDriver.startUp oneDrive = some plan ∧
    oneDriver.setup plan = oneFile ∧ plan.visited = ["a".toList] ∧
    plan.files "a".toList = [⟨1, 0, 8⟩] := by
  obtain ⟨plan, planned, found⟩ := Option.map_eq_some_iff.mp oneDriver_plan
  obtain ⟨left, found⟩ := Prod.mk.inj found
  obtain ⟨visited, files⟩ := Prod.mk.inj found
  have setup : oneDriver.setup plan = oneFile := by
    unfold Options.setup Planner.plans
    rw [visited, List.map_singleton, files]
    rfl
  refine ⟨plan, Options.startUp_eq_some.mpr ⟨planned, ?_, ?_⟩, setup, visited, files⟩
  · rw [left]
    decide
  · rw [setup]
    exact oneFile_valid.flying

/-- The options plot small files whole. -/
theorem oneDriver_plots : oneDriver.Plots where
  bench := rfl
  supported := GpuPlotter.inOrder_supported (by decide) (by decide) (by decide)
  lanes := by decide
  filled := .inl (by decide)

/-- The session in which the threads take turns until all have left. -/
theorem sessions_keep_oneDriver : ∃ after, Sessions (fun _ _ => none) after ∧
    after.HoldsPlot "a".toList 1 0 8 := by
  obtain ⟨plan, started, setup, visited, files⟩ := oneDriver_started
  have alone : System.LeftAlone (System.roundRobin oneFile) :=
    System.roundRobin_leftAlone (by decide)
  obtain ⟨n, _, declared⟩ := (alone.completes oneFile_valid (by decide)).exists
  have quiet : (oneFile.machine.startingAt (.idle oneFile)).Reaches
      (fun _ event => event ≠ .interrupt) ((System.roundRobin oneFile).state n) := by
    refine (System.roundRobin oneFile).reaches_startingAt fun m _ event happens => ?_
    rintro rfl
    exact alone.uninterrupted m happens
  let session : Session fun _ _ => none :=
    { options := oneDriver, drives := oneDrive, plan := plan, plots := oneDriver_plots
      started := started
      counted := by rw [setup]; decide
      start := .idle oneFile
      starts := by rw [setup]; exact System.idle_start oneFile
      opened := ⟨fun _ _ _ _ => rfl, fun _ _ _ _ => rfl⟩
      last := (System.roundRobin oneFile).state n
      run := by
        rw [setup]
        exact System.quiet_reaches oneFile_valid (System.idle_start oneFile) quiet }
  have sessions : Sessions (fun _ _ => none) session.after := .another .none session
  refine ⟨session.after, sessions, ?_⟩
  have planned := (Options.startUp_eq_some.mp started).1
  have left := (leave_shows planned session.last fun _ _ => none).final "a".toList 0 ⟨1, 0, 8⟩
    (by rw [files]; rfl)
  have writer : writerOf plan "a".toList = 0 := by
    unfold writerOf
    rw [visited]
    rfl
  have found : (oneFile.plan 0)[0]? = some ⟨1, 0, 8⟩ := rfl
  obtain ⟨entry, there, _⟩ := alone.final oneFile_valid oneFile_plots System.roundRobin_renames
    declared (by decide) found
  refine (sessions_keep sessions "a".toList 1 0 8).1.resolve_left fun same => ?_
  rw [writer, there] at left
  cases same.symm.trans left

end HyperPlotter.Plotter

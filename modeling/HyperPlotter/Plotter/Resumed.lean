import HyperPlotter.Pipeline.Stop
import HyperPlotter.Plan.Resume
import HyperPlotter.Plotter.Killed

/-!
# A killed session and the next one

A session with automatic nonce count over empty drivers is killed. What it leaves is an
interruption of its plan, and when the second plan resumes the first, a second session
that is left alone finishes every file of the first plan.
-/

namespace HyperPlotter.Plotter

open Foundation Poc Pipeline Plan Verify Filter

/-- What a directory iterator finds in the folder of a driver: every file once. -/
structure Folders.Lists (folders : Folders) (driver : Text) (entries : List DirEntry) : Prop where
  once : (entries.map DirEntry.name).Nodup
  files : ∀ entry, entry ∈ entries ↔ entry.directory = false ∧
    ∃ file, folders driver entry.name = some file ∧ file.size = entry.size

/-- Two iterators find the same. -/
theorem Folders.Lists.perm {folders : Folders} {driver : Text} {first second : List DirEntry}
    (here : folders.Lists driver first) (there : folders.Lists driver second) : first.Perm second :=
  (List.perm_ext_iff_of_nodup here.once.of_map there.once.of_map).mpr fun entry =>
    (here.files entry).trans (there.files entry).symm

/-- A session with automatic nonce count over empty drivers, killed at any moment. -/
structure KilledSession where
  options : Options
  automatic : options.request.totalNonces = 18446744073709551615
  distinct : options.request.drivers.Nodup
  free : Text → Nat
  plan : Planner
  plots : options.Plots
  started : options.startUp (fun driver => ⟨true, free driver, []⟩) = some plan
  counted : (options.setup plan).totalNonces < 9223372036854775808
  start : System
  starts : start.Start (options.setup plan)
  opened : Shows plan start Folders.empty
  last : System
  run : ((options.setup plan).machine.startingAt start).Reaches (System.Undisturbed True) last

namespace KilledSession

variable (killed : KilledSession)

/-- The folders it leaves. -/
def after : Folders := leave killed.plan killed.last Folders.empty

/-- Killed when every `.plotting` file had been allocated. -/
def Allocated : Prop := ∀ driver, ∀ file ∈ killed.plan.files driver, ∀ entry,
  killed.after driver (plottingName file) = some entry → entry.size = file.bytes

variable {killed}

/-- The plan of the killed session. -/
theorem planned : Planner.plan killed.options.request
    (fun driver => ⟨true, killed.free driver, []⟩) = some killed.plan :=
  (Options.startUp_eq_some.mp killed.started).1

/-- How far each driver has come. -/
theorem stage (driver : Text) : ∃ renamed, killed.after.Stage killed.plan driver renamed :=
  killed_stage killed.started killed.plots killed.counted killed.starts killed.opened
    (Folders.empty_freshFor _) killed.run driver

/-- Whatever is there is a planned file under one of its names. -/
theorem exists_planned {driver name : Text} {entry : FileEntry}
    (there : killed.after driver name = some entry) :
    ∃ file ∈ killed.plan.files driver, name = fileName file ∨ name = plottingName file := by
  have named : ∀ {f : PlannedFile → Text} {index : Nat},
      (killed.plan.files driver).findIdx? (f · = name) = some index →
        ∃ file ∈ killed.plan.files driver, name = f file := by
    intro f index found
    obtain ⟨inside, same, _⟩ := List.findIdx?_eq_some_iff_getElem.mp found
    exact ⟨_, List.getElem_mem inside, (of_decide_eq_true same).symm⟩
  unfold after leave at there
  split at there
  · next found =>
      obtain ⟨file, member, same⟩ := named found
      exact ⟨file, member, .inl same⟩
  · split at there
    · next found =>
        obtain ⟨file, member, same⟩ := named found
        exact ⟨file, member, .inr same⟩
    · cases there

variable (killed) in
/-- The file a driver was at, when it is there. -/
def begun (renamed : Nat) (driver : Text) : Option PlannedFile :=
  (killed.plan.files driver)[renamed]?.filter fun file =>
    (killed.after driver (plottingName file)).isSome

/-- The file begun is the next one and is there. -/
theorem begun_eq_some {renamed : Nat} {driver : Text} {file : PlannedFile} :
    killed.begun renamed driver = some file ↔ (killed.plan.files driver)[renamed]? = some file ∧
      ∃ entry, killed.after driver (plottingName file) = some entry := by
  unfold begun
  rw [Option.filter_eq_some_iff, Option.isSome_iff_exists]

/-- What an iterator finds are the finished files and the one begun. -/
theorem lists_stage (allocated : killed.Allocated) {driver : Text} {renamed : Nat}
    (stage : killed.after.Stage killed.plan driver renamed) :
    killed.after.Lists driver (((killed.plan.files driver).take renamed).map finishedEntry ++
      (killed.begun renamed driver).toList.map plottingEntry) := by
  have names : ((((killed.plan.files driver).take renamed).map finishedEntry ++
      (killed.begun renamed driver).toList.map plottingEntry).map DirEntry.name).Nodup := by
    rw [List.map_append, List.map_map, List.map_map, List.nodup_append]
    refine ⟨?_, ?_, ?_⟩
    · have all := fileNames_nodup killed.planned driver
      exact all.sublist ((List.take_sublist ..).map _)
    · cases killed.begun renamed driver with
      | none => exact .nil
      | some file => exact List.nodup_singleton _
    · rintro _ finished _ begun rfl
      obtain ⟨file, _, named⟩ := List.mem_map.mp finished
      obtain ⟨other, _, same⟩ := List.mem_map.mp begun
      exact plottingName_ne other _ _ _ (same.trans named.symm)
  refine ⟨names, fun entry => ?_⟩
  rw [List.mem_append, List.mem_map, List.mem_map]
  refine Iff.symm ⟨?_, ?_⟩
  · rintro ⟨plain, found, there, size⟩
    obtain ⟨name, directory, bytes⟩ := entry
    obtain rfl : directory = false := plain
    obtain rfl : found.size = bytes := size
    obtain ⟨file, member, rfl | rfl⟩ := exists_planned there
    · obtain ⟨index, place⟩ := List.getElem?_of_mem member
      have early : index < renamed := by
        by_contra late
        have gone := stage.ahead index file place (Nat.le_of_not_lt late)
        exact absurd (there.symm.trans gone) nofun
      obtain ⟨entry, here, whole, _⟩ := (stage.finished index file place early).whole
      obtain rfl : found = entry := Option.some.inj (there.symm.trans here)
      left
      refine ⟨file, List.mem_of_getElem? ((List.getElem?_take_of_lt early).trans place), ?_⟩
      rw [whole]
      rfl
    · obtain ⟨index, place⟩ := List.getElem?_of_mem member
      have same : index = renamed := by
        rcases Nat.lt_trichotomy index renamed with early | same | late
        · have gone := (stage.finished index file place early).moved
          exact absurd (there.symm.trans gone) nofun
        · exact same
        · have gone := stage.untouched index file place late
          exact absurd (there.symm.trans gone) nofun
      subst same
      right
      refine ⟨file, Option.mem_toList.mpr (begun_eq_some.mpr ⟨place, found, there⟩), ?_⟩
      rw [allocated driver file member found there]
      rfl
  · rintro (⟨file, finished, rfl⟩ | ⟨file, begun, rfl⟩)
    · obtain ⟨index, place⟩ := List.getElem?_of_mem finished
      have early : index < renamed := by
        by_contra late
        rw [List.getElem?_take_eq_none (Nat.le_of_not_lt late)] at place
        cases place
      rw [List.getElem?_take_of_lt early] at place
      obtain ⟨entry, here, whole, _⟩ := (stage.finished index file place early).whole
      exact ⟨rfl, entry, here, whole⟩
    · obtain ⟨place, entry, there⟩ := begun_eq_some.mp (Option.mem_toList.mp begun)
      exact ⟨rfl, entry, there, allocated driver file (List.mem_of_getElem? place) entry there⟩

/-- The interruption of the plan as the killed session left it. -/
structure Leaves (killed : KilledSession) (run : Interruption) : Prop where
  request : run.request = killed.options.request
  plan : run.plan = killed.plan
  free : run.free = killed.free
  lists : ∀ driver, killed.after.Lists driver (run.entries driver)
  stage : ∀ driver, killed.after.Stage killed.plan driver (run.renamed driver)

/-- A killed session is an interruption of its plan. -/
theorem exists_leaves (allocated : killed.Allocated) {entries : Text → List DirEntry}
    (lists : ∀ driver, killed.after.Lists driver (entries driver)) :
    ∃ run : Interruption, killed.Leaves run ∧ run.entries = entries := by
  choose renamed stage using killed.stage
  refine ⟨⟨killed.options.request, killed.automatic, killed.distinct, killed.free, killed.plan,
    killed.planned, renamed, fun driver => killed.begun (renamed driver) driver, ?_, entries,
    fun driver => (lists driver).perm (lists_stage allocated (stage driver))⟩,
    ⟨rfl, rfl, rfl, lists, stage⟩, rfl⟩
  intro driver file begun
  obtain ⟨place, _⟩ := begun_eq_some.mp begun
  have next : ((killed.plan.files driver).drop (renamed driver))[0]? = some file := by
    rw [List.getElem?_drop]
    exact place
  exact List.mem_of_getElem? next

/-! ## The next session -/

variable (killed) in
/-- A session with the same request that starts with these drives and is left alone
ends with every file of the killed one's plan in its folder, and every verifier reports
it as good. -/
def FinishedBy (drives : Text → Drive) : Prop :=
  ∀ (options : Options) (second : Planner), options.request = killed.options.request →
    options.Plots → options.startUp drives = some second →
    (options.setup second).totalNonces < 2147483648 →
    ∀ run : (options.setup second).machine.Endless, System.LeftAlone run →
      System.RenamesSucceed run → Shows second (run.state 0) killed.after → ∀ᶠ n in atTop,
        System.ShutDown (options.setup second) (run.state n) ∧
        ∀ driver, ∀ file ∈ killed.plan.files driver, ∃ entry,
          leave second (run.state n) killed.after driver (fileName file) = some entry ∧
          ∀ v : Verifier, v.gpu.Supported → v.Smooth → 0 ≤ toInt32 v.step →
            ∃ rounds t, runPlotVerify v (fileName file) (some entry) rounds = (.good, t) ∧
              ∀ read ∈ t.reads, InFile file.nonces.toNat v.gpu.globalWorkSize read

/-- Files that are not finished are no longer than their nonces. -/
theorem Leaves.fitFor {run : Interruption} (leaves : killed.Leaves run) {second : Planner}
    (rest : ∀ driver, ∀ file ∈ second.files driver,
      file ∈ (killed.plan.files driver).drop (run.renamed driver)) :
    killed.after.FitFor second := by
  intro driver file entry member there
  have unfinished := rest driver file member
  obtain ⟨index, place⟩ := List.getElem?_of_mem unfinished
  rw [List.getElem?_drop] at place
  have stage := leaves.stage driver
  rcases there with plotting | final
  · exact stage.short file (List.mem_of_getElem? place) entry plotting
  · have none := stage.ahead _ file place (Nat.le_add_right ..)
    exact absurd (final.symm.trans none) nofun

/-- The names of a driver's first files are not planned again. -/
theorem first_apart {second : Planner} {driver : Text} {renamed : Nat}
    (rest : ∀ file ∈ second.files driver, file ∈ (killed.plan.files driver).drop renamed)
    {index : Nat} {file : PlannedFile} (place : (killed.plan.files driver)[index]? = some file)
    (early : index < renamed) : ∀ other ∈ second.files driver, fileName other ≠ fileName file := by
  intro other member same
  obtain ⟨late, there⟩ := List.getElem?_of_mem (rest other member)
  rw [List.getElem?_drop] at there
  have names := fileNames_nodup killed.planned driver
  have inside : index < ((killed.plan.files driver).map fileName).length := by
    rw [List.length_map]
    exact (List.getElem?_eq_some_iff.mp place).1
  have equal : ((killed.plan.files driver).map fileName)[index]? =
      ((killed.plan.files driver).map fileName)[renamed + late]? := by
    rw [List.getElem?_map, List.getElem?_map, place, there]
    exact congrArg some same.symm
  have one := (List.getElem?_inj inside names).mp equal
  omega

/-- A killed session that had allocated the files it was at is an interruption of its plan.
When the second plan resumes the first, the next session finishes every file. -/
theorem resumed_finishes (killed : KilledSession) (allocated : killed.Allocated)
    (entries : Text → List DirEntry)
    (lists : ∀ driver, killed.after.Lists driver (entries driver)) :
    ∃ run : Interruption, killed.Leaves run ∧ run.entries = entries ∧
      (run.Resumes → killed.FinishedBy run.drives) := by
  obtain ⟨run, leaves, same⟩ := exists_leaves allocated lists
  refine ⟨run, leaves, same, ?_⟩
  rintro ⟨resumed, plans, rest⟩ options second request plots started small turns alone renames
    opened
  have planned := (Options.startUp_eq_some.mp started).1
  rw [request, ← leaves.request] at planned
  obtain rfl : resumed = second := Option.some.inj (plans.symm.trans planned)
  have left : ∀ driver ∈ run.request.drivers,
      resumed.files driver = (killed.plan.files driver).drop (run.renamed driver) := by
    intro driver listed
    rw [← leaves.plan]
    exact rest driver listed
  have unfinished : ∀ driver, ∀ file ∈ resumed.files driver,
      file ∈ (killed.plan.files driver).drop (run.renamed driver) := by
    intro driver file member
    have known := (files_positive (Options.startUp_eq_some.mp started).1 member).1
    rw [← left driver (plan_visited plans known)]
    exact member
  have fit := leaves.fitFor unfinished
  filter_upwards [leftAlone_plots started plots small alone renames opened fit] with n plotted
  obtain ⟨shutDown, plotted⟩ := plotted
  refine ⟨shutDown, fun driver file member => ?_⟩
  obtain ⟨index, place⟩ := List.getElem?_of_mem member
  suffices held : ∃ entry, leave resumed (turns.state n) killed.after driver (fileName file) =
      some entry ∧ entry.size = file.bytes ∧ PoC2Layout file entry by
    obtain ⟨entry, there, size, layout⟩ := held
    exact ⟨entry, there, fun v supported smooth forward =>
      good_of_layout killed.planned member layout size supported smooth forward⟩
  by_cases early : index < run.renamed driver
  · obtain ⟨entry, there, size, layout⟩ :=
      ((leaves.stage driver).finished index file place early).whole
    refine ⟨entry, ?_, size, layout⟩
    rw [← there]
    exact leave_other (first_apart (unfinished driver) place early)
  · have known := (files_positive killed.planned member).1
    have listed : driver ∈ run.request.drivers := by
      rw [leaves.request]
      exact plan_visited killed.planned known
    apply plotted driver file
    rw [left driver listed]
    apply List.mem_of_getElem?
    rw [List.getElem?_drop, ← place]
    exact congrArg _ (Nat.add_sub_cancel' (Nat.le_of_not_lt early))

end KilledSession

/-! ## Killed before a rename -/

/-- As many nonces as one driver has room for. -/
def roomOfDriver : Options :=
  { oneDriver with request := { automaticRequest with drivers := ["a".toList] } }

private theorem roomOfDriver_plan :
    (Planner.plan roomOfDriver.request fun _ => ⟨true, 18874368, []⟩).map (fun plan =>
      (plan.noncesToGen, plan.visited, plan.files "a".toList)) =
        some (18446744073709551543, ["a".toList], [⟨1, 0, 64⟩, ⟨1, 64, 8⟩]) := by decide +kernel

/-- A writer with a file of each pass. -/
def bothPasses : PlotterSetup := { oneFile with plans := [[⟨1, 0, 64⟩, ⟨1, 64, 8⟩]] }

/-- The threads can be started for both files. -/
theorem bothPasses_valid : bothPasses.Valid where
  files := by
    rintro plan listed file member
    obtain rfl : plan = [⟨1, 0, 64⟩, ⟨1, 64, 8⟩] := by simpa [bothPasses] using listed
    rcases List.mem_cons.mp member with rfl | member
    · exact ⟨by decide, by decide, by decide⟩
    · obtain rfl : file = ⟨1, 64, 8⟩ := by simpa using member
      exact ⟨by decide, by decide, by decide⟩
  memory := oneFile_valid.memory
  flying := by decide
  few := by decide
  planned := by decide
  total := by decide

/-- The threads are started for the two files. -/
private theorem roomOfDriver_started : ∃ plan,
    roomOfDriver.startUp (fun _ => ⟨true, 18874368, []⟩) = some plan ∧
      roomOfDriver.setup plan = bothPasses ∧ plan.visited = ["a".toList] ∧
      plan.files "a".toList = [⟨1, 0, 64⟩, ⟨1, 64, 8⟩] := by
  obtain ⟨plan, planned, found⟩ := Option.map_eq_some_iff.mp roomOfDriver_plan
  obtain ⟨left, found⟩ := Prod.mk.inj found
  obtain ⟨visited, files⟩ := Prod.mk.inj found
  have setup : roomOfDriver.setup plan = bothPasses := by
    unfold Options.setup Planner.plans
    rw [visited, List.map_singleton, files]
    rfl
  refine ⟨plan, Options.startUp_eq_some.mpr ⟨planned, ?_, ?_⟩, setup, visited, files⟩
  · rw [left]
    decide
  · rw [setup]
    exact bothPasses_valid.flying

private theorem roomOfDriver_plots : roomOfDriver.Plots :=
  ⟨rfl, oneDriver_plots.supported, oneDriver_plots.lanes, oneDriver_plots.filled⟩

/-- A finished file and one that was begun. -/
private def begunEntries (driver : Text) : List DirEntry :=
  if driver = "a".toList then [finishedEntry ⟨1, 0, 64⟩, plottingEntry ⟨1, 64, 8⟩] else []

private theorem roomOfDriver_resumed : (Planner.plan roomOfDriver.request fun driver =>
    ⟨true, 18874368 - ((begunEntries driver).map DirEntry.size).sum, begunEntries driver⟩).map
      (fun plan => plan.files "a".toList) = some [⟨1, 64, 8⟩] := by decide +kernel

/-- The session in which the threads take turns comes to the rename of the second file,
which has its size. -/
private theorem exists_second_rename (plots : bothPasses.Plots) : ∃ (s : System) (entry : FileEntry),
    (bothPasses.machine.startingAt (.idle bothPasses)).Reaches (System.Undisturbed True) s ∧
      (s.threads 0).state.plotting 1 = some entry ∧
      entry.size = (⟨1, 64, 8⟩ : PlannedFile).bytes := by
  have alone : System.LeftAlone (System.roundRobin bothPasses) :=
    System.roundRobin_leftAlone (by decide)
  have found : (bothPasses.plan 0)[1]? = some ⟨1, 64, 8⟩ := rfl
  obtain ⟨n, next, asks⟩ := alone.exists_rename bothPasses_valid plots (by decide)
    System.roundRobin_renames (by decide) found rfl
  have reached : (bothPasses.machine.startingAt (.idle bothPasses)).Reaches
      (System.Undisturbed True) ((System.roundRobin bothPasses).state n) :=
    Machine.Endless.reaches_startingAt fun m _ event happens =>
      alone.undisturbed bothPasses_valid System.roundRobin_renames m happens
  have delivered := System.reaches_delivered bothPasses_valid plots.bench
    (reached.ofStartingAt (System.idle_start bothPasses))
  obtain ⟨file, entry, here, there, sequence, complete, holds⟩ :=
    ((delivered.sound 0 (by decide)).guarded asks).rename 1 rfl
  have layout := delivered.layout bothPasses_valid plots (by decide) (fun _ member => member)
    sequence here complete holds
  obtain rfl : (⟨1, 64, 8⟩ : PlannedFile) = file := Option.some.inj (found.symm.trans here)
  have short : ∀ i, i < bothPasses.plans.length →
      WithinSizes (bothPasses.plan i) ((System.idle bothPasses).threads i).state := by
    rintro i _ index file entry _ (none | none)
    · exact absurd none.symm (Option.some_ne_none entry)
    · exact absurd none.symm (Option.some_ne_none entry)
  have sizes := System.reaches_withinSizes bothPasses_valid plots.bench
    (System.idle_start bothPasses) short reached 0 (by decide)
  exact ⟨_, entry, reached, there, size_of_layout layout (by decide) (sizes 1 _ entry here (.inl there))⟩

/-- A session on the driver killed with the first file renamed and the second begun. -/
private structure Halfway (killed : KilledSession) (entry : FileEntry) : Prop where
  options : killed.options = roomOfDriver
  free : killed.free = fun _ => 18874368
  visited : killed.plan.visited = ["a".toList]
  files : killed.plan.files "a".toList = [⟨1, 0, 64⟩, ⟨1, 64, 8⟩]
  there : killed.after "a".toList (plottingName ⟨1, 64, 8⟩) = some entry
  size : entry.size = (⟨1, 64, 8⟩ : PlannedFile).bytes

private theorem exists_halfway : ∃ killed entry, Halfway killed entry := by
  obtain ⟨plan, started, setup, visited, files⟩ := roomOfDriver_started
  obtain ⟨last, entry, run, there, size⟩ := exists_second_rename (setup ▸ roomOfDriver_plots.setup plan)
  let killed : KilledSession :=
    { options := roomOfDriver, automatic := rfl, distinct := List.nodup_singleton _
      free := fun _ => 18874368
      plan := plan
      plots := roomOfDriver_plots
      started := started
      counted := by rw [setup]; decide
      start := .idle _
      starts := System.idle_start _
      opened := idle_shows _ plan
      last := last
      run := by rw [setup]; exact run }
  refine ⟨killed, entry, rfl, rfl, visited, files, ?_, size⟩
  have place : (plan.files "a".toList)[1]? = some ⟨1, 64, 8⟩ := by rw [files]; rfl
  have writer : writerOf plan "a".toList = 0 := by
    unfold writerOf
    rw [visited]
    rfl
  rw [← there, ← writer]
  exact (leave_shows killed.planned last Folders.empty).plotting _ _ _ place

namespace Halfway

variable {killed : KilledSession} {entry : FileEntry} {run : Interruption}

private theorem second (half : Halfway killed entry) :
    (killed.plan.files "a".toList)[1]? = some ⟨1, 64, 8⟩ := by
  rw [half.files]
  rfl

/-- The second file is there under its `.plotting` name, so the first one is finished. -/
private theorem renamed (half : Halfway killed entry) {renamed : Nat}
    (stage : killed.after.Stage killed.plan "a".toList renamed) : renamed = 1 := by
  rcases Nat.lt_trichotomy renamed 1 with early | same | late
  · have none := stage.untouched 1 _ half.second early
    exact absurd (half.there.symm.trans none) (Option.some_ne_none entry)
  · exact same
  · have none := (stage.finished 1 _ half.second late).moved
    exact absurd (half.there.symm.trans none) (Option.some_ne_none entry)

private theorem stage (half : Halfway killed entry) :
    killed.after.Stage killed.plan "a".toList 1 := by
  obtain ⟨renamed, stage⟩ := killed.stage "a".toList
  exact half.renamed stage ▸ stage

private theorem others (half : Halfway killed entry) {driver : Text} (differ : driver ≠ "a".toList) :
    killed.plan.files driver = [] := by
  refine List.eq_nil_iff_forall_not_mem.mpr fun file member => differ ?_
  have known := (files_positive killed.planned member).1
  rw [half.visited] at known
  exact List.mem_singleton.mp known

private theorem allocated (half : Halfway killed entry) : killed.Allocated := by
  intro driver file member found here
  by_cases same : driver = "a".toList
  · subst same
    have both : file ∈ [(⟨1, 0, 64⟩ : PlannedFile), ⟨1, 64, 8⟩] := half.files ▸ member
    rcases List.mem_pair.mp both with rfl | rfl
    · have first : (killed.plan.files "a".toList)[0]? = some ⟨1, 0, 64⟩ := by rw [half.files]; rfl
      have none := (half.stage.finished 0 _ first Nat.zero_lt_one).moved
      exact absurd (here.symm.trans none) (Option.some_ne_none found)
    · obtain rfl : entry = found := Option.some.inj (half.there.symm.trans here)
      exact half.size
  · rw [half.others same] at member
    cases member

private theorem lists (half : Halfway killed entry) (driver : Text) :
    killed.after.Lists driver (begunEntries driver) := by
  unfold begunEntries
  split
  · next same =>
      subst same
      have lists := KilledSession.lists_stage half.allocated half.stage
      have begun : killed.begun 1 "a".toList = some ⟨1, 64, 8⟩ :=
        KilledSession.begun_eq_some.mpr ⟨half.second, entry, half.there⟩
      rw [begun, half.files] at lists
      exact lists
  · next differ =>
      obtain ⟨renamed, stage⟩ := killed.stage driver
      have lists := KilledSession.lists_stage half.allocated stage
      have none : killed.begun renamed driver = none := by
        unfold KilledSession.begun
        rw [half.others differ]
        rfl
      rw [none, half.others differ, List.take_nil] at lists
      exact lists

private theorem finished (half : Halfway killed entry) (leaves : killed.Leaves run) :
    run.finished "a".toList = [⟨1, 0, 64⟩] := by
  unfold Interruption.finished
  rw [leaves.plan, half.renamed (leaves.stage "a".toList), half.files]
  rfl

private theorem unfinished (half : Halfway killed entry) (leaves : killed.Leaves run) :
    run.unfinished "a".toList = [⟨1, 64, 8⟩] := by
  unfold Interruption.unfinished
  rw [leaves.plan, half.renamed (leaves.stage "a".toList), half.files]
  rfl

/-- With two entries and one file finished, the other file was begun. -/
private theorem begun (half : Halfway killed entry) (leaves : killed.Leaves run)
    (same : run.entries = begunEntries) : run.begun "a".toList = some ⟨1, 64, 8⟩ := by
  have count := (run.listed "a".toList).length_eq
  rw [same, List.length_append, List.length_map, List.length_map] at count
  cases there : run.begun "a".toList with
  | none =>
      rw [there] at count
      have finished := congrArg List.length (half.finished leaves)
      exact absurd (count.trans (congrArg (· + 0) finished)) (by decide)
  | some file =>
      have left : file ∈ run.unfinished "a".toList := run.begun_mem _ file there
      rw [half.unfinished leaves] at left
      rw [List.mem_singleton.mp left]

private theorem resumes (half : Halfway killed entry) (leaves : killed.Leaves run)
    (same : run.entries = begunEntries) : run.Resumes := by
  obtain ⟨p, planned, files⟩ := Option.map_eq_some_iff.mp roomOfDriver_resumed
  have request : run.request = roomOfDriver.request := by rw [leaves.request, half.options]
  have drives : run.drives = fun driver => ⟨true,
      18874368 - ((begunEntries driver).map DirEntry.size).sum, begunEntries driver⟩ := by
    unfold Interruption.drives
    rw [same, leaves.free, half.free]
  refine ⟨p, ?_, fun driver listed => ?_⟩
  · rw [drives, request]
    exact planned
  · rw [request] at listed
    obtain rfl : driver = "a".toList := List.mem_singleton.mp listed
    rw [files, half.unfinished leaves]

end Halfway

/-- Killed with one file renamed and the other about to be. -/
theorem resumed_finishes_bothPasses : ∃ (killed : KilledSession) (run : Interruption),
    killed.Leaves run ∧ run.finished "a".toList = [⟨1, 0, 64⟩] ∧
      run.begun "a".toList = some ⟨1, 64, 8⟩ ∧ run.Resumes ∧ killed.FinishedBy run.drives := by
  obtain ⟨killed, entry, half⟩ := exists_halfway
  obtain ⟨run, leaves, same, finishes⟩ :=
    killed.resumed_finishes half.allocated begunEntries half.lists
  have resumes := half.resumes leaves same
  exact ⟨killed, run, leaves, half.finished leaves, half.begun leaves same, resumes,
    finishes resumes⟩

end HyperPlotter.Plotter

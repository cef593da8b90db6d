import HyperPlotter.Pipeline.Leftovers
import HyperPlotter.Plotter.Verified

/-!
# What a killed session leaves

On every driver the first files are whole, the next one may be begun under the
`.plotting` name, and nothing is there of the others.
-/

namespace HyperPlotter.Plotter

open Foundation Poc Pipeline Plan

/-- Nothing is there of the planned files. -/
def Folders.FreshFor (folders : Folders) (plan : Planner) : Prop :=
  ∀ driver, ∀ file ∈ plan.files driver,
    folders driver (fileName file) = none ∧ folders driver (plottingName file) = none

/-- A file is whole under its name and is no longer under the other one. -/
structure Folders.Finished (folders : Folders) (driver : Text) (file : PlannedFile) : Prop where
  whole : ∃ entry, folders driver (fileName file) = some entry ∧ entry.size = file.bytes ∧
    PoC2Layout file entry
  moved : folders driver (plottingName file) = none

/-- How far a driver's files have come: `renamed` of them are finished, and only the
next one may be begun. -/
structure Folders.Stage (folders : Folders) (plan : Planner) (driver : Text) (renamed : Nat) :
    Prop where
  finished : ∀ index file, (plan.files driver)[index]? = some file → index < renamed →
    folders.Finished driver file
  ahead : ∀ index file, (plan.files driver)[index]? = some file → renamed ≤ index →
    folders driver (fileName file) = none
  untouched : ∀ index file, (plan.files driver)[index]? = some file → renamed < index →
    folders driver (plottingName file) = none
  short : ∀ file ∈ plan.files driver, ∀ entry,
    folders driver (plottingName file) = some entry → entry.size ≤ file.bytes

variable {options : Options} {drives : Text → Drive} {plan : Planner} {before : Folders}
  {start last : System}

/-- Nothing is there under the writers' names. -/
theorem Shows.unplanned (planned : Planner.plan options.request drives = some plan)
    (shows : Shows plan start before) (fresh : before.FreshFor plan) :
    System.Unplanned (options.setup plan) start := by
  intro i index inside
  by_cases writer : i < (options.setup plan).plans.length
  · obtain ⟨driver, here, files⟩ := exists_driver planned writer
    rw [files] at inside
    have found := List.getElem?_eq_getElem inside
    obtain ⟨final, plotting⟩ := fresh driver _ (List.getElem_mem inside)
    rw [shows.final driver index _ found, here] at final
    rw [shows.plotting driver index _ found, here] at plotting
    exact ⟨plotting, final⟩
  · have none : (options.setup plan).plan i = [] := by
      unfold PlotterSetup.plan
      rw [List.getD_eq_getElem?_getD, List.getElem?_eq_none (Nat.le_of_not_lt writer)]
      rfl
    rw [none] at inside
    exact absurd inside (Nat.not_lt_zero index)

/-- A session over folders without its files, killed at any moment: on every driver the
first files are whole, the next may be begun, and nothing is there of the others. -/
theorem killed_stage (started : options.startUp drives = some plan) (plots : options.Plots)
    (counted : (options.setup plan).totalNonces < 9223372036854775808)
    (starts : start.Start (options.setup plan)) (opened : Shows plan start before)
    (fresh : before.FreshFor plan)
    (run : ((options.setup plan).machine.startingAt start).Reaches (System.Undisturbed True) last)
    (driver : Text) : ∃ renamed, Folders.Stage (leave plan last before) plan driver renamed := by
  have planned := (Options.startUp_eq_some.mp started).1
  have valid := Options.startUp_valid started counted
  by_cases known : driver ∈ plan.visited
  · obtain ⟨writer, files⟩ := setup_plan options known
    have nothing := opened.unplanned planned fresh
    obtain ⟨k, begun⟩ := System.reaches_begun valid plots.bench starts nothing run _ writer
    have fit : before.FitFor plan := by
      rintro other file entry member (plotting | final)
      · rw [(fresh other file member).2] at plotting
        cases plotting
      · rw [(fresh other file member).1] at final
        cases final
    have sizes := System.reaches_withinSizes valid plots.bench starts
      (opened.withinSizes planned fit) run _ writer
    have finals := System.reaches_finals valid (plots.setup plan) starts
      (run.mono fun _ _ => System.Undisturbed.weaken) _ writer
    have shows := leave_shows planned last before
    rw [files] at begun sizes
    refine ⟨k, ?_, ?_, ?_, ?_⟩
    · intro index file found early
      obtain ⟨gone, there⟩ := begun.renamed index early
      obtain ⟨known, positive⟩ := files_positive planned (List.mem_of_getElem? found)
      have final := shows.final driver index file found
      rcases finals index with same | ⟨other, entry, here, place, layout⟩
      · have inside : index < ((options.setup plan).plan (writerOf plan driver)).length := by
          rw [files]
          exact (List.getElem?_eq_some_iff.mp found).1
        rw [same, (nothing _ index inside).2] at there
        cases there
      · rw [files, found] at here
        obtain rfl := Option.some.inj here
        refine ⟨⟨entry, final.trans place, ?_, layout⟩, ?_⟩
        · exact size_of_layout layout positive (sizes index file entry found (.inr place))
        · rw [shows.plotting driver index file found, gone]
    · intro index file found late
      rw [shows.final driver index file found]
      exact begun.ahead index late (List.getElem?_eq_some_iff.mp found).1
    · intro index file found late
      rw [shows.plotting driver index file found]
      exact begun.untouched index late (List.getElem?_eq_some_iff.mp found).1
    · intro file member entry there
      obtain ⟨index, found⟩ := List.getElem?_of_mem member
      rw [shows.plotting driver index file found] at there
      exact sizes index file entry found (.inl there)
  · have none : plan.files driver = [] := List.eq_nil_iff_forall_not_mem.mpr fun file member =>
      known (files_positive planned member).1
    refine ⟨0, ?_, ?_, ?_, ?_⟩
    all_goals simp [none]

/-- Nothing is there in empty folders. -/
theorem Folders.empty_freshFor (plan : Planner) : Folders.empty.FreshFor plan :=
  fun _ _ _ => ⟨rfl, rfl⟩

/-- Killed after its one file was renamed. -/
theorem killed_stage_oneDriver : ∃ plan last renamed, 0 < renamed ∧
    Folders.Stage (leave plan last Folders.empty) plan "a".toList renamed := by
  obtain ⟨plan, started, setup, _, files⟩ := oneDriver_started
  have alone : System.LeftAlone (System.roundRobin (oneDriver.setup plan)) :=
    System.roundRobin_leftAlone (by rw [setup]; decide)
  have valid : (oneDriver.setup plan).Valid := by
    rw [setup]
    exact oneFile_valid
  have undisturbed : ∀ n, ((oneDriver.setup plan).machine.startingAt (.idle _)).Reaches
      (System.Undisturbed True) ((System.roundRobin (oneDriver.setup plan)).state n) := fun n =>
    Machine.Endless.reaches_startingAt fun m _ event happens =>
      alone.undisturbed valid System.roundRobin_renames m happens
  have plotted := leftAlone_plots started oneDriver_plots (by rw [setup]; decide) alone
    System.roundRobin_renames (idle_shows _ plan) (Folders.empty_fitFor plan)
  obtain ⟨n, _, plotted⟩ := plotted.exists
  obtain ⟨renamed, stage⟩ := killed_stage started oneDriver_plots (by rw [setup]; decide)
    (System.idle_start _) (idle_shows _ plan) (Folders.empty_freshFor plan) (undisturbed n)
    "a".toList
  refine ⟨plan, _, renamed, ?_, stage⟩
  obtain ⟨entry, there, _⟩ := plotted "a".toList ⟨1, 0, 8⟩ (by rw [files]; exact List.mem_singleton_self _)
  by_contra none
  have gone := stage.ahead 0 ⟨1, 0, 8⟩ (by rw [files]; rfl) (by omega)
  rw [there] at gone
  cases gone

end HyperPlotter.Plotter

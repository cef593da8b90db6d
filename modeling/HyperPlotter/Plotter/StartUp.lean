import HyperPlotter.Foundation.Shares
import HyperPlotter.Pipeline.Lanes
import HyperPlotter.Plan.Passes

/-!
# Starting the threads

`run_plotter` up to its threads: it plans the files, takes the work size from the
device and the `buffers` option, and returns when there is nothing to plot or no
memory for a task. What it starts its threads with is a valid setup.
-/

namespace HyperPlotter.Plotter

open Foundation Poc Pipeline Plan

/-- What `run_plotter` takes from the options and the device. -/
structure Options where
  request : PlanRequest
  gpu : GpuPlotter
  buffers : Int
  maxMem : Nat
  bench : Nat
  maxMem_lt : maxMem < 18446744073709551616 := by decide
  few : request.drivers.length < 2147483647 := by decide

namespace Options

variable (options : Options) (drives : Text → Drive)

/-- What the threads are started with for a plan. -/
def setup (plan : Planner) : PlotterSetup where
  gpu := options.gpu
  buffers := bufferFactor options.buffers options.gpu.globalWorkSize
  maxMem := options.maxMem
  bench := options.bench
  plans := plan.plans

/-- `run_plotter` up to its threads. None when it throws or returns before. -/
def startUp : Option Planner :=
  (Planner.plan options.request drives).bind fun plan =>
    if options.request.totalNonces - plan.noncesToGen = 0 then none
    else if (options.setup plan).maxFlyingTasks = 0 then none
    else some plan

variable {options drives} {plan : Planner}

/-- The threads are started for a plan with nonces, and with memory. -/
theorem startUp_eq_some : options.startUp drives = some plan ↔
    Planner.plan options.request drives = some plan ∧
      options.request.totalNonces - plan.noncesToGen ≠ 0 ∧
      (options.setup plan).maxFlyingTasks ≠ 0 := by
  unfold startUp
  rw [Option.bind_eq_some_iff]
  constructor
  · rintro ⟨found, planned, goes⟩
    split at goes
    · cases goes
    · next left =>
        split at goes
        · cases goes
        · next memory =>
            obtain rfl := Option.some.inj goes
            exact ⟨planned, left, memory⟩
  · rintro ⟨planned, left, memory⟩
    exact ⟨plan, planned, by rw [if_neg left, if_neg memory]⟩

end Options

/-! ## The writers of a plan -/

section Writers

variable {request : PlanRequest} {drives : Text → Drive} {p q : Planner} {align : Nat}

/-- What the writers of a plan are: one for each driver visited. -/
structure Writers (p : Planner) : Prop where
  once : p.visited.Nodup
  known : ∀ pair ∈ p.pushed, pair.1 ∈ p.visited
  next : p.snToGen < 18446744073709551616
  starts : ∀ pair ∈ p.pushed, pair.2.sn < 18446744073709551616

/-- The end of a file is an `uint64_t`. -/
private theorem countedEnd_lt (entry : DirEntry) :
    request.countedEnd entry < 18446744073709551616 := by
  unfold PlanRequest.countedEnd
  split
  · decide
  · cases read : request.plotEnd entry.name with
    | none => decide
    | some found =>
        cases found with
        | none => decide
        | some last =>
            unfold PlanRequest.plotEnd at read
            split at read
            · obtain ⟨pid, _, read⟩ := Option.bind_eq_some_iff.mp read
              split at read
              · cases read
              · obtain ⟨sn, _, read⟩ := Option.bind_eq_some_iff.mp read
                split at read
                · obtain ⟨count, _, read⟩ := Option.bind_eq_some_iff.mp read
                  obtain rfl := Option.some.inj (Option.some.inj read)
                  exact toUInt64_lt _
                · cases read
            · cases read

private theorem scan_lastSn_lt {drive : Drive} {scan : Scan}
    (scanned : request.scan drive = some scan) : scan.lastSn < 18446744073709551616 := by
  have readable := PlanRequest.scan_isSome.mp (Option.isSome_of_eq_some scanned)
  rw [PlanRequest.scan_of_readable readable] at scanned
  obtain rfl := Option.some.inj scanned
  rcases request.lastSn_cases drive.entries with none | ⟨entry, _, last⟩
  · simp only [none]
    decide
  · simp only [last]
    exact countedEnd_lt entry

/-- Every driver has one writer, and every file starts at an `uint64_t`. -/
theorem reachable_writers (reached : (Planner.machine request drives).Reachable p) :
    Writers p := by
  refine reached.invariant Writers ?_ ?_
  · rintro _ rfl
    exact ⟨.nil, List.forall_mem_nil _, request.startNonce_lt, List.forall_mem_nil _⟩
  · intro p event q _ writers _ taken
    cases event with
    | visit driver =>
        obtain ⟨⟨_, new⟩, visited⟩ := Option.ite_none_right_eq_some.mp taken
        obtain ⟨scan, scanned, rfl⟩ := Planner.visit_cases new visited
        refine ⟨?_, fun pair member => List.mem_append_left _ (writers.known pair member), ?_,
          writers.starts⟩
        · exact List.nodup_append.mpr ⟨writers.once, List.nodup_singleton _,
            fun a old b here => by
              obtain rfl := List.mem_singleton.mp here
              exact fun same => new (same ▸ old)⟩
        · exact Nat.max_lt.mpr ⟨writers.next, scan_lastSn_lt scanned⟩
    | push align driver =>
        obtain ⟨⟨_, there, _⟩, pushed⟩ := Option.ite_none_right_eq_some.mp taken
        obtain rfl := Option.some.inj pushed
        refine ⟨writers.once, fun pair member => ?_, ?_, fun pair member => ?_⟩
        · rcases List.mem_append.mp member with old | new
          · exact writers.known pair old
          · obtain rfl := List.mem_singleton.mp new
            exact there
        · show toUInt64 (p.snToGen + p.nonces request align driver) < 18446744073709551616
          exact toUInt64_lt _
        · rcases List.mem_append.mp member with old | new
          · exact writers.starts pair old
          · obtain rfl := List.mem_singleton.mp new
            exact writers.next

/-- There are no more writers than drivers given. -/
theorem plan_visited (planned : Planner.plan request drives = some p) :
    p.visited ⊆ request.drivers := by
  obtain ⟨first, made, rest⟩ := Option.bind_eq_some_iff.mp planned
  intro driver member
  rcases (Planner.allocate_visited rest).mp member with before | here
  · rcases (Planner.allocate_visited made).mp before with none | here
    · cases none
    · exact here.1
  · exact here.1

/-- The files of all writers are those pushed. -/
theorem Writers.files_perm (writers : Writers p) :
    p.plans.flatten.Perm (p.pushed.map Prod.snd) := by
  have divided := flatMap_filter_perm Prod.fst writers.once writers.known
  have files : p.plans.flatten =
      (p.visited.flatMap fun driver => p.pushed.filter (·.1 = driver)).map Prod.snd := by
    rw [List.map_flatMap, List.flatMap_def]
    rfl
  rw [files]
  exact divided.map Prod.snd

end Writers

namespace Options

variable {options : Options} {drives : Text → Drive} {plan : Planner}

/-- The planned nonces are those that were asked for and placed. -/
theorem setup_totalNonces (planned : Planner.plan options.request drives = some plan) :
    (options.setup plan).totalNonces = options.request.totalNonces - plan.noncesToGen := by
  have reached := Planner.plan_reachable planned
  have files := (reachable_writers reached).files_perm.map PlannedFile.nonces
  rw [← (Planner.reachable_planning reached).total]
  exact files.sum_eq.trans (congrArg List.sum List.map_map)

/-- `run_plotter` starts its threads with a valid setup, as long as the nonces of the
plan can be counted. -/
theorem startUp_valid (started : options.startUp drives = some plan)
    (small : (options.setup plan).totalNonces < 9223372036854775808) :
    (options.setup plan).Valid := by
  obtain ⟨planned, nonces, flying⟩ := startUp_eq_some.mp started
  have reached := Planner.plan_reachable planned
  have writers := reachable_writers reached
  constructor
  · intro files listed file member
    have anywhere := writers.files_perm.mem_iff.mp (List.mem_flatten.mpr ⟨files, listed, member⟩)
    obtain ⟨pair, pushed, rfl⟩ := List.mem_map.mp anywhere
    have size := (Planner.reachable_planning reached).sizes pair pushed
    exact ⟨writers.starts pair pushed, size.positive, size.small⟩
  · exact options.maxMem_lt
  · exact flying
  · have few := options.few
    have count := writers.once.length_le_of_subset (plan_visited planned)
    show (plan.visited.map plan.files).length + 1 < 2147483648
    rw [List.length_map]
    omega
  · rw [setup_totalNonces planned]
    omega
  · exact small

end Options

end HyperPlotter.Plotter

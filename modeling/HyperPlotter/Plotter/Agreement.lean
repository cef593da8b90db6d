import HyperPlotter.Plotter.Verified

/-!
# The options do not show in the files

The device, the buffers, the memory and the order in which the threads take their turns
decide when a nonce is written, not what is written.
-/

namespace HyperPlotter.Plotter

open Foundation Poc Pipeline Plan Filter

/-- Two files hold the same scoops of the nonces they share. -/
def Agree (first : PlannedFile) (entry : FileEntry) (second : PlannedFile) (other : FileEntry) :
    Prop :=
  ∀ c b k m : Nat, c < 4096 → b < 64 → (k : Int) < first.nonces → (m : Int) < second.nonces →
    first.sn + k = second.sn + m →
      entry.bytes ((c * first.nonces.toNat + k) * 64 + b : Nat) =
        other.bytes ((c * second.nonces.toNat + m) * 64 + b : Nat)

section Layouts

variable {file second : PlannedFile} {entry other : FileEntry}

/-- Files of one plot id agree. -/
theorem layouts_agree (layout : PoC2Layout file entry) (layout' : PoC2Layout second other)
    (pid : file.pid = second.pid) : Agree file entry second other := by
  intro c b k m scoop byte lane lane' nonce
  rw [(layout c k b scoop lane byte).2, (layout' c m b scoop lane' byte).2, pid, nonce]

/-- A file that agrees with another of the same nonces has the same bytes. -/
theorem Agree.bytes (agree : Agree file entry file other) {a : Nat} (inside : a < file.bytes) :
    entry.bytes a = other.bytes a := by
  have count : file.bytes = file.nonces.toNat * 262144 := rfl
  generalize lanes : file.nonces.toNat = n at count
  have some_lanes : 0 < n := by omega
  have scoop : a / 64 / n < 4096 := by
    rw [Nat.div_lt_iff_lt_mul some_lanes]
    omega
  have lane := Nat.mod_lt (a / 64) some_lanes
  have byte := Nat.mod_lt a (show 0 < 64 by decide)
  have place : a = (a / 64 / n * n + a / 64 % n) * 64 + a % 64 := by
    rw [Nat.mul_comm (a / 64 / n) n, Nat.div_add_mod]
    omega
  have same := agree _ _ (a / 64 % n) (a / 64 % n) scoop byte (by omega) (by omega) rfl
  rwa [lanes, ← place] at same

end Layouts

/-- A planned file is of the plot id that was asked for. -/
theorem files_pid {options : Options} {drives : Text → Drive} {plan : Planner}
    (started : options.startUp drives = some plan) {driver : Text} {file : PlannedFile}
    (member : file ∈ plan.files driver) : file.pid = options.request.plotId := by
  obtain ⟨pair, listed, rfl⟩ := List.mem_map.mp member
  have planned := (Options.startUp_eq_some.mp started).1
  exact Planner.reachable_pid (Planner.plan_reachable planned) pair (List.mem_of_mem_filter listed)

/-- Two sessions for one plot id that plot and are left alone, with whatever drivers,
memory and turns: their files agree on the nonces they share, and a file both have
planned ends with the same bytes. -/
theorem options_agree {options options' : Options} {drives drives' : Text → Drive}
    {plan plan' : Planner} {before before' : Folders}
    (pid : options.request.plotId = options'.request.plotId)
    (started : options.startUp drives = some plan) (started' : options'.startUp drives' = some plan')
    (plots : options.Plots) (plots' : options'.Plots)
    (small : (options.setup plan).totalNonces < 2147483648)
    (small' : (options'.setup plan').totalNonces < 2147483648)
    {run : (options.setup plan).machine.Endless} {run' : (options'.setup plan').machine.Endless}
    (alone : System.LeftAlone run) (alone' : System.LeftAlone run')
    (renames : System.RenamesSucceed run) (renames' : System.RenamesSucceed run')
    (opened : Shows plan (run.state 0) before) (opened' : Shows plan' (run'.state 0) before')
    (fit : before.FitFor plan) (fit' : before'.FitFor plan') : ∀ᶠ n in atTop,
      ∀ driver, ∀ file ∈ plan.files driver, ∀ driver', ∀ file' ∈ plan'.files driver',
        ∃ entry other, leave plan (run.state n) before driver (fileName file) = some entry ∧
          leave plan' (run'.state n) before' driver' (fileName file') = some other ∧
          Agree file entry file' other ∧
          (file = file' → entry.size = other.size ∧ ∀ a < entry.size, entry.bytes a = other.bytes a) := by
  filter_upwards [leftAlone_plots started plots small alone renames opened fit,
    leftAlone_plots started' plots' small' alone' renames' opened' fit'] with n one two
  obtain ⟨_, one⟩ := one
  obtain ⟨_, two⟩ := two
  intro driver file member driver' file' member'
  obtain ⟨entry, there, size, layout⟩ := one driver file member
  obtain ⟨other, there', size', layout'⟩ := two driver' file' member'
  have agree : Agree file entry file' other :=
    layouts_agree layout layout' ((files_pid started member).trans
      (pid.trans (files_pid started' member').symm))
  refine ⟨entry, other, there, there', agree, ?_⟩
  rintro rfl
  refine ⟨size.trans size'.symm, fun a inside => ?_⟩
  rw [size] at inside
  exact agree.bytes inside

/-! ## Two devices -/

/-- Eight nonces with another device and two buffers. -/
def twoBuffers : Options := { oneDriver with gpu := .inOrder 32, buffers := 2 }

/-- What the threads are started with then. -/
def twoBuffersFile : PlotterSetup := { oneFile with gpu := .inOrder 32, buffers := 2 }

private theorem twoBuffers_started {plan : Planner}
    (started : oneDriver.startUp oneDrive = some plan) (setup : oneDriver.setup plan = oneFile) :
    twoBuffers.startUp oneDrive = some plan ∧ twoBuffers.setup plan = twoBuffersFile := by
  have plans : plan.plans = oneFile.plans := congrArg PlotterSetup.plans setup
  have same : twoBuffers.setup plan = twoBuffersFile := by
    unfold Options.setup
    rw [plans]
    rfl
  obtain ⟨planned, nonces, _⟩ := Options.startUp_eq_some.mp started
  refine ⟨Options.startUp_eq_some.mpr ⟨planned, nonces, ?_⟩, same⟩
  rw [same]
  decide

private theorem twoBuffers_plots : twoBuffers.Plots where
  bench := rfl
  supported := GpuPlotter.inOrder_supported (by decide) (by decide) (by decide)
  lanes := by decide
  filled := .inl (by decide)

/-- The file of eight nonces is the same on both. -/
theorem options_agree_twoBuffers : ∃ entry other : FileEntry, entry.size = other.size ∧
    ∀ a < entry.size, entry.bytes a = other.bytes a := by
  obtain ⟨plan, started, setup, _, files⟩ := oneDriver_started
  obtain ⟨started', setup'⟩ := twoBuffers_started started setup
  have alone : System.LeftAlone (System.roundRobin (oneDriver.setup plan)) :=
    System.roundRobin_leftAlone (by rw [setup]; decide)
  have alone' : System.LeftAlone (System.roundRobin (twoBuffers.setup plan)) :=
    System.roundRobin_leftAlone (by rw [setup']; decide)
  have pid : oneDriver.request.plotId = twoBuffers.request.plotId := rfl
  have agree := options_agree pid started started' oneDriver_plots twoBuffers_plots
    (by rw [setup]; decide) (by rw [setup']; decide) alone alone' System.roundRobin_renames
    System.roundRobin_renames (idle_shows _ plan) (idle_shows _ plan) (Folders.empty_fitFor plan)
    (Folders.empty_fitFor plan)
  obtain ⟨n, agree⟩ := agree.exists
  have member : (⟨1, 0, 8⟩ : PlannedFile) ∈ plan.files "a".toList := by
    rw [files]
    exact List.mem_singleton_self _
  obtain ⟨entry, other, _, _, _, same⟩ := agree "a".toList _ member "a".toList _ member
  exact ⟨entry, other, same rfl⟩

end HyperPlotter.Plotter

import HyperPlotter.Pipeline.Rounds
import HyperPlotter.Pipeline.Whole
import HyperPlotter.Plan.WellFormed

/-!
# The dispatcher's counters

`dispatched_nonces` and `finished_nonces` are of type `int`, and the loop compares
them with the 64-bit `total_nonces`. The planner bounds every file, not the total.
-/

namespace HyperPlotter.Pipeline

open Foundation Poc

namespace System

variable (setup : PlotterSetup)

/-- The hash task an event dispatches. -/
def dispatched (s : System) : SystemEvent → List HasherTask
  | .dispatch hasherSize writerSize choice =>
    (s.dispatcher.dispatch setup hasherSize writerSize choice).1.toList
  | _ => []

/-- The report an event takes in. -/
def accounted (s : System) : SystemEvent → List HasherTask
  | .receive false => s.reports.head?.toList
  | _ => []

end System

/-- After some events the counters are the sums over the tasks dispatched and the
reports taken in, and the comparisons with the total hold when there is nothing
left to dispatch, and to report. -/
structure CountersExact (setup : PlotterSetup) (start : System) (events : List SystemEvent)
    (s : System) : Prop where
  dispatched : s.dispatcher.dispatchedNonces =
    flyingNonces (setup.machine.observed (System.dispatched setup) start events)
  finished : s.dispatcher.finishedNonces =
    flyingNonces (setup.machine.observed System.accounted start events)
  allDispatched : (toUInt64 s.dispatcher.dispatchedNonces : Int) = setup.totalNonces ↔
    s.dispatcher.remaining setup = 0
  allFinished : (toUInt64 s.dispatcher.finishedNonces : Int) = setup.totalNonces ↔
    s.dispatcher.remaining setup = 0 ∧ s.inFlight setup = []

variable {setup : PlotterSetup} {s t : System}

/-! ## The exact sums -/

/-- A sum over what is noted along a series of events. -/
private theorem observed_sum (note : System → SystemEvent → List HasherTask) (amount : System → Int)
    (grows : ∀ {s t : System} {event : SystemEvent}, setup.machine.Reachable s →
      s.step setup event = some t → amount t = amount s + flyingNonces (note s event))
    (reached : setup.machine.Reachable s) (events : List SystemEvent)
    (runs : setup.machine.run s events = some t) :
    amount t = amount s + flyingNonces (setup.machine.observed note s events) := by
  induction events generalizing s with
  | nil =>
      obtain rfl : s = t := Option.some.inj runs
      exact (Int.add_zero _).symm
  | cons event rest ih =>
      rw [Machine.run, List.foldlM_cons] at runs
      obtain ⟨next, taken, later⟩ := Option.bind_eq_some_iff.mp runs
      have known : setup.machine.step s event = some next := taken
      rw [ih (.step reached trivial known) later, grows reached known, Machine.observed, known,
        flyingNonces_append, Int.add_assoc]

/-- An event that neither dispatches nor takes in leaves the nonces where they are. -/
private theorem step_still (valid : setup.Valid) (reached : setup.machine.Reachable s)
    {event : SystemEvent} (taken : s.step setup event = some t) (waits : event ≠ .receive false)
    (decides : ∀ hasherSize writerSize choice, event ≠ .dispatch hasherSize writerSize choice) :
    t.dispatcher.remaining setup = s.dispatcher.remaining setup ∧
      flyingNonces (t.inFlight setup) = flyingNonces (s.inFlight setup) := by
  obtain ⟨balanced, orderly⟩ := reachable_balanced valid reached
  cases System.step_flow balanced.known orderly taken with
  | pass dispatcher passed => exact ⟨by rw [dispatcher], flyingNonces_perm passed.flight⟩
  | poll dispatcher passed => exact ⟨by rw [dispatcher]; rfl, flyingNonces_perm passed.flight⟩
  | timeout dispatcher passed =>
      refine ⟨?_, flyingNonces_perm passed.flight⟩
      unfold Dispatcher.remaining
      rw [dispatcher, (System.receive_side setup _ none).2]
  | report => exact absurd rfl waits
  | dispatch hasherSize writerSize choice => exact absurd rfl (decides _ _ _)

/-- What a decision does to the nonces. -/
private theorem step_dispatch (valid : setup.Valid) (reached : setup.machine.Reachable s)
    {hasherSize : Nat} {writerSize : Nat → Nat} {choice : MemoryChoice}
    (taken : s.step setup (.dispatch hasherSize writerSize choice) = some t) :
    t.dispatcher.remaining setup +
        flyingNonces (s.dispatched setup (.dispatch hasherSize writerSize choice)) =
      s.dispatcher.remaining setup ∧
    flyingNonces (t.inFlight setup) = flyingNonces (s.inFlight setup) +
      flyingNonces (s.dispatched setup (.dispatch hasherSize writerSize choice)) := by
  have balanced := (reachable_balanced valid reached).1
  cases System.step_move taken with
  | dispatch place fresh =>
      refine ⟨balanced.dispatch_remaining valid (balanced.deciding place) hasherSize writerSize fresh,
        ?_⟩
      unfold System.inFlight System.dispatched System.dispatch
      simp only [flyingNonces_append]
      omega

/-- What a report does to the nonces. -/
private theorem step_report (taken : s.step setup (.receive false) = some t) :
    t.dispatcher.remaining setup = s.dispatcher.remaining setup ∧
      flyingNonces (t.inFlight setup) + flyingNonces (s.accounted (.receive false)) =
        flyingNonces (s.inFlight setup) := by
  cases System.step_move taken with
  | receive place reported =>
      constructor
      · unfold Dispatcher.remaining
        simp only [(System.receive_side setup s.dispatcher _).2]
      · unfold System.inFlight System.accounted
        simp only [reported, List.head?_cons, Option.toList_some, flyingNonces_append,
          flyingNonces_cons, flyingNonces_nil]
        omega

/-- What an event dispatches and takes in, in nonces. -/
private theorem step_nonces (valid : setup.Valid) (reached : setup.machine.Reachable s)
    {event : SystemEvent} (taken : s.step setup event = some t) :
    t.dispatcher.remaining setup + flyingNonces (s.dispatched setup event) =
        s.dispatcher.remaining setup ∧
      flyingNonces (t.inFlight setup) + flyingNonces (s.accounted event) =
        flyingNonces (s.inFlight setup) + flyingNonces (s.dispatched setup event) := by
  have still : event ≠ .receive false →
      (∀ hasherSize writerSize choice, event ≠ .dispatch hasherSize writerSize choice) →
      t.dispatcher.remaining setup + 0 = s.dispatcher.remaining setup ∧
        flyingNonces (t.inFlight setup) + 0 = flyingNonces (s.inFlight setup) + 0 := by
    intro waits decides
    obtain ⟨remaining, flying⟩ := step_still valid reached taken waits decides
    exact ⟨by omega, by omega⟩
  cases event with
  | dispatch hasherSize writerSize choice =>
      obtain ⟨remaining, flying⟩ := step_dispatch valid reached taken
      exact ⟨remaining, (Int.add_zero _).trans flying⟩
  | receive timeout =>
      cases timeout with
      | false =>
          obtain ⟨remaining, flying⟩ := step_report taken
          exact ⟨(Int.add_zero _).trans remaining, flying.trans (Int.add_zero _).symm⟩
      | true => exact still (by rintro ⟨⟩) (by rintro _ _ _ ⟨⟩)
  | _ => exact still (by rintro ⟨⟩) (by rintro _ _ _ ⟨⟩)

/-- The sums over a run from its start. -/
private theorem run_sums (valid : setup.Valid) {start : System} (starts : start.Start setup)
    (events : List SystemEvent) (runs : setup.machine.run start events = some s) :
    flyingNonces (setup.machine.observed (System.dispatched setup) start events) =
        setup.totalNonces - s.dispatcher.remaining setup ∧
      flyingNonces (setup.machine.observed System.accounted start events) =
        setup.totalNonces - s.dispatcher.remaining setup - flyingNonces (s.inFlight setup) := by
  have reached : setup.machine.Reachable start := .start starts
  have left : start.dispatcher.remaining setup = setup.totalNonces := by
    rw [starts.dispatcher, Dispatcher.start_remaining]
  have empty : flyingNonces (start.inFlight setup) = 0 := by rw [starts.inFlight_eq]; rfl
  have out := observed_sum (System.dispatched setup)
    (fun s => setup.totalNonces - s.dispatcher.remaining setup)
    (fun reached taken => by have := (step_nonces valid reached taken).1; omega) reached events runs
  have back := observed_sum System.accounted
    (fun s => setup.totalNonces - s.dispatcher.remaining setup - flyingNonces (s.inFlight setup))
    (fun reached taken => by have := step_nonces valid reached taken; omega) reached events runs
  simp only [left, empty, Int.sub_self, Int.zero_add] at out back
  exact ⟨out.symm, back.symm⟩

/-- The counters are exact as long as the sum of what is dispatched fits in an
`int`. -/
private theorem exact_of_lt (valid : setup.Valid) {start : System} (starts : start.Start setup)
    (events : List SystemEvent) (runs : setup.machine.run start events = some s)
    (few : setup.totalNonces - s.dispatcher.remaining setup < 2147483648) :
    CountersExact setup start events s := by
  obtain ⟨out, back⟩ := run_sums valid starts events runs
  obtain ⟨balanced, _⟩ := reachable_balanced valid (Machine.Reaches.run (.start starts) events runs)
  have remaining := balanced.remaining_nonneg
  have reported := balanced.reported
  have flying : 0 ≤ flyingNonces (s.inFlight setup) := balanced.flying_nonneg
  have dispatched := balanced.dispatched
  have finished := balanced.finished
  rw [toInt32_eq (by omega) (by omega)] at dispatched finished
  constructor
  · rw [dispatched, out]
  · rw [finished, back]
  · rw [dispatched]
    unfold toUInt64
    omega
  · constructor
    · exact balanced.all_counted valid
    · rintro ⟨none_left, empty⟩
      rw [finished, none_left, empty, flyingNonces_nil]
      unfold toUInt64
      omega

/-! ## Blocks that do not fit -/

/-- When a block does not fit into the address space there is never a task. -/
private theorem nothing_dispatched (huge : BlockAllocator.addressSpace ≤ setup.blockSize)
    {d : Dispatcher} {flight : List HasherTask} (balanced : Balanced setup d flight) :
    flight = [] := by
  have unused : d.allocator.used = [] := by
    refine List.eq_nil_iff_forall_not_mem.mpr fun block member => ?_
    have held : block ∈ d.allocator.held := List.mem_append_right _ member
    have length := balanced.backed.lengths block held
    have inside := balanced.backed.represented.inside block held
    have isValid : block.data ≠ 0 ∧ block.len ≠ 0 := by
      simpa [PagedBlock.valid] using balanced.backed.represented.valid block held
    omega
  have blocks := balanced.backed.used
  rw [unused, List.map_nil] at blocks
  exact List.map_eq_nil_iff.mp (List.nil_perm.mp blocks)

/-- And all nonces are left. -/
private theorem remaining_eq_total (valid : setup.Valid)
    (huge : BlockAllocator.addressSpace ≤ setup.blockSize)
    (reached : setup.machine.Reachable s) :
    s.dispatcher.remaining setup = setup.totalNonces := by
  refine Machine.Reaches.invariant (fun s => s.dispatcher.remaining setup = setup.totalNonces)
    (fun {s} start => ?_) (fun {s event t} reached left _ taken => ?_) reached
  · rw [System.Start.dispatcher start, Dispatcher.start_remaining]
  · have here := nothing_dispatched huge (reachable_balanced valid reached).1
    have next := nothing_dispatched huge (reachable_balanced valid (reached.step trivial taken)).1
    have reports := (System.queues_of_empty here).2.1
    have nothing : s.accounted event = [] := by
      unfold System.accounted
      split
      · rw [reports]
        rfl
      · rfl
    have nonces := step_nonces valid reached taken
    rw [here, next, nothing] at nonces
    simp only [flyingNonces_nil] at nonces
    omega

/-! ## Sums that do not fit -/

/-- A plan of at least `2^31` nonces can be dispatched that far. -/
private theorem exists_sum_large (valid : setup.Valid)
    (fits : setup.blockSize < BlockAllocator.addressSpace)
    (large : 2147483648 ≤ setup.totalNonces) (bound : Nat) (resting : System.Resting setup s)
    (left : s.dispatcher.remaining setup ≤ bound) :
    ∃ t, setup.machine.Reachable t ∧
      2147483648 ≤ setup.totalNonces - t.dispatcher.remaining setup := by
  induction bound generalizing s with
  | zero => exact ⟨s, resting.reached, by omega⟩
  | succ bound ih =>
      by_cases few : setup.totalNonces - s.dispatcher.remaining setup < 2147483648
      · by_cases work : 0 < s.dispatcher.remaining setup
        · obtain ⟨t, rests, less⟩ := resting.round valid fits few work
          exact ih rests (by omega)
        · exact ⟨s, resting.reached, by omega⟩
      · exact ⟨s, resting.reached, by omega⟩

/-- Then the counter of what is dispatched is not the sum. -/
private theorem not_exact_of_large (valid : setup.Valid)
    (fits : setup.blockSize < BlockAllocator.addressSpace)
    (large : 2147483648 ≤ setup.totalNonces) : ∃ start events s, start.Start setup ∧
      setup.machine.run start events = some s ∧ ¬CountersExact setup start events s := by
  have rests := (System.idle_start setup).resting
  have left := (reachable_balanced valid rests.reached).1.remaining_nonneg
  obtain ⟨s, reached, far⟩ := exists_sum_large valid fits large
    ((System.idle setup).dispatcher.remaining setup).toNat rests (by omega)
  obtain ⟨start, events, starts, runs⟩ := reached.exists_run
  refine ⟨start, events, s, starts, runs, fun exact_ => ?_⟩
  have out := (run_sums valid starts events runs).1
  have wrapped := (reachable_balanced valid reached).1.dispatched
  rw [exact_.dispatched, out] at wrapped
  unfold toInt32 at wrapped
  omega

/-- The counters are exact in every run when the total fits in an `int`, or when no
block fits into the address space. -/
theorem countersExact_iff (valid : setup.Valid) :
    (∀ start events s, start.Start setup → setup.machine.run start events = some s →
        CountersExact setup start events s) ↔
      setup.totalNonces < 2147483648 ∨ BlockAllocator.addressSpace ≤ setup.blockSize := by
  constructor
  · intro always
    by_contra neither
    rw [not_or, Int.not_lt, Nat.not_le] at neither
    obtain ⟨start, events, s, starts, runs, inexact⟩ :=
      not_exact_of_large valid neither.2 neither.1
    exact inexact (always start events s starts runs)
  · rintro small start events s starts runs
    have reached := Machine.Reaches.run (.start starts) events runs
    have remaining := (reachable_balanced valid reached).1.remaining_nonneg
    refine exact_of_lt valid starts events runs ?_
    rcases small with total | huge
    · omega
    · rw [remaining_eq_total valid huge reached, Int.sub_self]
      decide

/-- A run in which a task was taken. -/
theorem countersExact_iff_oneFile :
    ∃ s, oneFile.machine.run (.idle oneFile) taskTaken = some s ∧
      CountersExact oneFile (.idle oneFile) taskTaken s := by
  obtain ⟨s, runs⟩ : ∃ s, oneFile.machine.run (.idle oneFile) taskTaken = some s := ⟨_, rfl⟩
  have always := (countersExact_iff oneFile_valid).mpr (.inl (by decide))
  exact ⟨s, runs, always _ _ s (System.idle_start oneFile) runs⟩

/-- Two drivers with room for `2^30` nonces each, and more nonces than that. -/
def largeRequest : Plan.PlanRequest where
  plotId := 1
  startNonce := 0
  totalNonces := 2147483648
  weight := 268435456
  drivers := ["a".toList, "b".toList]
  plotId_lt := Plan.twoDrivers.plotId_lt
  startNonce_lt := Plan.twoDrivers.startNonce_lt

/-- Empty directories with `2^48` free bytes. -/
def largeDrives (_ : Text) : Plan.Drive := ⟨true, 281474976710656, []⟩

/-- What is set up for the plan, with 8 GiB of memory. -/
def largePlot : PlotterSetup where
  gpu := .inOrder 8192
  buffers := 1
  maxMem := 8589934592
  bench := 0
  plans := [[⟨1, 0, 1073741824⟩], [⟨1, 1073741824, 1073741824⟩]]

private theorem largePlot_valid : largePlot.Valid where
  files := by
    rintro plan listed file member
    rcases List.mem_cons.mp listed with rfl | listed
    · obtain rfl := List.mem_singleton.mp member
      exact ⟨by decide, by decide, by decide⟩
    · obtain rfl := List.mem_singleton.mp listed
      obtain rfl := List.mem_singleton.mp member
      exact ⟨by decide, by decide, by decide⟩
  memory := by decide
  flying := by decide
  few := by decide
  planned := by decide
  total := by decide

/-- The planner makes a plan of `2^31` nonces, and a run of it has a wrong count. -/
theorem not_countersExact :
    (Plan.Planner.plan largeRequest largeDrives).map Plan.Planner.plans = some largePlot.plans ∧
      ∃ start events s, start.Start largePlot ∧ largePlot.machine.run start events = some s ∧
        ¬CountersExact largePlot start events s :=
  ⟨by decide +kernel, not_exact_of_large largePlot_valid (by decide) (by decide)⟩

end HyperPlotter.Pipeline

import HyperPlotter.Pipeline.Allocator
import HyperPlotter.Pipeline.Tasks
import HyperPlotter.Poc.GpuPlotter

/-!
# The dispatcher loop

The loop at the end of `run_plotter` with the variables only its thread uses:
the counters, the writer position, the allocator, and the writers' side of
`next_hasher_task`. One iteration takes in a report and may put a hash task
onto the hasher's queue.
-/

namespace HyperPlotter.Pipeline

open Foundation Poc

/-- What `run_plotter` has set up when the threads start: the device, the buffer
factor, `max_mem_to_use`, `bench_mode`, and the files of each writer in the
order of `workers_`. -/
structure PlotterSetup where
  gpu : GpuPlotter
  buffers : Nat
  maxMem : Nat
  bench : Nat
  plans : List (List PlannedFile)

namespace PlotterSetup

variable (setup : PlotterSetup)

/-- The files of one writer. -/
def plan (writer : Nat) : List PlannedFile := setup.plans.getD writer []

/-- `work_size`. -/
def workSize : Nat := setup.gpu.globalWorkSize * setup.buffers

/-- The number of bytes of a block. -/
def blockSize : Nat := setup.workSize * plotSize

/-- `workers_.size()`: the writers and the hasher. -/
def workers : Nat := setup.plans.length + 1

/-- `max_flying_tasks`. -/
def maxFlyingTasks : Nat := min (setup.maxMem / setup.workSize / plotSize) (setup.workers * 2)

/-- `total_nonces` after the planner took off what it could not place. -/
def totalNonces : Int := (setup.plans.flatten.map PlannedFile.nonces).sum

/-- What holds when the threads start. `run_plotter` returns before when there is
nothing to plot or no memory for a task. The files were planned within the free
bytes of disks, far fewer than `2^63` nonces. -/
structure Valid : Prop where
  files : ∀ plan ∈ setup.plans, ∀ file ∈ plan, file.Valid
  memory : setup.maxMem < 18446744073709551616
  flying : setup.maxFlyingTasks ≠ 0
  few : setup.workers < 2147483648
  planned : setup.totalNonces ≠ 0
  total : setup.totalNonces < 9223372036854775808

/-- The files of every writer are valid. -/
theorem Valid.plan {setup : PlotterSetup} (valid : setup.Valid) (i : Nat) :
    ∀ file ∈ setup.plan i, file.Valid := by
  intro file member
  unfold PlotterSetup.plan at member
  rw [List.getD_eq_getElem?_getD] at member
  cases found : setup.plans[i]? with
  | none => simp [found] at member
  | some plan => exact valid.files plan (List.mem_of_getElem? found) file (by simpa [found] using member)

end PlotterSetup

/-- The dispatcher's place in its loop: the test of `sig_stop_`, the wait for a
report, the decision on a new task, and the end after the loop. -/
inductive DispatcherPlace where
  | head
  | reports
  | deciding
  | closing
deriving DecidableEq

/-- The dispatcher. `declared` records `Plotting finished!!!`. -/
structure Dispatcher where
  place : DispatcherPlace
  declared : Bool
  curWorkerPos : Int
  dispatchedNonces : Int
  finishedNonces : Int
  onGoingTask : Int
  cursors : Nat → Nat
  writerTasks : Nat → List WriterTask
  allocator : BlockAllocator

namespace Dispatcher

variable (setup : PlotterSetup) (d : Dispatcher)

/-- The dispatcher before its first iteration. -/
def start : Dispatcher where
  place := .head
  declared := false
  curWorkerPos := 0
  dispatchedNonces := 0
  finishedNonces := 0
  onGoingTask := 0
  cursors _ := 0
  writerTasks writer := (setup.plan writer).map WriterTask.new
  allocator := .empty setup.maxMem

/-- The test of the loop. -/
def poll (stopped : Bool) : Dispatcher :=
  { d with place := if stopped then .closing else .reports }

/-- A report is taken in. -/
def account (report : HasherTask) : Dispatcher :=
  { d with
    allocator := d.allocator.retain (d.allocator.usedAt report.block)
    finishedNonces := toInt32 (d.finishedNonces + report.nonces)
    onGoingTask := toInt32 (d.onGoingTask - 1) }

/-- Whether there is anything to dispatch; `workers_` is never empty. -/
def gate : Dispatcher :=
  if (toUInt64 d.finishedNonces : Int) = setup.totalNonces then
    { d with place := .closing, declared := true }
  else if (toUInt64 d.dispatchedNonces : Int) = setup.totalNonces then { d with place := .head }
  else if toUInt64 d.onGoingTask ≥ setup.maxFlyingTasks then { d with place := .head }
  else { d with place := .deciding }

/-- The iteration from `pop_for` to the test of `on_going_task`. -/
def receive (report : Option HasherTask) : Dispatcher :=
  match report with
  | none => d.gate setup
  | some report => (d.account report).gate setup

/-- The next hash task of the writer at `pos` in a block, or the block is handed
back. -/
def assign (pos : Int) (block : PagedBlock) : Option HasherTask × Dispatcher :=
  match nextHasherTask (toInt32 setup.workSize) pos.toNat block.data (d.cursors pos.toNat)
      (d.writerTasks pos.toNat) with
  | (none, cur, tasks) =>
    (none, { d with
      cursors := Function.update d.cursors pos.toNat cur
      writerTasks := Function.update d.writerTasks pos.toNat tasks
      allocator := d.allocator.retain block })
  | (some task, cur, tasks) =>
    (some task, { d with
      cursors := Function.update d.cursors pos.toNat cur
      writerTasks := Function.update d.writerTasks pos.toNat tasks
      dispatchedNonces := toInt32 (d.dispatchedNonces + task.nonces)
      onGoingTask := toInt32 (d.onGoingTask + 1) })

/-- `cur_worker_pos` after the wrap; the last worker is the hasher. -/
def wrapped : Int :=
  if d.curWorkerPos ≥ toInt32 setup.workers - 1 then 0 else d.curWorkerPos

/-- The rest of the iteration: the queue sizes as they are read, and what the
system does when the allocator asks for memory. The task goes onto the hasher's
queue. -/
def dispatch (hasherSize : Nat) (writerSize : Nat → Nat) (choice : MemoryChoice) :
    Option HasherTask × Dispatcher :=
  if hasherSize > 1 then (none, { d with place := .head })
  else
    let pos := d.wrapped setup
    if writerSize pos.toNat > 0 then (none, { d with curWorkerPos := pos + 1, place := .head })
    else
      match d.allocator.allocate choice setup.blockSize with
      | (none, allocator) =>
        (none, { d with curWorkerPos := pos, allocator := allocator, place := .head })
      | (some block, allocator) =>
        if block.valid then
          { d with curWorkerPos := pos + 1, allocator := allocator, place := .head }.assign
            setup pos block
        else (none, { d with curWorkerPos := pos, allocator := allocator, place := .head })

end Dispatcher

end HyperPlotter.Pipeline

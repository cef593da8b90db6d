import Mathlib.Logic.Function.Basic
import HyperPlotter.Foundation.Machine
import HyperPlotter.Pipeline.Tasks
import HyperPlotter.Plan.Scan

/-!
# The planner

`fn_task_allocator` of `run_plotter`: two passes over the drivers give each
driver files as long as there are nonces to generate and room on the driver.
-/

namespace HyperPlotter.Plan

open Foundation Poc Pipeline

namespace PlanRequest

variable (request : PlanRequest)

/-- `max_weight_per_file`. -/
def maxWeightPerFile : Nat := toUInt64 (request.weight * 1024 * 1024)

/-- `max_nonces_per_file`. -/
def maxNoncesPerFile : Nat := request.maxWeightPerFile / plotSize / 64 * 64

end PlanRequest

/-- The variables of the planner: the drivers with a writer in the order of
`workers_`, `free_spaces`, and the files in the order they are pushed, each with
the driver of its writer. -/
structure Planner where
  visited : List Text
  freeSpaces : Text → Int
  snToGen : Nat
  noncesToGen : Nat
  pushed : List (Text × PlannedFile)

/-- Drivers are looked up by their texts. -/
instance : LawfulBEq Text := inferInstance

namespace Planner

variable (request : PlanRequest) (drives : Text → Drive)

/-- Before the first pass. -/
def start : Planner where
  visited := []
  freeSpaces _ := 0
  snToGen := request.startNonce
  noncesToGen := request.totalNonces
  pushed := []

/-- The first visit of a driver makes its writer and scans its directory. None
when the scan throws. -/
def visit (p : Planner) (driver : Text) : Option Planner :=
  if driver ∈ p.visited then some p
  else
    (request.scan (drives driver)).map fun scan =>
      { p with
        visited := p.visited ++ [driver]
        freeSpaces := Function.update p.freeSpaces driver scan.free
        snToGen := max p.snToGen scan.lastSn }

/-- The nonces of the next file on a driver. `nonces_align` is the mask of the
multiples of `align`. -/
def nonces (align : Nat) (p : Planner) (driver : Text) : Nat :=
  let driverMaxNonces := (p.freeSpaces driver).tdiv plotSize
  let plotNonces := (max 0 (min (toInt64 request.maxNoncesPerFile) driverMaxNonces)).toNat
  min p.noncesToGen plotNonces / align * align

/-- A file is pushed to the driver's writer. -/
def push (p : Planner) (driver : Text) (nonces : Nat) : Planner :=
  { p with
    snToGen := toUInt64 (p.snToGen + nonces)
    noncesToGen := p.noncesToGen - nonces
    freeSpaces := Function.update p.freeSpaces driver
      (toInt64 (p.freeSpaces driver - nonces * plotSize))
    pushed := p.pushed ++ [(driver, ⟨request.plotId, p.snToGen, toInt32 nonces⟩)] }

/-- The `while` loop; a round takes at least one nonce off `nonces_to_gen`. -/
def fill (align : Nat) (driver : Text) : Nat → Planner → Planner
  | 0, p => p
  | rounds + 1, p =>
    if p.noncesToGen = 0 then p
    else
      let nonces := p.nonces request align driver
      if nonces = 0 ∨ nonces ≥ 2147483647 then p
      else fill align driver rounds (p.push request driver nonces)

/-- One driver of the `for` loop. -/
def serve (align : Nat) (p : Planner) (driver : Text) : Option Planner :=
  if (drives driver).present then
    (p.visit request drives driver).map fun p => p.fill request align driver p.noncesToGen
  else some p

/-- `fn_task_allocator`. -/
def allocate (align : Nat) (p : Planner) (drivers : List Text) : Option Planner :=
  drivers.foldlM (serve request drives align) p

/-- The two passes. -/
def plan : Option Planner := do
  let first ← (start request).allocate request drives 64 request.drivers
  first.allocate request drives 8 request.drivers

/-- The files of one driver's writer. -/
def files (p : Planner) (driver : Text) : List PlannedFile :=
  (p.pushed.filter (·.1 = driver)).map Prod.snd

/-- The files of all writers, in the order of `workers_`. -/
def plans (p : Planner) : List (List PlannedFile) := p.visited.map p.files

end Planner

end HyperPlotter.Plan

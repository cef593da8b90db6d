import Mathlib.Algebra.Order.BigOperators.Group.List
import HyperPlotter.Pipeline.Flow

/-!
# The dispatcher's books

What the dispatcher's counters and its allocator say about the hash tasks in
flight. `Balanced` is kept by each of the dispatcher's operations; the events of
the other threads leave it alone.
-/

namespace HyperPlotter.Pipeline

open Foundation Poc

variable (setup : PlotterSetup)

/-- The nonces of some hash tasks. -/
def flyingNonces (flight : List HasherTask) : Int := (flight.map HasherTask.nonces).sum

/-- The nonces no hash task has been made for. -/
def Dispatcher.remaining (d : Dispatcher) : Int :=
  (shares setup.plans.length fun i => (d.writerTasks i).map WriterTask.nonces).sum

/-- The allocator has handed out the blocks at the given addresses. -/
structure Backed (allocator : BlockAllocator) (blocks : List Nat) : Prop where
  represented : allocator.Represented
  maxMem : allocator.maxMem = setup.maxMem
  lengths : ∀ block ∈ allocator.held, block.len = setup.blockSize
  used : (allocator.used.map PagedBlock.data).Perm blocks
  count : allocator.held.length ≤ setup.maxFlyingTasks

/-- The dispatcher's counters and those of the writers fit the tasks in flight. -/
structure Counted (d : Dispatcher) (flight : List HasherTask) : Prop where
  known : ∀ task ∈ flight, System.Known setup task
  counting : ∀ i, Counting (d.writerTasks i)
  finished : d.finishedNonces =
    toInt32 (setup.totalNonces - d.remaining setup - flyingNonces flight)
  dispatched : d.dispatchedNonces = toInt32 (setup.totalNonces - d.remaining setup)
  reported : 0 ≤ setup.totalNonces - d.remaining setup - flyingNonces flight
  onGoing : d.onGoingTask = flight.length
  position : 0 ≤ d.curWorkerPos ∧ d.curWorkerPos ≤ setup.plans.length

/-- The books of the dispatcher: its counters and its blocks. -/
structure Balanced (d : Dispatcher) (flight : List HasherTask) : Prop
    extends Counted setup d flight where
  backed : Backed setup d.allocator (flight.map HasherTask.block)
  deciding : d.place = .deciding → flight.length < setup.maxFlyingTasks

variable {setup} {d : Dispatcher} {flight flight' : List HasherTask}

/-- The order of the tasks in flight does not matter. -/
theorem flyingNonces_perm (perm : flight.Perm flight') :
    flyingNonces flight = flyingNonces flight' := (perm.map _).sum_eq

@[simp] theorem flyingNonces_nil : flyingNonces [] = 0 := rfl

@[simp] theorem flyingNonces_append : flyingNonces (flight ++ flight') =
    flyingNonces flight + flyingNonces flight' := by
  unfold flyingNonces
  rw [List.map_append, List.sum_append]

@[simp] theorem flyingNonces_cons (task : HasherTask) :
    flyingNonces (task :: flight) = task.nonces + flyingNonces flight := by
  unfold flyingNonces
  rw [List.map_cons, List.sum_cons]

/-! ## Memory -/

/-- A block has at least the bytes of one nonce. -/
theorem PlotterSetup.Valid.blockSize_pos (valid : setup.Valid) : 262144 ≤ setup.blockSize := by
  have flying := valid.flying
  unfold PlotterSetup.blockSize
  cases size : setup.workSize with
  | zero =>
      unfold PlotterSetup.maxFlyingTasks at flying
      rw [size] at flying
      simp at flying
  | succ size => exact Nat.le_mul_of_pos_left 262144 (Nat.succ_pos _)

/-- The tasks that may fly fit into the memory. -/
theorem PlotterSetup.maxFlyingTasks_le (setup : PlotterSetup) :
    setup.maxFlyingTasks * setup.blockSize ≤ setup.maxMem := by
  unfold PlotterSetup.maxFlyingTasks PlotterSetup.blockSize
  rw [Nat.div_div_eq_div_mul]
  exact (Nat.mul_le_mul_right _ (Nat.min_le_left ..)).trans (Nat.div_mul_le_self ..)

namespace Backed

variable {allocator : BlockAllocator} {blocks : List Nat}

/-- The blocks held have one size. -/
theorem total_eq (backed : Backed setup allocator blocks) :
    allocator.totalAllocated = setup.blockSize * allocator.held.length := by
  rw [backed.represented.total, List.map_congr_left backed.lengths, List.map_const',
    List.sum_replicate_nat, Nat.mul_comm]

/-- Free and used blocks. -/
theorem held_length (backed : Backed setup allocator blocks) :
    allocator.held.length = allocator.free.length + blocks.length := by
  have length := backed.used.length_eq
  rw [List.length_map] at length
  unfold BlockAllocator.held
  rw [List.length_append, length]

/-- The address space bounds the number of blocks. -/
theorem length_le (valid : setup.Valid) (backed : Backed setup allocator blocks) :
    blocks.length ≤ 536870912 := by
  have size := valid.blockSize_pos
  have total := backed.represented.total_le
  rw [backed.total_eq] at total
  have bytes := Nat.mul_le_mul_right allocator.held.length size
  have held := backed.held_length
  unfold BlockAllocator.addressSpace at total
  omega

/-- While fewer blocks are used than allowed and none is free, one more is within
`max_mem_`. -/
theorem allocatedMem_le (backed : Backed setup allocator blocks)
    (valid : setup.Valid) (few : blocks.length < setup.maxFlyingTasks)
    (unfit : allocator.fitting setup.blockSize = []) :
    allocator.allocatedMem setup.blockSize ≤ allocator.maxMem ∧ allocator.free = [] := by
  have none : allocator.free = [] := by
    refine List.eq_nil_iff_forall_not_mem.mpr fun block member => ?_
    rw [BlockAllocator.fitting, List.filter_eq_nil_iff] at unfit
    have length := backed.lengths block (List.mem_append_left _ member)
    exact unfit block member (by simpa using length)
  have held := backed.held_length
  have memory := valid.memory
  have fits := setup.maxFlyingTasks_le
  have more : (blocks.length + 1) * setup.blockSize ≤ setup.maxFlyingTasks * setup.blockSize :=
    Nat.mul_le_mul_right _ few
  rw [Nat.add_mul, Nat.one_mul] at more
  have total := backed.total_eq
  rw [held, none, List.length_nil, Nat.zero_add, Nat.mul_comm] at total
  refine ⟨?_, none⟩
  unfold BlockAllocator.allocatedMem
  rw [backed.maxMem, total, ← Int.natCast_add, toUInt64_natCast (by omega)]
  omega

/-- A block the allocator hands out joins the used ones. -/
theorem allocate (valid : setup.Valid) (backed : Backed setup allocator blocks)
    (few : blocks.length < setup.maxFlyingTasks) {choice : MemoryChoice}
    (fresh : ∀ data, choice.fresh = some data → allocator.Fresh ⟨data, setup.blockSize⟩) :
    Backed setup (allocator.allocate choice setup.blockSize).2
      (blocks ++ ((allocator.allocate choice setup.blockSize).1.map PagedBlock.data).toList) ∧
    ∀ block, (allocator.allocate choice setup.blockSize).1 = some block →
      block ∈ (allocator.allocate choice setup.blockSize).2.used := by
  have positive := valid.blockSize_pos
  have represented := backed.represented.allocate choice (by omega) fresh
  rcases allocator.allocate_cases choice setup.blockSize with
    ⟨block, member, length, taken⟩ | refused | ⟨data, chosen, unfit, room, grown⟩
  · have perm := BlockAllocator.held_reuse member
    rw [taken] at represented ⊢
    refine ⟨⟨represented, backed.maxMem, ?_, ?_, ?_⟩, ?_⟩
    · exact fun other listed => backed.lengths other (perm.mem_iff.mp listed)
    · rw [List.map_append]
      exact backed.used.append_right _
    · rw [perm.length_eq]
      exact backed.count
    · rintro _ ⟨⟩
      exact List.mem_append_right _ (List.mem_singleton_self _)
  · rw [refused]
    exact ⟨by simpa using backed, nofun⟩
  · have none := (backed.allocatedMem_le valid few unfit).2
    have held := backed.held_length
    rw [none, List.length_nil, Nat.zero_add] at held
    rw [grown] at represented ⊢
    refine ⟨⟨represented, backed.maxMem, ?_, ?_, ?_⟩, ?_⟩
    · intro other listed
      rw [BlockAllocator.held, ← List.append_assoc] at listed
      rcases List.mem_append.mp listed with old | new
      · exact backed.lengths other old
      · rw [List.mem_singleton.mp new]
    · rw [List.map_append]
      exact backed.used.append_right _
    · rw [BlockAllocator.held, ← List.append_assoc, List.length_append, List.length_singleton]
      exact Nat.lt_of_le_of_lt (Nat.le_of_eq held) few
    · rintro _ ⟨⟩
      exact List.mem_append_right _ (List.mem_singleton_self _)

/-- A retained block leaves the used ones. -/
theorem retain (backed : Backed setup allocator blocks) {block : PagedBlock} {rest : List Nat}
    (member : block ∈ allocator.used) (others : blocks.Perm (block.data :: rest)) :
    Backed setup (allocator.retain block) rest := by
  have perm := backed.represented.held_retain member
  refine ⟨backed.represented.retain member, backed.maxMem, ?_, ?_, ?_⟩
  · exact fun other listed => backed.lengths other (perm.mem_iff.mp listed)
  · rw [backed.represented.retain_eq member]
    have used := (List.perm_cons_erase member).map PagedBlock.data
    exact (used.symm.trans (backed.used.trans others)).cons_inv
  · rw [perm.length_eq]
    exact backed.count

end Backed

/-! ## The operations -/

/-- The order of the tasks does not matter. -/
theorem Balanced.of_perm (balanced : Balanced setup d flight) (perm : flight'.Perm flight) :
    Balanced setup d flight' where
  known := fun task member => balanced.known task (perm.mem_iff.mp member)
  counting := balanced.counting
  finished := by rw [flyingNonces_perm perm, balanced.finished]
  dispatched := balanced.dispatched
  reported := by
    rw [flyingNonces_perm perm]
    exact balanced.reported
  onGoing := by rw [perm.length_eq, balanced.onGoing]
  position := balanced.position
  backed := { balanced.backed with used := balanced.backed.used.trans (perm.map _).symm }
  deciding := by
    rw [perm.length_eq]
    exact balanced.deciding

/-- Another place that is not the decision. -/
theorem Balanced.move (balanced : Balanced setup d flight) {place : DispatcherPlace}
    (declared : Bool) (differ : place ≠ .deciding) :
    Balanced setup { d with place := place, declared := declared } flight :=
  { balanced with deciding := fun same => absurd same differ }

/-- The address space bounds the number of tasks in flight. -/
theorem Balanced.length_le (valid : setup.Valid) (balanced : Balanced setup d flight) :
    flight.length ≤ 536870912 := by
  have length := balanced.backed.length_le valid
  rwa [List.length_map] at length

/-- No more tasks are in flight than blocks are allowed. -/
theorem Balanced.flying (balanced : Balanced setup d flight) :
    flight.length ≤ setup.maxFlyingTasks := by
  have count := balanced.backed.count
  have held := balanced.backed.held_length
  rw [List.length_map] at held
  omega

/-- Before the first iteration all nonces are left. -/
theorem Dispatcher.start_remaining (setup : PlotterSetup) :
    (Dispatcher.start setup).remaining setup = setup.totalNonces := by
  have nonces : ∀ i, ((Dispatcher.start setup).writerTasks i).map WriterTask.nonces =
      (setup.plan i).map PlannedFile.nonces := by
    intro i
    show ((setup.plan i).map WriterTask.new).map WriterTask.nonces = _
    rw [List.map_map]
    rfl
  unfold Dispatcher.remaining PlotterSetup.totalNonces
  simp only [nonces]
  rw [← shares_getD, shares, shares, List.map_flatMap]
  rfl

/-- Before the first iteration nothing is in flight. -/
theorem Dispatcher.start_balanced (valid : setup.Valid) : Balanced setup (.start setup) [] := by
  have remaining := Dispatcher.start_remaining setup
  have empty : Backed setup (Dispatcher.start setup).allocator [] :=
    ⟨BlockAllocator.empty_represented _, rfl, List.forall_mem_nil _, .nil, Nat.zero_le _⟩
  refine ⟨⟨List.forall_mem_nil _, ?_, ?_, ?_, ?_, rfl, ⟨Int.le_refl 0, Int.natCast_nonneg _⟩⟩,
    empty, fun place => DispatcherPlace.noConfusion place⟩
  · intro i task member
    obtain ⟨file, listed, rfl⟩ := List.mem_map.mp member
    have fileValid := valid.plan i file listed
    have nonempty := fileValid.nonempty
    have bounded := fileValid.bounded
    exact ⟨Int.le_of_lt nonempty, Int.lt_trans bounded (by decide)⟩
  · rw [remaining, flyingNonces_nil, Int.sub_self]
    rfl
  · rw [remaining, Int.sub_self]
    rfl
  · rw [remaining, flyingNonces_nil, Int.sub_self]
    exact Int.le_refl 0

/-- Polling the signal keeps the balance. -/
theorem Balanced.poll (balanced : Balanced setup d flight) (stopped : Bool) :
    Balanced setup (d.poll stopped) flight := by
  cases stopped with
  | true => exact balanced.move d.declared nofun
  | false => exact balanced.move d.declared nofun

/-- Only with room for a task the dispatcher goes on to decide. -/
theorem Balanced.gate (valid : setup.Valid) (balanced : Balanced setup d flight) :
    Balanced setup (d.gate setup) flight := by
  unfold Dispatcher.gate
  split
  · exact balanced.move true nofun
  · split
    · exact balanced.move d.declared nofun
    · split
      · exact balanced.move d.declared nofun
      · rename_i room
        refine { balanced with deciding := fun _ => ?_ }
        have length := balanced.length_le valid
        rw [balanced.onGoing, toUInt64_natCast (by omega)] at room
        omega

/-- A report takes its task out of the books. -/
theorem Balanced.account (valid : setup.Valid) {report : HasherTask}
    (balanced : Balanced setup d (report :: flight)) (elsewhere : d.place ≠ .deciding) :
    Balanced setup (d.account report) flight := by
  obtain ⟨block, member, address⟩ : ∃ block ∈ d.allocator.used, block.data = report.block := by
    have mine : report.block ∈ (report :: flight).map HasherTask.block := by simp
    exact List.mem_map.mp (balanced.backed.used.mem_iff.mpr mine)
  have pointer : d.allocator.usedAt report.block = block := by
    rw [← address]
    exact balanced.backed.represented.usedAt member
  have length := balanced.length_le valid
  rw [List.length_cons] at length
  have positive := (balanced.known report (List.mem_cons_self ..)).positive
  have reported := balanced.reported
  rw [flyingNonces_cons] at reported
  refine ⟨⟨?_, balanced.counting, ?_, balanced.dispatched, ?_, ?_, balanced.position⟩, ?_,
    fun same => absurd same elsewhere⟩
  · exact fun task listed => balanced.known task (List.mem_cons_of_mem _ listed)
  · show toInt32 (d.finishedNonces + report.nonces) = _
    rw [balanced.finished, toInt32_add_toInt32, flyingNonces_cons]
    exact congrArg toInt32 (by simp only [Dispatcher.account, Dispatcher.remaining]; omega)
  · show 0 ≤ setup.totalNonces - d.remaining setup - flyingNonces flight
    omega
  · show toInt32 (d.onGoingTask - 1) = _
    rw [balanced.onGoing, List.length_cons, toInt32_eq (by omega) (by omega)]
    omega
  · show Backed setup (d.allocator.retain _) _
    rw [pointer]
    refine balanced.backed.retain member ?_
    rw [address]
    exact .refl _

/-- The nonces left when one writer's counters change. -/
private theorem remaining_update {i : Nat} (inside : i < setup.plans.length)
    (tasks : List WriterTask) (d' : Dispatcher)
    (updated : d'.writerTasks = Function.update d.writerTasks i tasks) :
    d'.remaining setup + remainingNonces (d.writerTasks i) =
      d.remaining setup + remainingNonces tasks := by
  obtain ⟨rest, taken, exchange⟩ := shares_perm inside fun j =>
    (d.writerTasks j).map WriterTask.nonces
  have given := exchange (fun j => (d'.writerTasks j).map WriterTask.nonces) fun j differ => by
    rw [updated, Function.update_of_ne differ]
  unfold Dispatcher.remaining remainingNonces
  rw [taken.sum_eq, given.sum_eq, List.sum_append, List.sum_append, updated, Function.update_self]
  omega

/-- No file has fewer than zero nonces left. -/
theorem Balanced.counters_nonneg (balanced : Balanced setup d flight) :
    ∀ nonces ∈ shares setup.plans.length fun i => (d.writerTasks i).map WriterTask.nonces,
      0 ≤ nonces := by
  intro nonces member
  obtain ⟨i, _, listed⟩ := mem_shares.mp member
  obtain ⟨task, here, rfl⟩ := List.mem_map.mp listed
  exact (balanced.counting i task here).1

/-- The nonces left are not negative. -/
theorem Balanced.remaining_nonneg (balanced : Balanced setup d flight) :
    0 ≤ d.remaining setup := List.sum_nonneg balanced.counters_nonneg

/-- No task in flight has fewer than zero nonces. -/
theorem Balanced.nonces_nonneg (balanced : Balanced setup d flight) :
    ∀ nonces ∈ flight.map HasherTask.nonces, 0 ≤ nonces := by
  intro nonces member
  obtain ⟨task, listed, rfl⟩ := List.mem_map.mp member
  exact Int.le_of_lt (balanced.known task listed).positive

/-- Nor are those in flight. -/
theorem Balanced.flying_nonneg (balanced : Balanced setup d flight) : 0 ≤ flyingNonces flight :=
  List.sum_nonneg balanced.nonces_nonneg

/-- The `int` work size is positive once there is a block. -/
theorem Backed.workSize {allocator : BlockAllocator} {blocks : List Nat}
    (valid : setup.Valid) (backed : Backed setup allocator blocks) {block : PagedBlock}
    (member : block ∈ allocator.used) : 0 < toInt32 setup.workSize := by
  have size := valid.blockSize_pos
  have inside := backed.represented.inside block (List.mem_append_right _ member)
  rw [backed.lengths block (List.mem_append_right _ member)] at inside
  have bytes : setup.blockSize = setup.workSize * 262144 := rfl
  unfold BlockAllocator.addressSpace at inside
  rw [toInt32_eq (by omega) (by omega)]
  omega

/-- What a writer is assigned is taken off the nonces that are left. -/
private theorem assign_remaining (d : Dispatcher) {pos : Int} (inside : pos.toNat < setup.plans.length)
    (work : 0 < toInt32 setup.workSize) (counting : Counting (d.writerTasks pos.toNat))
    (block : PagedBlock) : (d.assign setup pos block).2.remaining setup +
      flyingNonces (d.assign setup pos block).1.toList = d.remaining setup := by
  have taken := nextHasherTask_taken work pos.toNat block.data (d.cursors pos.toNat) counting
  unfold Dispatcher.assign
  generalize nextHasherTask (toInt32 setup.workSize) pos.toNat block.data (d.cursors pos.toNat)
    (d.writerTasks pos.toNat) = answer at taken
  obtain ⟨handed, cur, tasks⟩ := answer
  cases handed with
  | none =>
      have unchanged : tasks = d.writerTasks pos.toNat := taken.exhausted rfl
      subst unchanged
      simp only [Function.update_eq_self]
      exact Int.add_zero _
  | some task =>
      have cut := taken.remaining task rfl
      simp only [] at cut
      rw [Option.toList_some, flyingNonces_cons, flyingNonces_nil]
      have exchange : ∀ left : Int, left + remainingNonces (d.writerTasks pos.toNat) =
          d.remaining setup + remainingNonces tasks →
          left + (task.nonces + 0) = d.remaining setup := by omega
      exact exchange _ (remaining_update inside tasks _ rfl)

/-- The next hash task joins the books, or its block is handed back. -/
private theorem Counted.assign (valid : setup.Valid) (counted : Counted setup d flight) {pos : Int}
    (inside : pos.toNat < setup.plans.length) {block : PagedBlock}
    (member : block ∈ d.allocator.used)
    (backed : Backed setup d.allocator (flight.map HasherTask.block ++ [block.data]))
    (elsewhere : d.place ≠ .deciding) :
    Balanced setup (d.assign setup pos block).2 (flight ++ (d.assign setup pos block).1.toList) := by
  have work := backed.workSize valid member
  have length := backed.length_le valid
  rw [List.length_append, List.length_map, List.length_singleton] at length
  have left := assign_remaining d inside work (counted.counting pos.toNat) block
  have taken := nextHasherTask_taken work pos.toNat block.data (d.cursors pos.toNat)
    (counted.counting pos.toNat)
  unfold Dispatcher.assign at left ⊢
  generalize nextHasherTask (toInt32 setup.workSize) pos.toNat block.data (d.cursors pos.toNat)
    (d.writerTasks pos.toNat) = answer at left taken
  obtain ⟨handed, cur, tasks⟩ := answer
  have counting : ∀ i, Counting (Function.update d.writerTasks pos.toNat tasks i) := by
    intro i
    by_cases same : i = pos.toNat
    · subst same
      rw [Function.update_self]
      exact taken.counting
    · rw [Function.update_of_ne same]
      exact counted.counting i
  cases handed with
  | none =>
      have unchanged : tasks = d.writerTasks pos.toNat := taken.exhausted rfl
      subst unchanged
      simp only [Function.update_eq_self, Option.toList_none, List.append_nil]
      exact ⟨{ counted with }, backed.retain member (List.perm_append_singleton _ _),
        fun same => absurd same elsewhere⟩
  | some task =>
      have positive := taken.positive task rfl
      simp only [Option.toList_some, flyingNonces_cons, flyingNonces_nil] at left ⊢
      have reported := counted.reported
      refine ⟨⟨?_, counting, ?_, ?_, ?_, ?_, counted.position⟩, ?_,
        fun same => absurd same elsewhere⟩
      · intro other listed
        rcases List.mem_append.mp listed with old | new
        · exact counted.known other old
        · obtain rfl : other = task := by simpa using new
          exact ⟨by rw [taken.writer other rfl]; exact inside, taken.current other rfl, positive,
            taken.size other rfl⟩
      · refine counted.finished.trans (congrArg toInt32 ?_)
        rw [flyingNonces_append, flyingNonces_cons, flyingNonces_nil]
        omega
      · refine (congrArg (fun x => toInt32 (x + task.nonces)) counted.dispatched).trans ?_
        rw [toInt32_add_toInt32]
        exact congrArg toInt32 (by omega)
      · rw [flyingNonces_append, flyingNonces_cons, flyingNonces_nil]
        omega
      · show toInt32 (d.onGoingTask + 1) = _
        rw [counted.onGoing, toInt32_eq (by omega) (by omega), List.length_append,
          List.length_singleton]
        omega
      · rw [List.map_append, List.map_singleton, taken.block task rfl]
        exact backed

/-- The last element of `workers_` is the hasher: the position wraps to a writer. -/
theorem Counted.wrapped (valid : setup.Valid) (counted : Counted setup d flight) :
    0 ≤ d.wrapped setup ∧ d.wrapped setup < setup.plans.length := by
  have writers : 0 < setup.plans.length := by
    by_contra none
    refine valid.planned ?_
    unfold PlotterSetup.totalNonces
    rw [List.length_eq_zero_iff.mp (Nat.le_zero.mp (Nat.not_lt.mp none))]
    rfl
  have few := valid.few
  unfold PlotterSetup.workers at few
  have position := counted.position
  unfold Dispatcher.wrapped PlotterSetup.workers
  rw [toInt32_eq (by omega) (by omega)]
  split <;> omega

/-- What a decision does: it asks nobody, or it has a block for the next task of
the writer at the position. -/
inductive Decision (setup : PlotterSetup) (d : Dispatcher) (flight : List HasherTask) :
    Option HasherTask × Dispatcher → Prop where
  | nobody {pos : Int} {allocator : BlockAllocator} (lower : 0 ≤ pos)
    (upper : pos ≤ setup.plans.length) (backed : Backed setup allocator (flight.map HasherTask.block)) :
    Decision setup d flight
      (none, { d with curWorkerPos := pos, allocator := allocator, place := .head })
  | asks {block : PagedBlock} {allocator : BlockAllocator} (member : block ∈ allocator.used)
    (backed : Backed setup allocator (flight.map HasherTask.block ++ [block.data])) :
    Decision setup d flight (Dispatcher.assign setup
      { d with curWorkerPos := d.wrapped setup + 1, allocator := allocator, place := .head }
      (d.wrapped setup) block)

/-- What a dispatch of a balanced state decides. -/
theorem Balanced.decision (valid : setup.Valid) (balanced : Balanced setup d flight)
    (few : flight.length < setup.maxFlyingTasks) (hasherSize : Nat) (writerSize : Nat → Nat)
    {choice : MemoryChoice} (fresh : ∀ data, choice.fresh = some data →
      d.allocator.Fresh ⟨data, setup.blockSize⟩) :
    Decision setup d flight (d.dispatch setup hasherSize writerSize choice) := by
  obtain ⟨lower, upper⟩ := balanced.wrapped valid
  unfold Dispatcher.dispatch
  split
  · exact .nobody balanced.position.1 balanced.position.2 balanced.backed
  · simp only []
    split
    · exact .nobody (by omega) upper balanced.backed
    · obtain ⟨backed, handed⟩ := balanced.backed.allocate valid (by rwa [List.length_map]) fresh
      generalize d.allocator.allocate choice setup.blockSize = answer at backed handed
      obtain ⟨given, allocator⟩ := answer
      cases given with
      | none =>
          rw [Option.map_none, Option.toList_none, List.append_nil] at backed
          exact .nobody lower (Int.le_of_lt upper) backed
      | some block =>
          have member := handed block rfl
          have isValid := backed.represented.valid block (List.mem_append_right _ member)
          simp only [isValid, if_true]
          exact .asks member backed

/-- A decision keeps the books. -/
theorem Balanced.dispatch (valid : setup.Valid) (balanced : Balanced setup d flight)
    (place : d.place = .deciding) (hasherSize : Nat) (writerSize : Nat → Nat)
    {choice : MemoryChoice} (fresh : ∀ data, choice.fresh = some data →
      d.allocator.Fresh ⟨data, setup.blockSize⟩) :
    Balanced setup (d.dispatch setup hasherSize writerSize choice).2
      (flight ++ (d.dispatch setup hasherSize writerSize choice).1.toList) := by
  obtain ⟨lower, upper⟩ := balanced.wrapped valid
  have decided := balanced.decision valid (balanced.deciding place) hasherSize writerSize fresh
  generalize d.dispatch setup hasherSize writerSize choice = answer at decided
  cases decided with
  | nobody posLower posUpper backed =>
      rw [Option.toList_none, List.append_nil]
      exact ⟨{ balanced.toCounted with position := ⟨posLower, posUpper⟩ }, backed, nofun⟩
  | @asks block allocator member backed =>
      have counted : Counted setup { d with
          curWorkerPos := d.wrapped setup + 1, allocator := allocator, place := .head } flight :=
        { balanced.toCounted with position := ⟨Int.le_add_one lower, upper⟩ }
      exact counted.assign valid (by omega) member backed nofun

/-- What a decision dispatches is taken off the nonces that are left. -/
theorem Balanced.dispatch_remaining (valid : setup.Valid) (balanced : Balanced setup d flight)
    (few : flight.length < setup.maxFlyingTasks) (hasherSize : Nat) (writerSize : Nat → Nat)
    {choice : MemoryChoice} (fresh : ∀ data, choice.fresh = some data →
      d.allocator.Fresh ⟨data, setup.blockSize⟩) :
    (d.dispatch setup hasherSize writerSize choice).2.remaining setup +
      flyingNonces (d.dispatch setup hasherSize writerSize choice).1.toList = d.remaining setup := by
  obtain ⟨lower, upper⟩ := balanced.wrapped valid
  have decided := balanced.decision valid few hasherSize writerSize fresh
  generalize d.dispatch setup hasherSize writerSize choice = answer at decided
  cases decided with
  | nobody => exact Int.add_zero _
  | @asks block allocator member backed =>
      exact assign_remaining { d with
        curWorkerPos := d.wrapped setup + 1, allocator := allocator, place := .head } (by omega)
        (backed.workSize valid member) (balanced.counting (d.wrapped setup).toNat) block

/-! ## Every run -/

/-- Before the threads start nothing is in flight. -/
theorem System.Start.inFlight_eq {s : System} (start : s.Start setup) :
    s.inFlight setup = [] := by
  have shared : (fun i => s.queues i ++ (s.threads i).inHand) = fun _ => [] := by
    funext i
    obtain ⟨plotting, final, writeBuffer, thread⟩ := start.threads i
    rw [start.queues, thread]
    rfl
  unfold System.inFlight
  rw [start.hasherQueue, start.hasher, start.reports, shared]
  simp [shares, HasherPlace.task]

/-- An event keeps the books. -/
private theorem Balanced.step (valid : setup.Valid) {s t : System}
    (balanced : Balanced setup s.dispatcher (s.inFlight setup)) {event : SystemEvent} (flow : System.Flow setup s t event) :
    Balanced setup t.dispatcher (t.inFlight setup) := by
  cases flow with
  | pass dispatcher passed =>
      rw [dispatcher]
      exact balanced.of_perm passed.flight
  | poll dispatcher passed =>
      rw [dispatcher]
      exact (balanced.of_perm passed.flight).poll s.stopped
  | timeout dispatcher passed =>
      rw [dispatcher]
      exact (balanced.of_perm passed.flight).gate valid
  | report report place dispatcher flight issued =>
      rw [dispatcher]
      exact ((balanced.of_perm flight.symm).account valid (by rw [place]; nofun)).gate valid
  | dispatch hasherSize writerSize choice place fresh dispatcher flight issued =>
      rw [dispatcher]
      exact (balanced.dispatch valid place hasherSize writerSize fresh).of_perm flight

/-- In every run the books are balanced and the writers pop with empty hands. -/
theorem reachable_balanced (valid : setup.Valid) {s : System} (run : setup.machine.Reachable s) :
    Balanced setup s.dispatcher (s.inFlight setup) ∧ System.WritersOrderly s := by
  refine Machine.Reaches.invariant (fun s => Balanced setup s.dispatcher (s.inFlight setup) ∧
    System.WritersOrderly s) (fun start => ?_) (fun _ held _ taken => ?_) run
  · rw [System.Start.inFlight_eq start, System.Start.dispatcher start]
    exact ⟨Dispatcher.start_balanced valid, System.Start.writersOrderly start⟩
  · obtain ⟨balanced, orderly⟩ := held
    exact ⟨balanced.step valid (System.step_flow balanced.known orderly taken), orderly.step taken⟩

/-- What the dispatcher relies on: its counters count the tasks in flight and
their nonces, no block has two of them, and the allocator need not refuse. -/
structure Bookkeeping (setup : PlotterSetup) (s : System) : Prop where
  onGoing : s.dispatcher.onGoingTask = (s.inFlight setup).length
  flying : (s.inFlight setup).length ≤ setup.maxFlyingTasks
  dispatched : s.dispatcher.dispatchedNonces =
    s.dispatcher.finishedNonces + flyingNonces (s.inFlight setup)
  within : s.dispatcher.dispatchedNonces ≤ setup.totalNonces
  distinct : ((s.inFlight setup).map HasherTask.block).Nodup
  used : (s.dispatcher.allocator.used.map PagedBlock.data).Perm
    ((s.inFlight setup).map HasherTask.block)
  blocks : s.dispatcher.allocator.free.length + s.dispatcher.allocator.used.length ≤
    setup.maxFlyingTasks
  admitted : s.dispatcher.place = .deciding →
    s.dispatcher.allocator.fitting setup.blockSize = [] →
    s.dispatcher.allocator.allocatedMem setup.blockSize ≤ s.dispatcher.allocator.maxMem

/-- The blocks of tasks in flight differ. -/
theorem Balanced.distinct (balanced : Balanced setup d flight) :
    (flight.map HasherTask.block).Nodup := by
  have keys := balanced.backed.represented.keys
  rw [BlockAllocator.held, List.map_append, List.nodup_append] at keys
  exact balanced.backed.used.nodup_iff.mp keys.2.1

/-- The bookkeeping is right in every state of every run, with or without a
stop. -/
theorem reachable_bookkeeping (valid : setup.Valid) (small : setup.totalNonces < 2147483648)
    {s : System} (run : setup.machine.Reachable s) : Bookkeeping setup s := by
  obtain ⟨balanced, _⟩ := reachable_balanced valid run
  have remaining := balanced.remaining_nonneg
  have reported := balanced.reported
  have flying := balanced.flying_nonneg
  have dispatched := balanced.dispatched
  have finished := balanced.finished
  rw [toInt32_eq (by omega) (by omega)] at dispatched finished
  constructor
  · exact balanced.onGoing
  · exact balanced.flying
  · omega
  · omega
  · exact balanced.distinct
  · exact balanced.backed.used
  · have count := balanced.backed.count
    rwa [BlockAllocator.held, List.length_append] at count
  · intro place unfit
    refine (balanced.backed.allocatedMem_le valid ?_ unfit).1
    rw [List.length_map]
    exact balanced.deciding place

/-- A hash task is made and the hasher takes it. -/
def taskTaken : List SystemEvent :=
  [.poll, .receive true, .dispatch 0 (fun _ => 0) ⟨0, 16777216, some 4096⟩, .hasher, .hasher]

/-- It is hashed and queued for its writer. -/
def taskQueued : List SystemEvent := taskTaken ++ [.hasher, .hasher]

/-- Another one is made while the first is being hashed. -/
def secondMade : List SystemEvent :=
  taskTaken ++ [.poll, .receive true, .dispatch 0 (fun _ => 0) ⟨0, 16777216, some 8388608⟩]

/-- Two hash tasks of different files in flight. -/
theorem reachable_bookkeeping_twoFiles :
    ∃ s, twoFiles.machine.run (.idle twoFiles) secondMade = some s ∧
      (s.inFlight twoFiles).map HasherTask.currentWriteTask = [1, 0] ∧ Bookkeeping twoFiles s :=
  ⟨_, rfl, rfl, reachable_bookkeeping twoFiles_valid (by decide)
    (Machine.Reaches.run (.start (System.idle_start twoFiles)) secondMade rfl)⟩

end HyperPlotter.Pipeline

import HyperPlotter.Pipeline.Order

/-!
# The dispatcher on its own

While no hash task is in flight and the other threads do nothing, the dispatcher
goes around the writers. Every iteration passes all tests, and it hands the block
back when the writer at its position has nothing left.
-/

namespace HyperPlotter.Pipeline

open Foundation Poc

namespace System

variable (setup : PlotterSetup)

/-- The dispatcher's access at a place of its loop. -/
def stepAt (s : System) (place : DispatcherPlace) (event : SystemEvent) : Option System :=
  if s.dispatcher.place = place then s.step setup event else some s

/-- The rest of the dispatcher's iteration while the other threads do nothing: the
test of the loop, the wait for a report, and the decision with the sizes the
queues have. -/
def iterate (s : System) (choice : MemoryChoice) : Option System := do
  let polled ← s.stepAt setup .head .poll
  let received ← polled.stepAt setup .reports (.receive polled.reports.isEmpty)
  received.stepAt setup .deciding
    (.dispatch received.hasherQueue.length (fun i => (received.queues i).length) choice)

/-- A block's worth of memory is free, and `operator new` finds it. -/
structure Roomy (s : System) (choice : MemoryChoice) : Prop where
  free : setup.blockSize ≤ choice.freeBytes
  found : ∃ data, choice.fresh = some data
  fresh : ∀ data ∈ choice.fresh, s.dispatcher.allocator.Fresh ⟨data, setup.blockSize⟩

/-- After at most so many iterations with free memory there is a hash task on the
hasher's queue. -/
def DispatchesWithin : Nat → System → Prop
  | 0, s => s.hasherQueue ≠ []
  | n + 1, s => s.hasherQueue ≠ [] ∨ ∀ choice, Roomy setup s choice →
      ∃ t, s.iterate setup choice = some t ∧ DispatchesWithin n t

/-- The dispatcher leaves its loop at a stop or when everything is reported. -/
def LeavesDone (s : System) : Prop := s.dispatcher.place = .closing →
  s.stopped = true ∨ (toUInt64 s.dispatcher.finishedNonces : Int) = setup.totalNonces

variable {setup} {s t : System}

/-- A task dispatched within some iterations is dispatched within one more. -/
theorem DispatchesWithin.succ {n : Nat} (within : DispatchesWithin setup n s) :
    DispatchesWithin setup (n + 1) s := by
  induction n generalizing s with
  | zero => exact .inl within
  | succ n ih =>
      refine within.imp_right fun later choice roomy => ?_
      obtain ⟨t, taken, rest⟩ := later choice roomy
      exact ⟨t, taken, ih rest⟩

/-- More iterations do as well. -/
theorem DispatchesWithin.mono {n m : Nat} (within : DispatchesWithin setup n s) (le : n ≤ m) :
    DispatchesWithin setup m s := by
  induction le with
  | refl => exact within
  | step _ ih => exact ih.succ

/-- A step of the dispatcher at its place leads to a reachable state. -/
theorem stepAt_reachable {place : DispatcherPlace} {event : SystemEvent}
    (reached : setup.machine.Reachable s) (taken : s.stepAt setup place event = some t) :
    setup.machine.Reachable t := by
  unfold stepAt at taken
  split at taken
  · exact .step reached trivial taken
  · obtain rfl := Option.some.inj taken
    exact reached

/-- An iteration is made of steps. -/
theorem iterate_reachable {choice : MemoryChoice} (reached : setup.machine.Reachable s)
    (taken : s.iterate setup choice = some t) : setup.machine.Reachable t := by
  obtain ⟨polled, first, rest⟩ := Option.bind_eq_some_iff.mp taken
  obtain ⟨received, second, third⟩ := Option.bind_eq_some_iff.mp rest
  exact stepAt_reachable (stepAt_reachable (stepAt_reachable reached first) second) third

/-! ## The end of the loop -/

/-- The stop flag stays set. -/
theorem step_stopped {event : SystemEvent} (taken : s.step setup event = some t)
    (stopped : s.stopped = true) : t.stopped = true := by
  cases step_move taken with
  | close =>
      unfold close
      split <;> rfl
  | interrupt => rfl
  | _ => exact stopped

/-- A report does not change what `finished_nonces` is compared with afterwards. -/
private theorem gate_leaves (d : Dispatcher) (closing : (d.gate setup).place = .closing) :
    (toUInt64 (d.gate setup).finishedNonces : Int) = setup.totalNonces := by
  unfold Dispatcher.gate at closing ⊢
  split
  · rename_i all
    exact all
  · rename_i more
    rw [if_neg more] at closing
    split at closing
    · cases closing
    · split at closing <;> cases closing

private theorem receive_leaves (d : Dispatcher) (report : Option HasherTask)
    (closing : (d.receive setup report).place = .closing) :
    (toUInt64 (d.receive setup report).finishedNonces : Int) = setup.totalNonces := by
  cases report with
  | none => exact gate_leaves d closing
  | some report => exact gate_leaves (d.account report) closing

/-- A decision ends the iteration and counts nothing. -/
theorem dispatch_ends (d : Dispatcher) (hasherSize : Nat) (writerSize : Nat → Nat)
    (choice : MemoryChoice) : (d.dispatch setup hasherSize writerSize choice).2.place = .head ∧
      (d.dispatch setup hasherSize writerSize choice).2.finishedNonces = d.finishedNonces := by
  unfold Dispatcher.dispatch
  split
  · exact ⟨rfl, rfl⟩
  · simp only []
    split
    · exact ⟨rfl, rfl⟩
    · split
      · exact ⟨rfl, rfl⟩
      · split
        · unfold Dispatcher.assign
          split <;> exact ⟨rfl, rfl⟩
        · exact ⟨rfl, rfl⟩

/-- A decision ends the iteration. -/
theorem dispatch_place (d : Dispatcher) (hasherSize : Nat) (writerSize : Nat → Nat)
    (choice : MemoryChoice) : (d.dispatch setup hasherSize writerSize choice).2.place = .head :=
  (dispatch_ends d hasherSize writerSize choice).1

/-- Only a stop or the last report ends the dispatcher's loop. -/
theorem reachable_leavesDone (valid : setup.Valid) (reached : setup.machine.Reachable s) :
    LeavesDone setup s := by
  refine Machine.Reaches.invariant (LeavesDone setup) (fun {s} start closing => ?_)
    (fun {s event t} reached leaves _ taken closing => ?_) reached
  · rw [Start.dispatcher start] at closing
    cases closing
  · obtain ⟨balanced, orderly⟩ := reachable_balanced valid reached
    cases step_flow balanced.known orderly taken with
    | pass dispatcher =>
        rw [dispatcher] at closing ⊢
        exact (leaves closing).imp_left (step_stopped taken)
    | poll dispatcher =>
        rw [dispatcher] at closing
        have moved : s.step setup .poll = some t := taken
        refine .inl (step_stopped moved ?_)
        by_contra running
        rw [Bool.eq_false_of_not_eq_true running] at closing
        cases closing
    | timeout dispatcher =>
        rw [dispatcher] at closing ⊢
        exact .inr (receive_leaves _ none closing)
    | report report place dispatcher =>
        rw [dispatcher] at closing ⊢
        exact .inr (receive_leaves _ (some report) closing)
    | dispatch hasherSize writerSize choice place fresh dispatcher =>
        rw [dispatcher, dispatch_place] at closing
        cases closing

end System

/-! ## Free memory -/

/-- With fewer blocks in use than may fly and a block's worth of free memory the
allocator hands out a block. -/
theorem Backed.allocates {setup : PlotterSetup} {allocator : BlockAllocator} {blocks : List Nat}
    (valid : setup.Valid) (backed : Backed setup allocator blocks)
    (few : blocks.length < setup.maxFlyingTasks) {choice : MemoryChoice}
    (free : setup.blockSize ≤ choice.freeBytes) (found : ∃ data, choice.fresh = some data) :
    ((allocator.allocate choice setup.blockSize).1).isSome := by
  unfold BlockAllocator.allocate
  split
  · rfl
  · rename_i nothing
    have unfit : allocator.fitting setup.blockSize = [] := by
      by_contra some_fit
      have inside := Nat.mod_lt choice.pick (List.length_pos_iff.mpr some_fit)
      rw [List.getElem?_eq_getElem inside] at nothing
      cases nothing
    have room := (backed.allocatedMem_le valid few unfit).1
    obtain ⟨data, fresh⟩ := found
    rw [if_neg (by omega), fresh]
    rfl

/-! ## Nothing in flight -/

namespace System

variable (setup : PlotterSetup)

/-- A running plotter with nothing in flight and something to dispatch. -/
structure Idle (s : System) : Prop where
  reached : setup.machine.Reachable s
  running : s.stopped = false
  empty : s.inFlight setup = []
  few : setup.totalNonces - s.dispatcher.remaining setup < 2147483648
  work : 0 < s.dispatcher.remaining setup

/-- All files of the writer at a position are dispatched. -/
def Exhausted (s : System) (writer : Nat) : Prop :=
  ∀ task ∈ s.dispatcher.writerTasks writer, task.nonces = 0

variable {setup} {s t : System} {choice : MemoryChoice}

/-- Nothing in flight means that all queues are empty. -/
theorem queues_of_empty (empty : s.inFlight setup = []) : s.hasherQueue = [] ∧ s.reports = [] ∧
    ∀ i < setup.plans.length, s.queues i = [] := by
  unfold inFlight at empty
  obtain ⟨⟨⟨hasherQueue, hasher⟩, shared⟩, reports⟩ := by
    simpa only [List.append_eq_nil_iff] using empty
  refine ⟨hasherQueue, reports, fun i inside => ?_⟩
  refine List.eq_nil_iff_forall_not_mem.mpr fun task member => ?_
  have anywhere : task ∈ shares setup.plans.length fun j => s.queues j ++ (s.threads j).inHand :=
    mem_shares.mpr ⟨i, inside, List.mem_append_left _ member⟩
  rw [shared] at anywhere
  cases anywhere

/-- The counters of an idle dispatcher agree, and they are not the total yet. -/
theorem Idle.counters (valid : setup.Valid) (idle : Idle setup s) :
    s.dispatcher.finishedNonces = setup.totalNonces - s.dispatcher.remaining setup ∧
      s.dispatcher.dispatchedNonces = setup.totalNonces - s.dispatcher.remaining setup ∧
      (toUInt64 (setup.totalNonces - s.dispatcher.remaining setup) : Int) ≠ setup.totalNonces := by
  have balanced := (reachable_balanced valid idle.reached).1
  rw [idle.empty] at balanced
  have reported := balanced.reported
  have few := idle.few
  have work := idle.work
  have finished := balanced.finished
  have dispatched := balanced.dispatched
  rw [flyingNonces_nil, Int.sub_zero] at reported finished
  rw [toInt32_eq (by omega) (by omega)] at finished dispatched
  refine ⟨finished, dispatched, ?_⟩
  unfold toUInt64
  omega

/-- The tests after the wait let an idle dispatcher pass. -/
theorem Idle.gate (valid : setup.Valid) (idle : Idle setup s) (place : DispatcherPlace) :
    ({ s.dispatcher with place := place } : Dispatcher).gate setup =
      { s.dispatcher with place := .deciding } := by
  obtain ⟨finished, dispatched, more⟩ := idle.counters valid
  have onGoing := (reachable_balanced valid idle.reached).1.onGoing
  rw [idle.empty] at onGoing
  have flying := valid.flying
  unfold Dispatcher.gate
  simp only [finished, dispatched, onGoing]
  rw [if_neg more, if_neg more, if_neg]
  show ¬(0 : Nat) ≥ setup.maxFlyingTasks
  omega

/-- The dispatcher at another place. -/
private def moved (s : System) (place : DispatcherPlace) : System :=
  { s with dispatcher := { s.dispatcher with place := place } }

/-- An idle dispatcher comes to its decision. -/
theorem Idle.iterate (valid : setup.Valid) (idle : Idle setup s)
    (fresh : ∀ data ∈ choice.fresh, s.dispatcher.allocator.Fresh ⟨data, setup.blockSize⟩) :
    s.iterate setup choice = some
      (s.dispatch setup s.hasherQueue.length (fun i => (s.queues i).length) choice) := by
  obtain ⟨_, reports, _⟩ := queues_of_empty idle.empty
  have polls : (s.moved .head).stepAt setup .head .poll = some (s.moved .reports) := by
    simp [stepAt, step, moved, Dispatcher.poll, idle.running]
  have waits : (s.moved .reports).stepAt setup .reports (.receive true) =
      some (s.moved .deciding) := by
    have gate := idle.gate valid .reports
    simp only [stepAt, step, moved, receive, Dispatcher.receive, if_true, gate]
  have decides : (s.moved .deciding).stepAt setup .deciding
      (.dispatch s.hasherQueue.length (fun i => (s.queues i).length) choice) =
      some (s.dispatch setup s.hasherQueue.length (fun i => (s.queues i).length) choice) :=
    (if_pos rfl).trans (if_pos ⟨rfl, fresh⟩)
  have nothing : s.reports.isEmpty = true := by rw [reports]; rfl
  have passes : ∀ {place other : DispatcherPlace} {event : SystemEvent}, other ≠ place →
      (s.moved place).stepAt setup other event = some (s.moved place) :=
    fun differ => if_neg (Ne.symm differ)
  have here : s = s.moved s.dispatcher.place := rfl
  unfold System.iterate
  rw [here]
  cases place : s.dispatcher.place with
  | head =>
      rw [polls]
      show (((s.moved .reports).stepAt setup .reports (.receive s.reports.isEmpty)).bind _) = _
      rw [nothing, waits]
      exact decides
  | reports =>
      rw [passes (by decide)]
      show (((s.moved .reports).stepAt setup .reports (.receive s.reports.isEmpty)).bind _) = _
      rw [nothing, waits]
      exact decides
  | deciding =>
      rw [passes (by decide)]
      show (((s.moved .deciding).stepAt setup .reports (.receive s.reports.isEmpty)).bind _) = _
      rw [passes (by decide)]
      exact decides
  | closing =>
      obtain ⟨finished, _, more⟩ := idle.counters valid
      rcases reachable_leavesDone valid idle.reached place with stopped | done
      · rw [idle.running] at stopped
        cases stopped
      · rw [finished] at done
        exact absurd done more

/-- A writer without a next hash task has nothing left. -/
private theorem exhausted_of_none {plan : List PlannedFile} {issued : List HasherTask} {cur : Nat}
    {tasks : List WriterTask} (valid : ∀ file ∈ plan, file.Valid)
    (state : Issued plan issued cur tasks) {gws : Int} (positive : 0 < gws) (writer block : Nat)
    (none : (nextHasherTask gws writer block cur tasks).1 = none) :
    ∀ task ∈ tasks, task.nonces = 0 := by
  have complete := (state.nextHasherTask_answer (PlannedFile.typed valid) positive writer block).exhausted none
  intro task member
  obtain ⟨k, inside, rfl⟩ := List.getElem_of_mem member
  have planned : k < plan.length := by
    rw [← state.length]
    exact inside
  have found : plan[k]? = some plan[k] := List.getElem?_eq_getElem planned
  obtain ⟨counted, here, _, left, _⟩ := state.counters k _ found
  rw [List.getElem?_eq_getElem inside, Option.some.injEq] at here
  have all := complete k _ found
  rw [here]
  omega

/-- With empty queues the writer at the position is asked for a task. -/
private theorem dispatch_asks {d : Dispatcher} {hasherSize : Nat} {writerSize : Nat → Nat}
    (hasherEmpty : hasherSize = 0) (writerEmpty : writerSize (d.wrapped setup).toNat = 0)
    {block : PagedBlock} {allocator : BlockAllocator}
    (given : d.allocator.allocate choice setup.blockSize = (some block, allocator))
    (isValid : block.valid) :
    d.dispatch setup hasherSize writerSize choice =
      ({ d with
        curWorkerPos := d.wrapped setup + 1
        allocator := allocator
        place := .head } : Dispatcher).assign setup (d.wrapped setup) block := by
  unfold Dispatcher.dispatch
  rw [if_neg (by omega), given]
  simp only []
  rw [if_neg (by omega), if_pos isValid]

/-- A decision in an idle state dispatches a hash task, or the writer at the
position has nothing left and the position moves on. -/
theorem Idle.dispatch (valid : setup.Valid) (idle : Idle setup s)
    (fresh : ∀ data ∈ choice.fresh, s.dispatcher.allocator.Fresh ⟨data, setup.blockSize⟩)
    (serves : ((s.dispatcher.allocator.allocate choice setup.blockSize).1).isSome)
    (taken : s.iterate setup choice = some t) :
    (∃ task, t = { s with dispatcher := t.dispatcher, hasherQueue := [task] } ∧
      t.dispatcher.place = .head ∧
      t.dispatcher.remaining setup < s.dispatcher.remaining setup) ∨
      t = { s with dispatcher := t.dispatcher } ∧
        Idle setup t ∧ s.Exhausted (s.dispatcher.wrapped setup).toNat ∧
        t.dispatcher.writerTasks = s.dispatcher.writerTasks ∧
        t.dispatcher.curWorkerPos = s.dispatcher.wrapped setup + 1 := by
  have reached := iterate_reachable idle.reached taken
  rw [idle.iterate valid fresh, Option.some.injEq] at taken
  subst taken
  obtain ⟨hasherQueue, _, queues⟩ := queues_of_empty idle.empty
  obtain ⟨balanced, _⟩ := reachable_balanced valid idle.reached
  obtain ⟨lower, upper⟩ := balanced.wrapped valid
  rw [idle.empty] at balanced
  have few : ([] : List Nat).length < setup.maxFlyingTasks := Nat.pos_of_ne_zero valid.flying
  obtain ⟨backed, handed⟩ := balanced.backed.allocate valid few fresh
  obtain ⟨block, given⟩ := Option.isSome_iff_exists.mp serves
  have member := handed block given
  have isValid := backed.represented.valid block (List.mem_append_right _ member)
  have writerQueue := queues (s.dispatcher.wrapped setup).toNat (by omega)
  have asks : s.dispatcher.dispatch setup s.hasherQueue.length (fun i => (s.queues i).length) choice =
      _ := dispatch_asks (congrArg List.length hasherQueue) (congrArg List.length writerQueue)
        (Prod.ext given rfl) isValid
  have work := backed.workSize valid member
  have issued := (reachable_ordered valid idle.reached).issued (s.dispatcher.wrapped setup).toNat
    (by omega)
  have taken := nextHasherTask_taken work (s.dispatcher.wrapped setup).toNat block.data
    (s.dispatcher.cursors (s.dispatcher.wrapped setup).toNat)
    (balanced.counting (s.dispatcher.wrapped setup).toNat)
  have cut := balanced.dispatch_remaining valid few s.hasherQueue.length
    (fun i => (s.queues i).length) fresh
  have none_left := exhausted_of_none (valid.plan _) issued work
    (s.dispatcher.wrapped setup).toNat block.data
  unfold System.dispatch at reached ⊢
  rw [asks] at reached cut ⊢
  unfold Dispatcher.assign at reached cut ⊢
  simp only [] at reached cut ⊢
  generalize nextHasherTask (toInt32 setup.workSize) (s.dispatcher.wrapped setup).toNat block.data
    (s.dispatcher.cursors (s.dispatcher.wrapped setup).toNat)
    (s.dispatcher.writerTasks (s.dispatcher.wrapped setup).toNat) = answer
    at reached cut taken none_left ⊢
  obtain ⟨made, cur, tasks⟩ := answer
  cases made with
  | some task =>
      rw [Option.toList_some, flyingNonces_cons, flyingNonces_nil] at cut
      have positive := taken.positive task rfl
      refine .inl ⟨task, by rw [hasherQueue]; rfl, rfl, ?_⟩
      simp only [] at cut ⊢
      omega
  | none =>
      have unchanged : tasks = s.dispatcher.writerTasks (s.dispatcher.wrapped setup).toNat :=
        taken.exhausted rfl
      subst unchanged
      simp only [Function.update_eq_self, Option.toList_none, List.append_nil] at reached ⊢
      exact .inr ⟨trivial, ⟨reached, idle.running, idle.empty, idle.few, idle.work⟩, none_left rfl, trivial, trivial⟩

/-! ## Around the writers -/

/-- The position after the next one, past the hasher at the end of `workers_`. -/
theorem wrapped_next (valid : setup.Valid) {d d' : Dispatcher}
    (bounds : 0 ≤ d.wrapped setup ∧ d.wrapped setup < setup.plans.length)
    (next : d'.curWorkerPos = d.wrapped setup + 1) :
    (d'.wrapped setup).toNat = ((d.wrapped setup).toNat + 1) % setup.plans.length := by
  have few := valid.few
  unfold PlotterSetup.workers at few
  rw [Dispatcher.wrapped, next]
  unfold PlotterSetup.workers
  rw [toInt32_eq (by omega) (by omega)]
  split
  · rename_i last
    rw [show (d.wrapped setup).toNat + 1 = setup.plans.length by omega, Nat.mod_self]
    rfl
  · rename_i inside
    rw [Nat.mod_eq_of_lt (by omega)]
    omega

/-- One iteration of an idle dispatcher with free memory. -/
private theorem Idle.turn (valid : setup.Valid) (idle : Idle setup s) (roomy : Roomy setup s choice)
    (taken : s.iterate setup choice = some t) :
    t.hasherQueue ≠ [] ∨ Idle setup t ∧ s.Exhausted (s.dispatcher.wrapped setup).toNat ∧
      t.dispatcher.writerTasks = s.dispatcher.writerTasks ∧
      t.dispatcher.curWorkerPos = s.dispatcher.wrapped setup + 1 := by
  have balanced := (reachable_balanced valid idle.reached).1
  rw [idle.empty] at balanced
  have serves := balanced.backed.allocates valid (Nat.pos_of_ne_zero valid.flying) roomy.free
    roomy.found
  refine (idle.dispatch valid roomy.fresh serves taken).imp ?_ And.right
  rintro ⟨task, queued, _⟩
  rw [queued]
  exact List.cons_ne_nil _ _

/-- A writer with something left gets its turn after as many iterations as it is
positions away. -/
private theorem Idle.within (valid : setup.Valid) (distance : Nat) (idle : Idle setup s)
    (left : ¬s.Exhausted (((s.dispatcher.wrapped setup).toNat + distance) % setup.plans.length)) :
    DispatchesWithin setup (distance + 1) s := by
  induction distance generalizing s with
  | zero =>
      refine .inr fun choice roomy => ⟨_, idle.iterate valid roomy.fresh, ?_⟩
      rcases idle.turn valid roomy (idle.iterate valid roomy.fresh) with some_task | ⟨_, exhausted, _⟩
      · exact some_task
      · obtain ⟨lower, upper⟩ := (reachable_balanced valid idle.reached).1.wrapped valid
        rw [Nat.add_zero, Nat.mod_eq_of_lt (by omega)] at left
        exact absurd exhausted left
  | succ distance ih =>
      refine .inr fun choice roomy => ⟨_, idle.iterate valid roomy.fresh, ?_⟩
      rcases idle.turn valid roomy (idle.iterate valid roomy.fresh) with
        some_task | ⟨still, _, tasks, position⟩
      · exact DispatchesWithin.mono (n := 0) some_task (Nat.zero_le _)
      · refine ih still ?_
        have bounds := (reachable_balanced valid idle.reached).1.wrapped valid
        rw [wrapped_next valid bounds position, Nat.mod_add_mod, Nat.add_right_comm, Nat.add_assoc]
        unfold Exhausted at left ⊢
        rwa [tasks]

/-- A writer with something left is less than one round away. -/
theorem Idle.exists_distance (valid : setup.Valid) (idle : Idle setup s) :
    ∃ distance < setup.plans.length,
      ¬s.Exhausted (((s.dispatcher.wrapped setup).toNat + distance) % setup.plans.length) := by
  obtain ⟨lower, upper⟩ := (reachable_balanced valid idle.reached).1.wrapped valid
  obtain ⟨i, inside, left⟩ : ∃ i < setup.plans.length, ¬s.Exhausted i := by
    by_contra nobody
    have zero : s.dispatcher.remaining setup = 0 := by
      refine List.sum_eq_zero fun nonces member => ?_
      obtain ⟨i, inside, listed⟩ := mem_shares.mp member
      obtain ⟨task, here, rfl⟩ := List.mem_map.mp listed
      by_contra some_nonces
      exact nobody ⟨i, inside, fun exhausted => some_nonces (exhausted task here)⟩
    have work := idle.work
    omega
  refine ⟨(i + setup.plans.length - (s.dispatcher.wrapped setup).toNat) % setup.plans.length,
    Nat.mod_lt _ (by omega), ?_⟩
  rwa [Nat.add_mod_mod, Nat.add_sub_of_le (by omega), Nat.add_mod_right, Nat.mod_eq_of_lt inside]

end System

/-- While nothing is in flight the dispatcher on its own dispatches a hash task
before it has gone around the workers, and it always looks at a writer. -/
theorem idle_dispatches {setup : PlotterSetup} (valid : setup.Valid)
    (small : setup.totalNonces < 2147483648) {s : System} (run : setup.machine.Reachable s) :
    (0 ≤ s.dispatcher.wrapped setup ∧ s.dispatcher.wrapped setup < setup.plans.length) ∧
      (s.stopped = false → s.inFlight setup = [] →
        s.dispatcher.dispatchedNonces < setup.totalNonces →
        s.DispatchesWithin setup (setup.plans.length + 1)) := by
  obtain ⟨balanced, _⟩ := reachable_balanced valid run
  have bounds := balanced.wrapped valid
  refine ⟨bounds, fun running empty more => ?_⟩
  have remaining := balanced.remaining_nonneg
  have reported := balanced.reported
  have dispatched := balanced.dispatched
  rw [empty, flyingNonces_nil] at reported
  rw [toInt32_eq (by omega) (by omega)] at dispatched
  have idle : System.Idle setup s := ⟨run, running, empty, by omega, by omega⟩
  obtain ⟨distance, near, left⟩ := idle.exists_distance valid
  exact (idle.within valid distance left).mono (Nat.succ_le_succ (Nat.le_of_lt near))

/-- Two writers with one file and with two, in the bench mode that writes nothing. -/
def unevenWriters : PlotterSetup where
  gpu := .inOrder 16
  buffers := 1
  maxMem := 16777216
  bench := 1
  plans := [[⟨1, 0, 8⟩], [⟨1, 8, 8⟩, ⟨1, 16, 8⟩]]

private theorem unevenWriters_valid : unevenWriters.Valid where
  files := by
    rintro plan listed file member
    rcases List.mem_cons.mp listed with rfl | listed
    · obtain rfl := List.mem_singleton.mp member
      exact ⟨by decide, by decide, by decide⟩
    · obtain rfl := List.mem_singleton.mp listed
      rcases List.mem_cons.mp member with rfl | member
      · exact ⟨by decide, by decide, by decide⟩
      · obtain rfl := List.mem_singleton.mp member
        exact ⟨by decide, by decide, by decide⟩
  memory := by decide
  flying := by decide
  few := by decide
  planned := by decide
  total := by decide

/-- A hash task is made for writer `i`, hashed, reported and counted. -/
def taskCounted (i : Nat) (choice : MemoryChoice) : List SystemEvent :=
  .dispatch 0 (fun _ => 0) choice :: List.replicate 4 .hasher ++
    List.replicate 4 (.writer i ⟨true, 0, fun _ => 0⟩) ++ [.poll, .receive false]

/-- One task for each writer; the dispatcher is back at the one without a file left. -/
def firstExhausted : List SystemEvent :=
  [.poll, .receive true] ++ taskCounted 0 ⟨0, 16777216, some 4096⟩ ++ taskCounted 1 ⟨0, 0, none⟩

private theorem firstExhausted_run :
    ∃ s, unevenWriters.machine.run (.idle unevenWriters) firstExhausted = some s ∧
      s.stopped = false ∧ s.inFlight unevenWriters = [] ∧ s.dispatcher.dispatchedNonces = 16 ∧
      s.dispatcher.wrapped unevenWriters = 0 ∧
      (s.dispatcher.writerTasks 0).map WriterTask.nonces = [0] :=
  ⟨_, rfl, rfl, rfl, rfl, rfl, rfl⟩

/-- The first of two writers has no nonces left when the dispatcher is at it. -/
theorem idle_dispatches_firstExhausted :
    ∃ s, unevenWriters.machine.run (.idle unevenWriters) firstExhausted = some s ∧
      s.dispatcher.wrapped unevenWriters = 0 ∧ s.Exhausted 0 ∧
      s.DispatchesWithin unevenWriters 3 := by
  obtain ⟨s, runs, running, empty, dispatched, position, left⟩ := firstExhausted_run
  have dispatches := idle_dispatches unevenWriters_valid (by decide)
    (Machine.Reaches.run (.start (System.idle_start unevenWriters)) firstExhausted runs)
  refine ⟨s, runs, position, fun task member => ?_,
    dispatches.2 running empty (by rw [dispatched]; decide)⟩
  have nonces := List.mem_map_of_mem (f := WriterTask.nonces) member
  rw [left] at nonces
  exact List.mem_singleton.mp nonces

end HyperPlotter.Pipeline

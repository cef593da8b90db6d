import HyperPlotter.Pipeline.Order
import HyperPlotter.Pipeline.Shutdown
import HyperPlotter.Pipeline.Unhindered
import HyperPlotter.Pipeline.Whole
import HyperPlotter.Pipeline.Workload

/-!
# A run that is left alone completes

Nobody sends a signal, the files fail only for a while, there is memory for one
block, and with nothing in flight the queues are seen to be empty. Then the work
left goes down to nothing: while there is some, one of the threads takes from it.
-/

namespace HyperPlotter.Pipeline

open Foundation Poc Interaction Filter

namespace System

variable {setup : PlotterSetup}

/-- A run that is left alone. A wait for a report only times out without one. -/
structure LeftAlone (run : setup.machine.Endless) : Prop extends TakesTurns run where
  uninterrupted : ∀ n, run.event n ≠ some .interrupt
  timeouts : ∀ n, run.event n = some (.receive true) → (run.state n).reports = []
  sizes : ∀ n hasherSize writerSize choice,
    run.event n = some (.dispatch hasherSize writerSize choice) →
    (run.state n).inFlight setup = [] →
    hasherSize = 0 ∧ ∀ i, i < setup.plans.length → writerSize i = 0
  memory : ∀ n hasherSize writerSize choice,
    run.event n = some (.dispatch hasherSize writerSize choice) →
    (run.state n).dispatcher.allocator.held = [] →
    setup.blockSize ≤ choice.freeBytes ∧ ∃ data, choice.fresh = some data
  recovers : ∃ N, ∀ n, N ≤ n → ∀ i outcome,
    run.event n = some (.writer i outcome) → outcome.ok = true

variable {run : setup.machine.Endless} {s t : System} {n i : Nat}

/-! ## Until everything is declared -/

variable (setup) in
/-- Nobody has stopped anything, and the workers are in their loops. -/
structure Running (s : System) : Prop where
  stopped : s.stopped = false
  loops : s.dispatcher.place ≠ .closing
  hasherExit : s.hasherExit = false
  exits : ∀ i, s.exits i = false
  hasher : s.hasher ≠ .left
  writers : ∀ i, i < setup.plans.length →
    Underway (setup.plan i) (InLoop (setup.plan i)) (s.threads i).program (s.threads i).state

variable (setup) in
/-- The dispatcher has counted all nonces, declared the plotting finished and left its
loop. -/
structure Declared (s : System) : Prop where
  said : s.dispatcher.declared = true
  closing : s.dispatcher.place = .closing
  counted : (toUInt64 s.dispatcher.finishedNonces : Int) = setup.totalNonces

/-- A task queued for a writer is one of its plan. -/
theorem Ordered.ofPlan (ordered : Ordered setup s) (inside : i < setup.plans.length)
    {task : HasherTask} (member : task ∈ s.issued i) : OfPlan (setup.plan i) task := by
  obtain ⟨earlier, later, split⟩ := List.append_of_mem member
  have sequence := (ordered.issued i inside).sequence
  rw [split] at sequence
  obtain ⟨index, file, next⟩ := sequence.continues
  have bound := (List.getElem?_eq_some_iff.mp next.found).1
  have current := next.current
  exact ⟨by omega, by omega⟩

/-- Only the declaration ends the loop after a report. -/
private theorem gate_declares (d : Dispatcher) (closing : (d.gate setup).place = .closing) :
    (d.gate setup).declared = true ∧
      (toUInt64 (d.gate setup).finishedNonces : Int) = setup.totalNonces := by
  by_cases all : (toUInt64 d.finishedNonces : Int) = setup.totalNonces
  · simp [Dispatcher.gate, all]
  · simp only [Dispatcher.gate, all, if_false] at closing
    split at closing
    · cases closing
    · split at closing <;> cases closing

private theorem running_dispatcher (running : Running setup s) {d : Dispatcher}
    {reports : List HasherTask} (declares : d.place = .closing →
      d.declared = true ∧ (toUInt64 d.finishedNonces : Int) = setup.totalNonces) :
    Declared setup { s with dispatcher := d, reports := reports } ∨
      Running setup { s with dispatcher := d, reports := reports } := by
  by_cases closing : d.place = .closing
  · exact .inl ⟨(declares closing).1, closing, (declares closing).2⟩
  · exact .inr { running with loops := closing }

/-- A writer that goes on stays in its loops. -/
private theorem Running.thread (running : Running setup s) (ordered : Ordered setup s)
    {event : SystemEvent} (taken : s.step setup event = some t) (inside : i < setup.plans.length) :
    Underway (setup.plan i) (InLoop (setup.plan i)) (t.threads i).program (t.threads i).state := by
  have underway := running.writers i inside
  cases step_thread taken i with
  | away _ same => rwa [same]
  | turn _ done turned =>
      rw [done] at underway
      rw [turned]
      exact writerBody_underway _ underway
  | @answer outcome request next _ asks answered =>
      rw [asks] at underway
      rw [answered]
      refine underway.2 _ ⟨running.stopped, fun task handed => ?_⟩
      have queued : task ∈ s.queues i := by
        have head : (if s.exits i then none else (s.queues i).head?) = some task := handed
        rw [running.exits i] at head
        exact List.mem_of_mem_head? head
      exact ordered.ofPlan inside (List.mem_append_left _ (List.mem_append_right _ queued))

/-- Without a signal the run goes on until the declaration. -/
theorem Running.step (running : Running setup s)
    (known : ∀ task ∈ s.inFlight setup, Known setup task) (ordered : Ordered setup s)
    {event : SystemEvent} (quiet : event ≠ .interrupt) (taken : s.step setup event = some t) :
    Declared setup t ∨ Running setup t := by
  have writers := fun i (inside : i < setup.plans.length) => running.thread ordered taken inside
  cases step_move taken with
  | interrupt => exact absurd rfl quiet
  | poll place =>
      refine running_dispatcher running fun closing => ?_
      simp [Dispatcher.poll, running.stopped] at closing
  | timeout place => exact running_dispatcher running (gate_declares _)
  | receive place => exact running_dispatcher running (gate_declares _)
  | dispatch place =>
      refine .inr { running with loops := ?_ }
      simp [dispatch, dispatch_place]
  | close place => exact absurd place running.loops
  | hasherHead here => exact .inr { running with hasher := by simp [running.stopped] }
  | hasherExit here exit => simp [running.hasherExit] at exit
  | @hasherLeave task rest here _ queued last =>
      have current := (known task (by simp [inFlight, queued])).current
      omega
  | hasherTake => exact .inr { running with hasher := by simp }
  | hasherPlot => exact .inr { running with hasher := by simp }
  | hasherDeliver => exact .inr { running with hasher := by simp }
  | turn => exact .inr { running with writers := writers }
  | popNothing => exact .inr { running with writers := writers }
  | pop => exact .inr { running with writers := writers }
  | report => exact .inr { running with writers := writers }
  | other => exact .inr { running with writers := writers }

/-- The declaration is not taken back. -/
theorem step_declared {event : SystemEvent} (taken : s.step setup event = some t)
    (declared : Declared setup s) : Declared setup t := by
  by_cases own : event.Dispatching
  · have closing := declared.closing
    cases step_move taken with
    | poll place => simp [closing] at place
    | timeout place => simp [closing] at place
    | receive place => simp [closing] at place
    | dispatch place => simp [closing] at place
    | _ => exact absurd own id
  · have same := step_dispatcher taken own
    exact ⟨by rw [same]; exact declared.said, by rw [same]; exact declared.closing,
      by rw [same]; exact declared.counted⟩

/-- All threads run in a start state. -/
theorem Start.runs (start : s.Start setup) : Running setup s where
  stopped := start.running
  loops := by simp [start.dispatcher, Dispatcher.start]
  hasherExit := start.hasherExit
  exits := start.exits
  hasher := by simp [start.hasher]
  writers := by
    intro i _
    obtain ⟨plotting, final, writeBuffer, thread⟩ := start.threads i
    rw [thread]
    exact rfl

/-- Without a signal everything is declared or the run goes on. -/
theorem reaches_running (valid : setup.Valid)
    (quiet : setup.machine.Reaches (fun _ event => event ≠ .interrupt) s) :
    Declared setup s ∨ Running setup s := by
  refine Machine.Reaches.invariant (fun s => Declared setup s ∨ Running setup s)
    (fun start => .inr (Start.runs start)) (fun {_ event _} reached here quiet taken => ?_) quiet
  rcases here with declared | running
  · exact .inl (step_declared taken declared)
  · have anywhere := reached.mono fun _ _ _ => trivial
    exact running.step (reachable_balanced valid anywhere).1.known
      (reachable_ordered valid anywhere) quiet taken

/-- At any moment everything is declared or the run goes on. -/
theorem LeftAlone.running (alone : LeftAlone run) (valid : setup.Valid) (n : Nat) :
    Declared setup (run.state n) ∨ Running setup (run.state n) := by
  refine reaches_running valid (Machine.Endless.reaches fun m _ event happens => ?_)
  rintro rfl
  exact alone.uninterrupted m happens

/-! ## When no task moves any more -/

/-- From some moment on nothing fails, no task moves and nothing is declared. -/
structure Stuck (run : setup.machine.Endless) (n : Nat) : Prop where
  unmoved : ∀ m, n ≤ m → Unmoved setup (run.state m) (run.state (m + 1))
  running : ∀ m, n ≤ m → Running setup (run.state m)
  smooth : ∀ m, n ≤ m → ∀ i outcome, run.event m = some (.writer i outcome) → outcome.ok = true

/-- A run that is stuck stays so. -/
theorem Stuck.later (stuck : Stuck run n) {m : Nat} (later : n ≤ m) : Stuck run m :=
  ⟨fun k after => stuck.unmoved k (by omega), fun k after => stuck.running k (by omega),
    fun k after => stuck.smooth k (by omega)⟩

/-- The tasks are where they were. -/
theorem Stuck.same (stuck : Stuck run n) {m : Nat} (later : n ≤ m) :
    Unmoved setup (run.state n) (run.state m) :=
  Machine.Endless.keeps (Unmoved setup (run.state n)) (.refl _)
    (fun k after unmoved => unmoved.trans (stuck.unmoved k after)) later

/-! ### The hasher -/

/-- While it moves no task a hasher with one plots a chunk of it. -/
private theorem hashing_step (taken : s.step setup .hasher = some t) (unmoved : Unmoved setup s t)
    {task : HasherTask} {rest : List Chunk} (here : s.hasher = .hashing task rest) :
    ∃ chunk left, rest = chunk :: left ∧ t.hasher = .hashing task left := by
  have same := unmoved.hasher
  cases step_move taken with
  | hasherHead head => simp [here] at head
  | hasherExit popping => simp [here] at popping
  | hasherLeave popping => simp [here] at popping
  | hasherTake popping => simp [here] at popping
  | @hasherPlot other chunk left hashing =>
      obtain ⟨rfl, rfl⟩ := HasherPlace.hashing.inj (here.symm.trans hashing)
      exact ⟨chunk, left, rfl, rfl⟩
  | hasherDeliver hashing => simp [hashing, HasherPlace.task] at same

/-- While it moves no task a hasher with a task queued comes to its queue. -/
private theorem popping_step (taken : s.step setup .hasher = some t) (unmoved : Unmoved setup s t)
    (running : Running setup s) (idle : s.hasher.task = none) :
    s.hasher = .head ∧ t.hasher = .popping := by
  have same := unmoved.hasherQueue
  cases step_move taken with
  | hasherHead head => exact ⟨head, by simp [running.stopped]⟩
  | hasherExit _ exit => simp [running.hasherExit] at exit
  | hasherLeave _ _ queued => simp [queued] at same
  | hasherTake _ _ queued => simp [queued] at same
  | hasherPlot hashing => simp [hashing, HasherPlace.task] at idle
  | hasherDeliver hashing => simp [hashing, HasherPlace.task] at idle

/-- The hasher has nothing in hand. -/
theorem Stuck.hasher_idle (stuck : Stuck run n) (turns : TakesTurns run) :
    (run.state n).hasher.task = none := by
  cases here : (run.state n).hasher with
  | hashing task rest =>
      refine absurd ⟨rest, here, rfl⟩ (turns.hasher.expires
        (fun k s => ∃ rest, s.hasher = .hashing task rest ∧ rest.length = k)
        (fun m k _ hashing waits => by rwa [hasher_stays waits])
        (fun m k _ ⟨_, hashing, _⟩ => hasher_enabled (by simp [hashing]) (by simp [hashing]))
        (fun m k later ⟨rest, hashing, length⟩ ⟨_, happens, own⟩ => ?_) rest.length)
      subst own
      obtain ⟨_, left, rfl, next⟩ :=
        hashing_step (run.moves m _ happens) (stuck.unmoved m later) hashing
      exact ⟨left.length, by simp [← length], left, next, rfl⟩
  | _ => rfl

/-- Nothing is queued for the hasher. -/
theorem Stuck.hasherQueue (stuck : Stuck run n) (turns : TakesTurns run) :
    (run.state n).hasherQueue = [] := by
  by_contra queued
  have idle : ∀ m, n ≤ m → (run.state m).hasher.task = none := fun m later =>
    (stuck.later later).hasher_idle turns
  have waiting : ∀ m, n ≤ m → (run.state m).hasherQueue ≠ [] := fun m later => by
    rwa [(stuck.same later).hasherQueue]
  refine turns.hasher.expires (fun k s => 0 < k ∨ s.hasher = .popping)
    (fun m k _ here waits => by rwa [hasher_stays waits])
    (fun m k later _ => hasher_enabled (stuck.running m later).hasher fun _ => .inr (waiting m later))
    (fun m k later here ⟨_, happens, own⟩ => ?_) 1 (.inl Nat.zero_lt_one)
  subst own
  obtain ⟨head, next⟩ := popping_step (run.moves m _ happens) (stuck.unmoved m later)
    (stuck.running m later) (idle m later)
  exact ⟨0, here.resolve_right (by simp [head]), .inr next⟩

/-! ### The writers -/

/-- A part of a writer's program is run to its end, or up to the wait for a task. -/
private theorem Stuck.performs (stuck : Stuck run n) (turns : TakesTurns run)
    (inside : i < setup.plans.length) {post : WriterControl → WriterState → Prop}
    {program : WriterProgram WriterControl} {state : WriterState}
    (unhindered : Unhindered post program state)
    (now : (run.state n).threads i = ⟨program, state⟩) :
    (∃ m next final, n ≤ m ∧ (run.state m).threads i = ⟨.ask .pop next, final⟩) ∨
      ∃ m control final, n ≤ m ∧ (run.state m).threads i = ⟨.done control, final⟩ ∧
        InLoop (setup.plan i) control final ∧ post control final := by
  obtain ⟨m, later, ⟨control, final, done, met⟩ | ⟨_, next, final, asks, rfl⟩⟩ :=
    turns.performs inside (· = .pop) (fun _ _ free => absurd rfl free)
      (fun m outcome _ _ later happens free =>
        ⟨free, stuck.smooth m later i outcome happens, (stuck.running m later).stopped⟩)
      unhindered now
  · have underway := (stuck.running m later).writers i inside
    rw [done] at underway
    exact .inr ⟨m, control, final, later, done, underway, met⟩
  · exact .inl ⟨m, next, final, later, asks⟩

/-- The next part of a writer's program likewise. -/
private theorem Stuck.part (stuck : Stuck run n) (turns : TakesTurns run)
    (inside : i < setup.plans.length) {post : WriterControl → WriterState → Prop}
    {control : WriterControl} {state : WriterState}
    (now : (run.state n).threads i = ⟨.done control, state⟩) (goesOn : control ≠ .exited)
    (unhindered : Unhindered post (writerBody (setup.bench.testBit 0) (setup.plan i) control)
      state) :
    (∃ m next final, n ≤ m ∧ (run.state m).threads i = ⟨.ask .pop next, final⟩) ∨
      ∃ m control final, n ≤ m ∧ (run.state m).threads i = ⟨.done control, final⟩ ∧
        InLoop (setup.plan i) control final ∧ post control final := by
  obtain ⟨k, later, begun⟩ := turns.turn inside now goesOn
  refine ((stuck.later later).performs turns inside unhindered begun).imp ?_ ?_
  · rintro ⟨m, next, final, past, asks⟩
    exact ⟨m, next, final, by omega, asks⟩
  · rintro ⟨m, control, final, past, done⟩
    exact ⟨m, control, final, by omega, done⟩

/-- A writer at the head of its outer loop comes to wait for a task. -/
private theorem Stuck.waits_outer (stuck : Stuck run n) (turns : TakesTurns run)
    (inside : i < setup.plans.length) {last : Int} {state : WriterState}
    (now : (run.state n).threads i = ⟨.done (.outer true last), state⟩) :
    ∃ m next final, n ≤ m ∧ (run.state m).threads i = ⟨.ask .pop next, final⟩ := by
  rcases stuck.part turns inside now nofun (writerOuter_unhindered _ (setup.plan i) last) with
    waiting | ⟨_, _, _, _, _, _, no⟩
  · exact waiting
  · exact absurd no id

/-- A writer with a closed file succeeds, and then waits for a task. -/
private theorem Stuck.waits_closed (stuck : Stuck run n) (turns : TakesTurns run)
    (inside : i < setup.plans.length) {last : Int} {task : HasherTask} {state : WriterState}
    (mine : OfPlan (setup.plan i) task) (closed : state.handle = none)
    (now : (run.state n).threads i = ⟨.done (.attempt last task), state⟩) :
    ∃ m next final, n ≤ m ∧ (run.state m).threads i = ⟨.ask .pop next, final⟩ := by
  rcases stuck.part turns inside now nofun (writerAttempt_succeeds last mine closed) with
    waiting | ⟨m, _, final, later, done, _, _, rfl⟩
  · exact waiting
  · obtain ⟨k, next, final, past, asks⟩ := (stuck.later later).waits_outer turns inside done
    exact ⟨k, next, final, by omega, asks⟩

/-- Wherever it is, a writer comes to wait for a task. -/
theorem Stuck.waits (stuck : Stuck run n) (turns : TakesTurns run)
    (inside : i < setup.plans.length) :
    ∃ m next final, n ≤ m ∧ (run.state m).threads i = ⟨.ask .pop next, final⟩ := by
  rcases stuck.performs turns inside (always_trivial _ _)
    (rfl : (run.state n).threads i = ⟨_, _⟩) with waiting | ⟨m, control, state, later, done, inLoop, -⟩
  · exact waiting
  · have still := stuck.later later
    match control, inLoop with
    | .outer true last, _ =>
        obtain ⟨k, next, final, past, asks⟩ := still.waits_outer turns inside done
        exact ⟨k, next, final, by omega, asks⟩
    | .attempt last task, mine =>
        rcases still.part turns inside done nofun (writerAttempt_unhindered last mine) with
          ⟨k, next, final, past, asks⟩ | ⟨k, control, state, past, again, _, after⟩
        · exact ⟨k, next, final, by omega, asks⟩
        · match control, after with
          | .outer true last, _ =>
              obtain ⟨k, next, final, past, asks⟩ :=
                (still.later past).waits_outer turns inside again
              exact ⟨k, next, final, by omega, asks⟩
          | .attempt last _, ⟨rfl, closed⟩ =>
              obtain ⟨k, next, final, past, asks⟩ :=
                (still.later past).waits_closed turns inside mine closed again
              exact ⟨k, next, final, by omega, asks⟩

/-- A writer that waits has nothing in hand. -/
theorem Stuck.emptyHanded (stuck : Stuck run n) (turns : TakesTurns run) (valid : setup.Valid)
    (inside : i < setup.plans.length) : ((run.state n).threads i).inHand = [] := by
  obtain ⟨m, next, state, later, asks⟩ := stuck.waits turns inside
  have orderly := (reachable_balanced valid (run.reachable m)).2 i
  rw [asks] at orderly
  have empty : state.current = none := orderly.1 rfl
  rw [← (stuck.same later).inHand i inside, asks]
  simp [WriterThread.inHand, empty]

/-- Nothing is queued for a writer. -/
theorem Stuck.queue (stuck : Stuck run n) (turns : TakesTurns run)
    (inside : i < setup.plans.length) : (run.state n).queues i = [] := by
  by_contra queued
  obtain ⟨m, next, state, later, asks⟩ := stuck.waits turns inside
  have waiting : ∀ k, m ≤ k → (run.state k).queues i ≠ [] := fun k past => by
    rwa [(stuck.same (by omega : n ≤ k)).queues i inside]
  obtain ⟨k, past, here, event, happens, outcome, rfl⟩ := (turns.writers i inside).acts
    (fun s => s.threads i = ⟨.ask .pop next, state⟩)
    (fun k _ here waits => (thread_stays waits).trans here)
    (fun k past here => writer_enabled inside (by simp [here]) fun _ _ => .inr (waiting k past)) asks
  have same := (stuck.unmoved k (by omega)).queues i inside
  have running := (stuck.running k (by omega)).exits i
  have taken := run.moves k _ happens
  generalize run.state (k + 1) = t at same taken
  obtain ⟨task, rest, queue⟩ := List.exists_cons_of_ne_nil (waiting k past)
  have moved : (run.state k).step setup (.writer i outcome) = _ :=
    (if_pos inside).trans (write_pop outcome (by rw [here]) running queue)
  rw [show setup.machine.step (run.state k) (.writer i outcome) = _ from moved,
    Option.some.injEq] at taken
  subst taken
  simp [queue] at same

/-! ### The dispatcher -/

/-- How many events the dispatcher is away from the wait for a report. -/
def untilReport : DispatcherPlace → Nat
  | .reports => 0
  | .head => 1
  | .deciding => 2
  | .closing => 3

/-- The dispatcher on its way to the wait for a report. -/
private theorem report_nearer (running : Running setup s) {event : SystemEvent}
    (own : event.Dispatching) (taken : s.step setup event = some t)
    (elsewhere : s.dispatcher.place ≠ .reports) :
    untilReport t.dispatcher.place < untilReport s.dispatcher.place := by
  cases step_move taken with
  | poll place => simp [Dispatcher.poll, running.stopped, place, untilReport]
  | timeout place => exact absurd place elsewhere
  | receive place => exact absurd place elsewhere
  | dispatch place => simp [dispatch, dispatch_place, place, untilReport]
  | _ => exact absurd own id

/-- The dispatcher comes to the wait for a report and does not stay there. -/
theorem Stuck.receives (stuck : Stuck run n) (turns : TakesTurns run) :
    ∃ m timeout, n ≤ m ∧ run.event m = some (.receive timeout) := by
  by_contra never
  refine turns.dispatcher.expires (fun k s => untilReport s.dispatcher.place = k)
    (fun m k _ here waits => by rwa [dispatcher_stays waits])
    (fun m k later _ => dispatcher_enabled (stuck.running m later).loops)
    (fun m k later here ⟨event, happens, own⟩ => ?_) _ rfl
  have taken := run.moves m event happens
  refine ⟨_, ?_, rfl⟩
  rw [← here]
  refine report_nearer (stuck.running m later) own taken fun place => ?_
  have place' := place
  cases event with
  | receive timeout => exact never ⟨m, timeout, later, happens⟩
  | poll =>
      have head := (Option.ite_none_right_eq_some.mp taken).1
      rw [place] at head
      cases head
  | dispatch =>
      have deciding := (Option.ite_none_right_eq_some.mp taken).1.1
      rw [place] at deciding
      cases deciding
  | _ => exact own

/-- No report is waiting. -/
theorem Stuck.reports (stuck : Stuck run n) (alone : LeftAlone run) :
    (run.state n).reports = [] := by
  obtain ⟨m, timeout, later, happens⟩ := stuck.receives alone.toTakesTurns
  rw [← (stuck.same later).reports]
  cases timeout with
  | true => exact alone.timeouts m happens
  | false =>
      have same := (stuck.unmoved m later).reports
      have taken : (run.state m).step setup (.receive false) = some _ := run.moves m _ happens
      generalize run.state (m + 1) = t at same taken
      cases step_move taken with
      | receive _ reported => simp [reported] at same

/-- Nothing is in flight. -/
theorem Stuck.empty (stuck : Stuck run n) (alone : LeftAlone run) (valid : setup.Valid) :
    (run.state n).inFlight setup = [] := by
  have shared : shares setup.plans.length (fun i => (run.state n).queues i ++
      ((run.state n).threads i).inHand) = [] := by
    refine List.eq_nil_iff_forall_not_mem.mpr fun task member => ?_
    obtain ⟨i, inside, mine⟩ := mem_shares.mp member
    rw [stuck.queue alone.toTakesTurns inside,
      stuck.emptyHanded alone.toTakesTurns valid inside] at mine
    cases mine
  simp [inFlight, shared, stuck.hasherQueue alone.toTakesTurns,
    stuck.hasher_idle alone.toTakesTurns, stuck.reports alone]

/-- Some nonces are left: otherwise the dispatcher would declare the plotting
finished at the next wait. -/
theorem Stuck.work (stuck : Stuck run n) (alone : LeftAlone run) (valid : setup.Valid)
    (small : setup.totalNonces < 2147483648) :
    0 < (run.state n).dispatcher.remaining setup := by
  have balanced := (reachable_balanced valid (run.reachable n)).1
  by_contra exhausted
  have none : (run.state n).dispatcher.remaining setup = 0 := by
    have := balanced.remaining_nonneg
    omega
  obtain ⟨m, timeout, later, happens⟩ := stuck.receives alone.toTakesTurns
  have empty := (stuck.later later).empty alone valid
  have finished := (reachable_balanced valid (run.reachable m)).1.finished
  have reported := (reachable_balanced valid (run.reachable m)).1.reported
  rw [empty, (stuck.same later).remaining, none, flyingNonces_nil, Int.sub_zero, Int.sub_zero]
    at finished reported
  rw [toInt32_eq (by omega) (by omega)] at finished
  have taken : (run.state m).step setup (.receive timeout) = some _ := run.moves m _ happens
  have running := stuck.running (m + 1) (by omega)
  have reports := (stuck.later later).reports alone
  refine running.loops ?_
  generalize run.state (m + 1) = t at taken
  have all : (toUInt64 (run.state m).dispatcher.finishedNonces : Int) = setup.totalNonces := by
    rw [finished]
    unfold toUInt64
    omega
  cases step_move taken with
  | timeout => simp [Dispatcher.receive, Dispatcher.gate, all]
  | receive _ reported => simp [reported] at reports

/-! ### Around the writers -/

/-- With nothing in flight the allocator hands out a block, a new one if it has none. -/
theorem Balanced.serves (valid : setup.Valid) {d : Dispatcher} (balanced : Balanced setup d [])
    {choice : MemoryChoice} (memory : d.allocator.held = [] →
      setup.blockSize ≤ choice.freeBytes ∧ ∃ data, choice.fresh = some data) :
    ((d.allocator.allocate choice setup.blockSize).1).isSome := by
  by_cases none : d.allocator.held = []
  · obtain ⟨free, found⟩ := memory none
    exact balanced.backed.allocates valid (Nat.pos_of_ne_zero valid.flying) free found
  · have used : d.allocator.used = [] := by simpa using balanced.backed.used.length_eq
    have fits : d.allocator.fitting setup.blockSize = d.allocator.free := by
      refine List.filter_eq_self.mpr fun block member => ?_
      simpa using balanced.backed.lengths block (List.mem_append_left _ member)
    have some_free : d.allocator.free ≠ [] := by
      simpa [BlockAllocator.held, used] using none
    have inside : choice.pick % d.allocator.free.length < d.allocator.free.length :=
      Nat.mod_lt _ (List.length_pos_iff.mpr some_free)
    simp [BlockAllocator.allocate, fits, List.getElem?_eq_getElem inside]

/-- A decision looks at the queue of one writer only. -/
theorem dispatch_congr (d : Dispatcher) {hasherSize : Nat} {writerSize : Nat → Nat}
    (writerSize' : Nat → Nat) (choice : MemoryChoice)
    (same : writerSize (d.wrapped setup).toNat = writerSize' (d.wrapped setup).toNat) :
    d.dispatch setup hasherSize writerSize choice =
      d.dispatch setup hasherSize writerSize' choice := by
  simp only [Dispatcher.dispatch, same]

/-- How many events the dispatcher is away from its decision. -/
def untilDecision : DispatcherPlace → Nat
  | .deciding => 0
  | .reports => 1
  | .head => 2
  | .closing => 3

variable (setup) in
/-- The writer so many positions away has something left, and the dispatcher comes
to it within so many events. -/
def Away (k : Nat) (s : System) : Prop :=
  ∃ distance, ¬s.Exhausted (((s.dispatcher.wrapped setup).toNat + distance) % setup.plans.length) ∧
    k = 3 * distance + untilDecision s.dispatcher.place

/-- A decision in an idle state that moves no task goes on to the next writer. -/
private theorem decision_nearer (valid : setup.Valid) (idle : Idle setup s)
    {writerSize : Nat → Nat} {choice : MemoryChoice}
    (writersEmpty : ∀ i, i < setup.plans.length → writerSize i = 0)
    (fresh : ∀ data ∈ choice.fresh, s.dispatcher.allocator.Fresh ⟨data, setup.blockSize⟩)
    (memory : s.dispatcher.allocator.held = [] →
      setup.blockSize ≤ choice.freeBytes ∧ ∃ data, choice.fresh = some data)
    (unmoved : Unmoved setup s (s.dispatch setup 0 writerSize choice)) {k : Nat}
    (away : Away setup k s) : ∃ j, j < k ∧ Away setup j (s.dispatch setup 0 writerSize choice) := by
  obtain ⟨distance, left, rfl⟩ := away
  have balanced := (reachable_balanced valid idle.reached).1
  have bounds := balanced.wrapped valid
  obtain ⟨hasherEmpty, _, queues⟩ := queues_of_empty idle.empty
  have agree : s.dispatch setup 0 writerSize choice =
      s.dispatch setup s.hasherQueue.length (fun i => (s.queues i).length) choice := by
    have inside : (s.dispatcher.wrapped setup).toNat < setup.plans.length := by omega
    unfold dispatch
    rw [hasherEmpty, dispatch_congr s.dispatcher (fun i => (s.queues i).length) choice
      (by rw [writersEmpty _ inside, queues _ inside]; rfl)]
    rfl
  rw [agree] at unmoved ⊢
  rw [idle.empty] at balanced
  have serves := Balanced.serves valid balanced memory
  rcases idle.dispatch valid fresh serves (idle.iterate valid fresh) with
    ⟨task, moved, _⟩ | ⟨_, _, exhausted, tasks, position⟩
  · have same := unmoved.hasherQueue
    rw [moved, hasherEmpty] at same
    cases same
  · cases distance with
    | zero =>
        rw [Nat.add_zero, Nat.mod_eq_of_lt (by omega)] at left
        exact absurd exhausted left
    | succ distance =>
        refine ⟨_, ?_, distance, ?_, rfl⟩
        · simp only [dispatch, dispatch_place, untilDecision]
          omega
        · rw [wrapped_next valid bounds position, Nat.mod_add_mod, Nat.add_right_comm,
            Nat.add_assoc]
          unfold Exhausted at left ⊢
          rwa [tasks]

/-- Every event of the dispatcher in an idle state brings it nearer to a writer with
something left. -/
private theorem away_nearer (valid : setup.Valid) (alone : LeftAlone run) {m k : Nat}
    (idle : Idle setup (run.state m)) (unmoved : Unmoved setup (run.state m) (run.state (m + 1)))
    {event : SystemEvent} (own : event.Dispatching) (happens : run.event m = some event)
    (away : Away setup k (run.state m)) : ∃ j, j < k ∧ Away setup j (run.state (m + 1)) := by
  have taken : (run.state m).step setup event = some _ := run.moves m event happens
  have sizes := fun hasherSize writerSize choice same =>
    alone.sizes m hasherSize writerSize choice (happens.trans same) idle.empty
  have memory := fun hasherSize writerSize choice same =>
    alone.memory m hasherSize writerSize choice (happens.trans same)
  generalize run.state (m + 1) = t at unmoved taken ⊢
  generalize run.state m = s at *
  cases step_move taken with
  | poll place =>
      obtain ⟨distance, left, rfl⟩ := away
      refine ⟨_, ?_, distance, left, rfl⟩
      simp [place, Dispatcher.poll, idle.running, untilDecision]
  | timeout place =>
      obtain ⟨distance, left, rfl⟩ := away
      have gate : s.dispatcher.receive setup none = { s.dispatcher with place := .deciding } :=
        idle.gate valid s.dispatcher.place
      rw [gate]
      refine ⟨_, ?_, distance, left, rfl⟩
      simp [place, untilDecision]
  | receive _ reported => simp [(queues_of_empty idle.empty).2.1] at reported
  | @dispatch hasherSize writerSize choice place fresh =>
      obtain ⟨rfl, writersEmpty⟩ := sizes _ _ _ rfl
      exact decision_nearer valid idle writersEmpty fresh (memory _ _ _ rfl) unmoved away
  | _ => exact absurd own id

/-- A run that is left alone does not come to a standstill. -/
theorem Stuck.contradiction (stuck : Stuck run n) (alone : LeftAlone run) (valid : setup.Valid)
    (small : setup.totalNonces < 2147483648) : False := by
  have idle : ∀ m, n ≤ m → Idle setup (run.state m) := by
    intro m later
    have still := stuck.later later
    have nonneg := (reachable_balanced valid (run.reachable m)).1.remaining_nonneg
    exact ⟨run.reachable m, (stuck.running m later).stopped, still.empty alone valid, by omega,
      still.work alone valid small⟩
  obtain ⟨distance, _, left⟩ := (idle n (Nat.le_refl n)).exists_distance valid
  refine alone.dispatcher.expires (Away setup) (fun m k _ away waits => ?_)
    (fun m k later _ => dispatcher_enabled (stuck.running m later).loops)
    (fun m k later away ⟨event, happens, own⟩ => away_nearer valid alone (idle m later)
      (stuck.unmoved m later) own happens away) _ ⟨distance, left, rfl⟩
  unfold Away Exhausted
  rw [dispatcher_stays waits]
  exact away

/-! ## Completion -/

/-- A run that is left alone declares the plotting finished. -/
theorem LeftAlone.declares (alone : LeftAlone run) (valid : setup.Valid)
    (small : setup.totalNonces < 2147483648) : ∃ n, Declared setup (run.state n) := by
  by_contra never
  have running : ∀ m, Running setup (run.state m) := fun m =>
    (alone.running valid m).resolve_left fun declared => never ⟨m, declared⟩
  have step : ∀ m, (run.state (m + 1)).workload setup < (run.state m).workload setup ∨
      Unmoved setup (run.state m) (run.state (m + 1)) := by
    intro m
    obtain ⟨balanced, orderly⟩ := reachable_balanced valid (run.reachable m)
    cases happens : run.event m with
    | none =>
        rw [run.rests m happens]
        exact .inr (.refl _)
    | some event => exact step_workload valid balanced orderly (run.moves m event happens)
  obtain ⟨settled, _, same⟩ := run.settles (fun s => s.workload setup) (n := 0) fun m _ =>
    (step m).elim Nat.le_of_lt fun unmoved => Nat.le_of_eq unmoved.workload
  obtain ⟨recovered, smooth⟩ := alone.recovers
  have stuck : Stuck run (max settled recovered) := by
    refine ⟨fun m later => ?_, fun m _ => running m, fun m later => smooth m (by omega)⟩
    refine (step m).resolve_left fun less => ?_
    have equal := same m (by omega)
    omega
  exact stuck.contradiction alone valid small

end System

end HyperPlotter.Pipeline

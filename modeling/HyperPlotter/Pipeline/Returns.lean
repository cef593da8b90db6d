import HyperPlotter.Pipeline.Completion

/-!
# When `run_plotter` returns

It returns after every stop, and in a run that is left alone it returns with every
planned file whole under its final name. A scheduler that lets one thread after the
other act gives such a run.
-/

namespace HyperPlotter.Pipeline

open Foundation Poc Interaction Filter

namespace System

variable {setup : PlotterSetup} {run : setup.machine.Endless} {s t : System} {n i : Nat}

/-! ## Tasks in hand -/

/-- The writers poll the flag inside their loops with a task in hand. -/
def WritersAttentive (s : System) : Prop :=
  ∀ i, Attentive HoldsTask (s.threads i).program (s.threads i).state

/-- A step keeps the writers attentive. -/
theorem WritersAttentive.step (attentive : WritersAttentive s) {event : SystemEvent}
    (taken : s.step setup event = some t) : WritersAttentive t := by
  intro i
  have discipline := attentive i
  cases step_thread taken i with
  | away _ same => rwa [same]
  | turn _ done turned =>
      rw [done] at discipline
      rw [turned]
      exact writerBody_attentive _ _ discipline
  | answer _ asks answered =>
      rw [asks] at discipline
      rw [answered]
      exact discipline.2 _ trivial

/-- The writers of every reachable state are attentive. -/
theorem reachable_attentive (reached : setup.machine.Reachable s) : WritersAttentive s := by
  refine Machine.Reaches.invariant WritersAttentive (fun start i => ?_)
    (fun _ attentive _ taken => attentive.step taken) reached
  obtain ⟨plotting, final, writeBuffer, thread⟩ := Start.threads start i
  rw [thread]
  exact trivial

/-! ## Nothing disturbs the writers -/

/-- No rename fails. -/
def RenamesSucceed (run : setup.machine.Endless) : Prop :=
  ∀ n i outcome file next, run.event n = some (.writer i outcome) →
    ((run.state n).threads i).program = .ask (.rename file) next → outcome.ok = true

/-- Without a signal a writer with a task in hand is not stopped: the plotting is not
declared finished. -/
private theorem attending (valid : setup.Valid) (reached : setup.machine.Reachable s)
    (goes : Declared setup s ∨ Running setup s) (inside : i < setup.plans.length)
    (holds : (s.threads i).state.current.isSome) : s.stopped = false := by
  rcases goes with declared | running
  · obtain ⟨_, empty⟩ := (reachable_balanced valid reached).1.all_counted valid declared.counted
    obtain ⟨⟨task, data⟩, current⟩ := Option.isSome_iff_exists.mp holds
    have flying : task ∈ s.inFlight setup := by
      refine List.mem_append_left _ (List.mem_append_right _ (mem_shares.mpr ⟨i, inside, ?_⟩))
      simp [WriterThread.inHand, current]
    rw [empty] at flying
    cases flying
  · exact running.stopped

/-- Without a signal only a rename can disturb a writer. -/
private theorem quiet_undisturbed {strict : Prop} (valid : setup.Valid)
    (reached : setup.machine.Reachable s) (goes : Declared setup s ∨ Running setup s)
    {event : SystemEvent} (taken : s.step setup event = some t)
    (renames : ∀ i outcome file next, event = .writer i outcome →
      (s.threads i).program = .ask (.rename file) next → strict → outcome.ok = true) :
    Undisturbed strict s event := by
  cases event with
  | writer i outcome =>
      have inside : i < setup.plans.length := (Option.ite_none_right_eq_some.mp taken).1
      have attentive := reachable_attentive reached i
      cases asks : (s.threads i).program with
      | done control => simp only [Undisturbed, asks]
      | ask request next =>
          rw [asks] at attentive
          simp only [Undisturbed, asks]
          have attends : ∀ poll, request = .stopped poll → poll ≠ .outer → s.stopped = false :=
            fun poll same inner => attending valid reached goes inside (attentive.1 poll same inner)
          cases request with
          | stopped poll =>
              refine ⟨fun left => attends poll rfl ?_, fun retry _ => attends poll rfl ?_⟩
              · rintro rfl
                exact left
              · rintro rfl
                cases retry
          | rename file => exact renames i outcome file next rfl asks
          | _ => trivial
  | _ => trivial

/-- Every step of a run that is left alone is undisturbed. -/
theorem LeftAlone.undisturbed (alone : LeftAlone run) (valid : setup.Valid)
    (renames : RenamesSucceed run) (n : Nat) {event : SystemEvent}
    (happens : run.event n = some event) : Undisturbed True (run.state n) event := by
  refine quiet_undisturbed valid (run.reachable n) (alone.running valid n)
    (run.moves n event happens) ?_
  rintro i outcome file next rfl asks _
  exact renames n i outcome file next happens asks

/-- A run without a signal has whole tasks only. -/
theorem quiet_reaches (valid : setup.Valid) {start : System} (starts : start.Start setup)
    (quiet : (setup.machine.startingAt start).Reaches (fun _ event => event ≠ .interrupt) s) :
    (setup.machine.startingAt start).Reaches (Undisturbed False) s := by
  induction quiet with
  | start same => exact .start same
  | step before meets taken ih =>
      have quiet : setup.machine.Reaches (fun _ event => event ≠ .interrupt) _ :=
        before.ofStartingAt starts
      refine .step ih (quiet_undisturbed valid (quiet.mono fun _ _ _ => trivial)
        (reaches_running valid quiet) taken ?_) taken
      exact fun _ _ _ _ _ _ never => never.elim

/-! ## One thread after the other -/

variable (setup)

/-- Memory for the first block. -/
def firstBlock (s : System) : MemoryChoice :=
  if s.dispatcher.allocator.held = [] then ⟨0, setup.blockSize, some 4096⟩ else ⟨0, 0, none⟩

/-- The dispatcher's next event, with the queues as they are. -/
def dispatcherTurn (s : System) : SystemEvent :=
  match s.dispatcher.place with
  | .reports => .receive s.reports.isEmpty
  | .deciding =>
    .dispatch s.hasherQueue.length (fun i => (s.queues i).length) (s.firstBlock setup)
  | _ => .poll

/-- How many threads and queues have turns. -/
def turnCount : Nat := 2 * setup.plans.length + 3

/-- The event of the thread whose turn it is. -/
def inTurn (n : Nat) (s : System) : SystemEvent :=
  if n % turnCount setup = 0 then s.dispatcherTurn setup
  else if n % turnCount setup = 1 then .hasher
  else if n % turnCount setup < setup.plans.length + 2 then
    .writer (n % turnCount setup - 2) smoothly
  else .close (n % turnCount setup - (setup.plans.length + 2))

/-- The run in which the threads take turns. -/
def roundRobin : setup.machine.Endless :=
  .ofSchedule setup.machine (inTurn setup) (idle setup) (idle_start setup)

/-- The run in which the threads take turns after a series of events. -/
def takingTurnsAfter (events : List SystemEvent) : setup.machine.Endless :=
  .ofSchedule setup.machine (fun n s => (events[n]?).getD (inTurn setup n s)) (idle setup)
    (idle_start setup)

/-- Every turn comes again. -/
theorem exists_turn (n : Nat) {k : Nat} (inside : k < turnCount setup) :
    ∃ m, n ≤ m ∧ m % turnCount setup = k := by
  refine ⟨turnCount setup * n + k, ?_, ?_⟩
  · exact Nat.le_add_right_of_le (Nat.le_mul_of_pos_left _ (by omega))
  · rw [Nat.mul_add_mod, Nat.mod_eq_of_lt inside]

variable {setup}

/-- In its turn the dispatcher does what it can. -/
theorem dispatcherTurn_taken (room : 4096 + setup.blockSize ≤ BlockAllocator.addressSpace)
    (can : setup.machine.Enabled SystemEvent.Dispatching s) :
    (s.dispatcherTurn setup).Dispatching ∧ (s.step setup (s.dispatcherTurn setup)).isSome := by
  cases place : s.dispatcher.place with
  | head => simp [dispatcherTurn, step, place, SystemEvent.Dispatching]
  | reports =>
      refine ⟨by simp [dispatcherTurn, place, SystemEvent.Dispatching], ?_⟩
      cases reported : s.reports <;> simp [dispatcherTurn, step, receive, place, reported]
  | deciding =>
      have fresh : ∀ data ∈ (s.firstBlock setup).fresh,
          s.dispatcher.allocator.Fresh ⟨data, setup.blockSize⟩ := by
        unfold firstBlock
        split
        · rename_i empty
          rintro data ⟨⟩
          exact ⟨by simp, room, by simp [empty]⟩
        · simp
      refine ⟨by simp [dispatcherTurn, place, SystemEvent.Dispatching], ?_⟩
      simp only [dispatcherTurn, place]
      exact Option.isSome_iff_exists.mpr ⟨_, if_pos ⟨place, fresh⟩⟩
  | closing =>
      obtain ⟨event, own, taken⟩ := can
      cases event with
      | poll => simp [PlotterSetup.machine, step, place] at taken
      | receive => simp [PlotterSetup.machine, step, place] at taken
      | dispatch => simp [PlotterSetup.machine, step, place] at taken
      | _ => exact absurd own id

/-- Whether a writer can go on does not depend on how its access ends. -/
theorem write_outcome (outcome other : Outcome) (can : (s.write setup i outcome).isSome) :
    (s.write setup i other).isSome := by
  unfold write at can ⊢
  cases running : (s.threads i).program with
  | done control => cases control <;> simp_all
  | ask request next =>
      cases request with
      | pop => cases exits : s.exits i <;> cases queued : s.queues i <;> simp_all
      | _ => rfl

/-- A schedule that lets the threads take turns from some moment on is fair to all of
them. -/
theorem takesTurns (room : 4096 + setup.blockSize ≤ BlockAllocator.addressSpace)
    {choose : Nat → System → SystemEvent} {first : Nat}
    (later : ∀ n, first ≤ n → choose n = inTurn setup n)
    {start : System} (starts : start.Start setup) :
    TakesTurns (Machine.Endless.ofSchedule setup.machine choose start starts) where
  dispatcher := Machine.Endless.ofSchedule_fair fun n => by
    obtain ⟨m, after, turn⟩ := exists_turn setup (max n first) (k := 0) (by simp [turnCount])
    refine ⟨m, by omega, fun s can => ?_⟩
    rw [later m (by omega), inTurn, if_pos turn]
    exact dispatcherTurn_taken room can
  hasher := Machine.Endless.ofSchedule_fair fun n => by
    obtain ⟨m, after, turn⟩ := exists_turn setup (max n first) (k := 1) (by simp [turnCount])
    refine ⟨m, by omega, fun s ⟨_, own, can⟩ => ?_⟩
    subst own
    rw [later m (by omega), inTurn, turn, if_neg (by simp), if_pos rfl]
    exact ⟨rfl, can⟩
  writers i inside := Machine.Endless.ofSchedule_fair fun n => by
    obtain ⟨m, after, turn⟩ := exists_turn setup (max n first) (k := i + 2)
      (by simp [turnCount]; omega)
    refine ⟨m, by omega, fun s can => ?_⟩
    rw [later m (by omega), inTurn, turn, if_neg (by simp), if_neg (by simp), if_pos (by omega),
      Nat.add_sub_cancel]
    obtain ⟨_, ⟨outcome, rfl⟩, access⟩ := can
    refine ⟨⟨smoothly, rfl⟩, ?_⟩
    simp only [PlotterSetup.machine, step, if_pos inside] at access ⊢
    exact write_outcome outcome smoothly access
  closing worker inside := Machine.Endless.ofSchedule_fair fun n => by
    obtain ⟨m, after, turn⟩ := exists_turn setup (max n first)
      (k := worker + (setup.plans.length + 2))
      (by simp [turnCount, PlotterSetup.workers] at inside ⊢; omega)
    refine ⟨m, by omega, fun s ⟨_, own, can⟩ => ?_⟩
    subst own
    rw [later m (by omega), inTurn, turn, if_neg (by omega), if_neg (by omega), if_neg (by omega),
      Nat.add_sub_cancel]
    exact ⟨rfl, can⟩

variable (setup) in
/-- What a thread does in its turn; the dispatcher sees what is there. -/
inductive Turn (s : System) : SystemEvent → Prop where
  | poll : Turn s .poll
  | receive : Turn s (.receive s.reports.isEmpty)
  | dispatch : Turn s (.dispatch s.hasherQueue.length (fun i => (s.queues i).length)
      (s.firstBlock setup))
  | hasher : Turn s .hasher
  | writer (i : Nat) : Turn s (.writer i smoothly)
  | close (worker : Nat) : Turn s (.close worker)

/-- An event in turn is a turn. -/
theorem turn_inTurn (n : Nat) (s : System) : Turn setup s (inTurn setup n s) := by
  unfold inTurn
  split
  · unfold dispatcherTurn
    split
    · exact .receive
    · exact .dispatch
    · exact .poll
  · split
    · exact .hasher
    · split
      · exact .writer _
      · exact .close _

/-- All events of the run are turns. -/
theorem roundRobin_turn {event : SystemEvent} (happens : (roundRobin setup).event n = some event) :
    Turn setup ((roundRobin setup).state n) event := by
  rw [Machine.Endless.ofSchedule_chosen happens]
  exact turn_inTurn n _

/-- When the threads take turns the run is left alone. -/
theorem roundRobin_leftAlone (room : 4096 + setup.blockSize ≤ BlockAllocator.addressSpace) :
    LeftAlone (roundRobin setup) where
  toTakesTurns := by
    have chosen : ∀ n, 0 ≤ n → inTurn setup n = inTurn setup n := fun _ _ => rfl
    exact takesTurns room chosen (idle_start setup)
  uninterrupted n happens := nomatch roundRobin_turn happens
  timeouts n happens := by
    generalize event : SystemEvent.receive true = received at happens
    cases roundRobin_turn happens with
    | receive => exact List.isEmpty_iff.mp (SystemEvent.receive.inj event).symm
    | _ => cases event
  sizes n hasherSize writerSize choice happens empty := by
    obtain ⟨hasherQueue, _, queues⟩ := queues_of_empty empty
    cases roundRobin_turn happens with
    | dispatch => exact ⟨by simp [hasherQueue], fun i inside => by simp [queues i inside]⟩
  memory n hasherSize writerSize choice happens empty := by
    cases roundRobin_turn happens with
    | dispatch => simp [firstBlock, empty]
  recovers := by
    refine ⟨0, fun n _ i outcome happens => ?_⟩
    cases roundRobin_turn happens with
    | writer => rfl

/-- No rename of the run fails. -/
theorem roundRobin_renames : RenamesSucceed (roundRobin setup) := by
  intro n i outcome file next happens _
  cases roundRobin_turn happens with
  | writer => rfl

end System

variable {setup : PlotterSetup} {run : setup.machine.Endless}

/-! ## The end of a run -/

/-- A run that is left alone gets to a state where all threads have left and all nonces
are counted. -/
theorem System.LeftAlone.completes (alone : System.LeftAlone run) (valid : setup.Valid)
    (small : setup.totalNonces < 2147483648) : ∀ᶠ n in atTop,
      System.ShutDown setup (run.state n) ∧ System.Declared setup (run.state n) := by
  obtain ⟨declaredAt, declared⟩ := alone.declares valid small
  obtain ⟨_, _, stopped, _⟩ := alone.stops declared.closing (Nat.zero_lt_succ setup.plans.length)
  filter_upwards [alone.shutsDown stopped,
    Machine.Endless.eventually_remains (System.Declared setup) declared System.step_declared]
    with n shutDown declared using ⟨shutDown, declared⟩

/-- When all nonces of a plotting run are counted and no rename failed, every planned
file is there under its final name, with the PoC2 layout. -/
theorem System.LeftAlone.final (alone : System.LeftAlone run) (valid : setup.Valid)
    (plots : setup.Plots) (renames : System.RenamesSucceed run) {n : Nat}
    (declared : System.Declared setup (run.state n)) {i : Nat} (inside : i < setup.plans.length)
    {index : Nat} {file : PlannedFile} (found : (setup.plan i)[index]? = some file) :
    ∃ entry, ((run.state n).threads i).state.final index = some entry ∧
      PoC2Layout file entry := by
  have undisturbed : setup.machine.Reaches (System.Undisturbed True) (run.state n) :=
    Machine.Endless.reaches fun m _ event happens => alone.undisturbed valid renames m happens
  have delivered := System.reaches_delivered valid plots.bench undisturbed
  exact delivered.final valid plots declared.counted inside found

/-- After a stop all threads leave and `run_plotter` returns, whatever the files, the
memory and the queue sizes do. -/
theorem stopped_returns (turns : System.TakesTurns run) {n : Nat}
    (stopped : (run.state n).stopped = true) :
    ∀ᶠ m in atTop, System.ShutDown setup (run.state m) := turns.shutsDown stopped

/-- The writer has allocated the file of its first task and the hasher is in the second
when the signal comes. -/
def interruptedWrite : List SystemEvent :=
  secondMade ++ List.replicate 4 .hasher ++ List.replicate 9 (.writer 0 smoothly) ++
    [.interrupt]

private theorem interruptedWrite_run :
    ∃ s, twoFiles.machine.run (.idle twoFiles) interruptedWrite = some s ∧ s.stopped = true ∧
      s.hasher.task.map HasherTask.currentWriteTask = some 1 ∧
      ((s.threads 0).state.current.map fun pair => pair.1.currentWriteTask) = some 0 ∧
      ((s.threads 0).state.plotting 0).map FileEntry.size = some 2097152 :=
  ⟨_, rfl, rfl, rfl, rfl, rfl⟩

/-- With a task in the hands of the hasher and one in the writer's. -/
theorem stopped_returns_twoFiles :
    ∃ (run : twoFiles.machine.Endless) (n : Nat), (run.state n).stopped = true ∧
      (run.state n).hasher.task.map HasherTask.currentWriteTask = some 1 ∧
      ((run.state n).threads 0).state.current.map (fun pair => pair.1.currentWriteTask) = some 0 ∧
      ∀ᶠ m in atTop, System.ShutDown twoFiles (run.state m) := by
  obtain ⟨s, runs, stopped, hashing, writing, _⟩ := interruptedWrite_run
  have here : (System.takingTurnsAfter twoFiles interruptedWrite).state interruptedWrite.length =
      s := Machine.Endless.scheduled_events (fun n event state found => by rw [found]; rfl) runs
  have turns : System.TakesTurns (System.takingTurnsAfter twoFiles interruptedWrite) :=
    System.takesTurns (by decide)
      (fun n later => funext fun s => by rw [List.getElem?_eq_none later]; rfl) _
  refine ⟨System.takingTurnsAfter twoFiles interruptedWrite, interruptedWrite.length, ?_⟩
  rw [here]
  exact ⟨stopped, hashing, writing, stopped_returns turns (by rw [here, stopped])⟩

/-- A run that is left alone declares the plotting finished and `run_plotter` returns.
If it plots and no rename fails, every planned file is then there under its final name,
with the PoC2 layout. -/
theorem leftAlone_completes (valid : setup.Valid) (small : setup.totalNonces < 2147483648)
    (alone : System.LeftAlone run) : ∀ᶠ n in atTop,
      System.ShutDown setup (run.state n) ∧ System.Declared setup (run.state n) ∧
      (setup.Plots → System.RenamesSucceed run → ∀ i, i < setup.plans.length → ∀ index file,
        (setup.plan i)[index]? = some file → ∃ entry,
          ((run.state n).threads i).state.final index = some entry ∧
          PoC2Layout file entry) := by
  filter_upwards [alone.completes valid small] with n ⟨shutDown, declared⟩
  refine ⟨shutDown, declared, fun plots renames i inside index file found => ?_⟩
  exact alone.final valid plots renames declared inside found

/-- One small file is plotted whole. -/
theorem oneFile_plots : oneFile.Plots where
  bench := rfl
  supported := GpuPlotter.inOrder_supported (by decide) (by decide) (by decide)
  filled _ _ file _ := min_le_left (oneFile.workSize : Int) file.nonces |>.trans (by decide)

/-- The run in which the threads take turns. -/
theorem leftAlone_completes_oneFile : ∃ n,
    System.ShutDown oneFile ((System.roundRobin oneFile).state n) ∧
    ∃ entry, (((System.roundRobin oneFile).state n).threads 0).state.final 0 = some entry ∧
      PoC2Layout ⟨1, 0, 8⟩ entry := by
  have alone : System.LeftAlone (System.roundRobin oneFile) :=
    System.roundRobin_leftAlone (by decide)
  have completes := leftAlone_completes oneFile_valid (by decide) alone
  obtain ⟨n, shutDown, _, files⟩ := completes.exists
  exact ⟨n, shutDown,
    files oneFile_plots System.roundRobin_renames 0 (by decide) 0 ⟨1, 0, 8⟩ rfl⟩

end HyperPlotter.Pipeline

import HyperPlotter.Pipeline.Turns

/-!
# After a stop

Once the stop flag is set, `run_plotter` comes to its end: the dispatcher leaves
its loop and stops every queue, so that no thread waits any more, and each thread
leaves at its next test of the flag. Nothing is assumed about the files, the
memory or the queue sizes.
-/

namespace HyperPlotter.Pipeline

open Foundation Poc Interaction Filter

/-! ## A writer that sees the stop -/

/-- `Always` while the stop flag is set. -/
abbrev Stopping {α : Type} (post : α → WriterState → Prop) (program : WriterProgram α)
    (s : WriterState) : Prop :=
  Always WriterState.respond (fun _ _ choice => choice.stop = true) (fun _ _ => True) post program s

/-- The end of `run`. -/
theorem leaveWriter_stopping (s : WriterState) :
    Stopping (fun control _ => control = .exited) leaveWriter s :=
  always_perform.mpr ⟨trivial, fun _ _ => rfl⟩

/-- At the head of the outer loop the writer leaves. -/
theorem writerOuter_stopping (bench : Bool) (plan : List PlannedFile) (success : Bool)
    (lastWriteTask : Int) (s : WriterState) :
    Stopping (fun control _ => control = .exited) (writerOuter bench plan success lastWriteTask) s := by
  unfold writerOuter
  cases success with
  | false => exact leaveWriter_stopping s
  | true =>
      refine always_perform.mpr ⟨trivial, fun choice stop => ?_⟩
      have polled : s.respond choice (.stopped .outer) = (true, s) := Prod.ext stop rfl
      rw [polled]
      exact leaveWriter_stopping s

/-- An attempt is not followed by another one. -/
theorem writerAttempt_stopping (plan : List PlannedFile) (lastWriteTask : Int) (task : HasherTask)
    (s : WriterState) :
    Stopping (fun control _ => ∀ last task, control ≠ .attempt last task)
      (writerAttempt plan lastWriteTask task) s := by
  unfold writerAttempt
  split
  · exact nofun
  · refine (always_trivial _ s).bind fun ok final _ => ?_
    cases ok with
    | true => exact always_perform.mpr ⟨trivial, fun _ _ => nofun⟩
    | false =>
        refine always_perform.mpr ⟨trivial, fun choice stop => ?_⟩
        have polled : final.respond choice (.stopped .retry) = (true, final) := Prod.ext stop rfl
        rw [polled]
        exact always_perform.mpr ⟨trivial, fun _ _ => nofun⟩

namespace System

variable {setup : PlotterSetup} {run : setup.machine.Endless} {n i : Nat}

/-- Nothing is left to do after the loop: the dispatcher is out of it, every queue
is stopped and every thread has left. -/
structure ShutDown (setup : PlotterSetup) (s : System) : Prop where
  dispatcher : s.dispatcher.place = .closing
  exits : ∀ i, i < setup.plans.length → s.exits i = true
  hasherExit : s.hasherExit = true
  hasher : s.hasher = .left
  writers : ∀ i, i < setup.plans.length → (s.threads i).program = .done .exited

/-! ## The dispatcher -/

/-- How many events the dispatcher is away from the test of its loop. -/
def untilPoll : DispatcherPlace → Nat
  | .head => 0
  | .deciding => 1
  | .reports => 2
  | .closing => 3

/-- A dispatcher in its loop comes nearer to the test, and past it when the flag is
set. -/
private theorem stops_nearer {s t : System} {event : SystemEvent} (stopped : s.stopped = true)
    (taken : s.step setup event = some t) (own : event.Dispatching) :
    t.dispatcher.place = .closing ∨
      untilPoll t.dispatcher.place < untilPoll s.dispatcher.place := by
  have gate : ∀ d : Dispatcher, (d.gate setup).place = .closing ∨
      untilPoll (d.gate setup).place < untilPoll .reports := by
    intro d
    unfold Dispatcher.gate
    split
    · exact .inl rfl
    · split
      · exact .inr (by simp [untilPoll])
      · split <;> exact .inr (by simp [untilPoll])
  cases step_move taken with
  | poll =>
      refine .inl ?_
      simp [Dispatcher.poll, stopped]
  | timeout place =>
      rw [place]
      exact gate _
  | receive place =>
      rw [place]
      exact gate _
  | dispatch place =>
      refine .inr ?_
      simp [dispatch, dispatch_place, place, untilPoll]
  | _ => exact absurd own id

/-- A stop ends the dispatcher's loop. -/
theorem TakesTurns.closes (turns : TakesTurns run) (stopped : (run.state n).stopped = true) :
    ∃ m, n ≤ m ∧ (run.state m).dispatcher.place = .closing := by
  by_cases closing : (run.state n).dispatcher.place = .closing
  · exact ⟨n, Nat.le_refl n, closing⟩
  · refine turns.dispatcher.wearsOut
      (fun k s => s.dispatcher.place ≠ .closing ∧ untilPoll s.dispatcher.place = k)
      (fun s => s.dispatcher.place = .closing) (fun m k _ here waits => ?_)
      (fun m k _ here => dispatcher_enabled here.1) (fun m k later here acts => ?_)
      ⟨closing, rfl⟩
    · rw [dispatcher_stays waits]
      exact here
    · obtain ⟨loops, rfl⟩ := here
      obtain ⟨event, happens, own⟩ := acts
      by_cases ends : (run.state (m + 1)).dispatcher.place = .closing
      · exact .inl ends
      · exact .inr ⟨_, (stops_nearer (stopped_stays stopped later) (run.moves m event happens)
          own).resolve_left ends, ends, rfl⟩

/-- After its loop the dispatcher stops the queue of each worker. -/
theorem TakesTurns.stops (turns : TakesTurns run)
    (closing : (run.state n).dispatcher.place = .closing) {worker : Nat}
    (inside : worker < setup.workers) : ∃ m, n ≤ m ∧ (run.state m).stopped = true ∧
      if worker < setup.plans.length then (run.state m).exits worker = true
      else (run.state m).hasherExit = true := by
  obtain ⟨m, later, here, event, happens, rfl⟩ := (turns.closing worker inside).acts
    (fun s => s.dispatcher.place = .closing)
    (fun m _ here _ => Machine.Endless.remains (fun s : System => s.dispatcher.place = .closing) here
      step_closing (Nat.le_succ m))
    (fun m _ here => enabled _ rfl (if_pos ⟨here, inside⟩)) closing
  refine ⟨m + 1, by omega, ?_⟩
  have taken := run.moves m _ happens
  rw [show setup.machine.step (run.state m) (.close worker) = _ from if_pos ⟨here, inside⟩,
    Option.some.injEq] at taken
  rw [← taken]
  unfold close
  split
  · exact ⟨rfl, Function.update_self ..⟩
  · exact ⟨rfl, rfl⟩

/-! ## The hasher -/

/-- How many accesses a hasher makes before it leaves, once the flag is set and its
queue is stopped. -/
def untilLeft : HasherPlace → Nat
  | .left => 0
  | .head => 1
  | .popping => 2
  | .hashing _ rest => rest.length + 2

/-- Each access brings the hasher nearer to its end. -/
private theorem leaves_nearer {s t : System} (stopped : s.stopped = true)
    (exit : s.hasherExit = true) (taken : s.step setup .hasher = some t) :
    untilLeft t.hasher < untilLeft s.hasher := by
  cases step_move taken with
  | hasherHead here => simp [here, stopped, untilLeft]
  | hasherExit here => simp [here, untilLeft]
  | hasherLeave here running => simp [exit] at running
  | hasherTake here running => simp [exit] at running
  | hasherPlot here => simp [here, untilLeft]
  | hasherDeliver here => simp [here, untilLeft]

/-- The hasher leaves. -/
theorem TakesTurns.hasherLeaves (turns : TakesTurns run) (stopped : (run.state n).stopped = true)
    (exit : (run.state n).hasherExit = true) : ∃ m, n ≤ m ∧ (run.state m).hasher = .left := by
  have exits : ∀ m, n ≤ m → (run.state m).hasherExit = true := fun m =>
    Machine.Endless.remains (fun s : System => s.hasherExit = true) exit step_hasherExit
  by_cases left : (run.state n).hasher = .left
  · exact ⟨n, Nat.le_refl n, left⟩
  · refine turns.hasher.wearsOut (fun k s => s.hasher ≠ .left ∧ untilLeft s.hasher = k)
      (fun s => s.hasher = .left) (fun m k _ here waits => ?_)
      (fun m k later here => hasher_enabled here.1 fun _ => .inl (exits m later))
      (fun m k later here acts => ?_) ⟨left, rfl⟩
    · rw [hasher_stays waits]
      exact here
    · obtain ⟨goesOn, rfl⟩ := here
      obtain ⟨event, happens, rfl⟩ := acts
      by_cases ends : (run.state (m + 1)).hasher = .left
      · exact .inl ends
      · exact .inr ⟨_, leaves_nearer (stopped_stays stopped later) (exits m later)
          (run.moves m _ happens), ends, rfl⟩

/-! ## The writers -/

/-- A writer leaves. -/
theorem TakesTurns.writerLeaves (turns : TakesTurns run) (inside : i < setup.plans.length)
    (stopped : (run.state n).stopped = true) (exit : (run.state n).exits i = true) :
    ∃ m, n ≤ m ∧ ((run.state m).threads i).program = .done .exited := by
  have exits : ∀ m, n ≤ m → (run.state m).exits i = true := fun m =>
    Machine.Endless.remains (fun s : System => s.exits i = true) exit step_exits
  -- a part of the program is run to its end, since nothing blocks any more
  have finishes : ∀ {k : Nat} {post : WriterControl → WriterState → Prop}
      {program : WriterProgram WriterControl} {state : WriterState}, n ≤ k →
      Stopping post program state → (run.state k).threads i = ⟨program, state⟩ →
      ∃ m, k ≤ m ∧ ∃ control final, (run.state m).threads i = ⟨.done control, final⟩ ∧
        post control final := by
    intro k post program state after stopping now
    obtain ⟨m, later, done | ⟨_, _, _, _, blocked⟩⟩ := turns.performs inside (fun _ => False)
      (fun m later _ => .inl (exits m (by omega)))
      (fun m _ _ _ later _ _ => stopped_stays stopped (by omega)) stopping now
    · exact ⟨m, later, done⟩
    · exact absurd blocked id
  have part : ∀ {k : Nat} (control : WriterControl) {state : WriterState}
      {post : WriterControl → WriterState → Prop}, n ≤ k → control ≠ .exited →
      Stopping post (writerBody (setup.bench.testBit 0) (setup.plan i) control) state →
      (run.state k).threads i = ⟨.done control, state⟩ →
      ∃ m, k ≤ m ∧ ∃ control final, (run.state m).threads i = ⟨.done control, final⟩ ∧
        post control final := by
    intro k control state post after goesOn stopping now
    obtain ⟨m, later, begun⟩ := turns.turn inside now goesOn
    obtain ⟨last, past, done⟩ := finishes (by omega) stopping begun
    exact ⟨last, by omega, done⟩
  have leaves : ∀ {k : Nat} {control : WriterControl} {state : WriterState}, n ≤ k →
      (∀ last task, control ≠ .attempt last task) →
      (run.state k).threads i = ⟨.done control, state⟩ →
      ∃ m, k ≤ m ∧ ((run.state m).threads i).program = .done .exited := by
    intro k control state after noAttempt now
    match control with
    | .exited => exact ⟨k, Nat.le_refl k, by rw [now]⟩
    | .attempt last task => exact absurd rfl (noAttempt last task)
    | .outer success last =>
        obtain ⟨m, later, _, _, done, rfl⟩ := part (.outer success last) after nofun
          (writerOuter_stopping _ _ success last state) now
        exact ⟨m, later, by rw [done]⟩
  obtain ⟨m, later, control, state, done, -⟩ :=
    finishes (Nat.le_refl n) (always_trivial _ _) (rfl : (run.state n).threads i = ⟨_, _⟩)
  match control with
  | .exited => exact ⟨m, later, by rw [done]⟩
  | .outer success last =>
      obtain ⟨k, past, left⟩ := leaves later (fun _ _ same => by cases same) done
      exact ⟨k, by omega, left⟩
  | .attempt last task =>
      obtain ⟨k, past, _, _, attempted, noAttempt⟩ := part (.attempt last task) later nofun
        (writerAttempt_stopping (setup.plan i) last task state) done
      obtain ⟨end', beyond, left⟩ := leaves (by omega) noAttempt attempted
      exact ⟨end', by omega, left⟩

/-- What has left stays away. -/
theorem step_exited {s t : System} {event : SystemEvent} (taken : s.step setup event = some t)
    (left : (s.threads i).program = .done .exited) : (t.threads i).program = .done .exited := by
  cases step_thread taken i with
  | away _ same => rwa [same]
  | turn own done =>
      subst own
      obtain ⟨inside, taken⟩ := Option.ite_none_right_eq_some.mp taken
      unfold write at taken
      simp [left] at taken
  | answer _ asks =>
      rw [left] at asks
      cases asks

/-- A hasher that has left stays away. -/
theorem step_left {s t : System} {event : SystemEvent} (taken : s.step setup event = some t)
    (left : s.hasher = .left) : t.hasher = .left := by
  cases step_move taken with
  | close =>
      unfold close
      split <;> exact left
  | hasherHead here => simp [left] at here
  | hasherExit here => simp [left] at here
  | hasherLeave => rfl
  | hasherTake here => simp [left] at here
  | hasherPlot here => simp [left] at here
  | hasherDeliver here => simp [left] at here
  | _ => exact left

/-- After a stop all threads leave in the end, and stay away. -/
theorem TakesTurns.shutsDown (turns : TakesTurns run) (stopped : (run.state n).stopped = true) :
    ∀ᶠ m in atTop, ShutDown setup (run.state m) := by
  obtain ⟨closed, after, closing⟩ := turns.closes stopped
  have dispatcher : ∀ᶠ m in atTop, (run.state m).dispatcher.place = .closing :=
    Machine.Endless.eventually_remains (fun s : System => s.dispatcher.place = .closing) closing
      step_closing
  have exits : ∀ i, i < setup.plans.length → ∀ᶠ m in atTop, (run.state m).exits i = true := by
    intro i inside
    have worker : i < setup.workers := Nat.lt_succ_of_lt inside
    obtain ⟨m, _, _, exit⟩ := turns.stops closing worker
    rw [if_pos inside] at exit
    exact Machine.Endless.eventually_remains (fun s : System => s.exits i = true) exit step_exits
  have hasherExit : ∀ᶠ m in atTop, (run.state m).hasherExit = true := by
    obtain ⟨m, _, _, exit⟩ := turns.stops closing (Nat.lt_succ_self setup.plans.length)
    rw [if_neg (Nat.lt_irrefl _)] at exit
    exact Machine.Endless.eventually_remains (fun s : System => s.hasherExit = true) exit
      step_hasherExit
  have flag : ∀ᶠ m in atTop, (run.state m).stopped = true :=
    eventually_atTop.mpr ⟨n, fun _ => stopped_stays stopped⟩
  have hasher : ∀ᶠ m in atTop, (run.state m).hasher = .left := by
    obtain ⟨m, stop, exit⟩ := (flag.and hasherExit).exists
    obtain ⟨k, _, left⟩ := turns.hasherLeaves stop exit
    exact Machine.Endless.eventually_remains (fun s : System => s.hasher = .left) left step_left
  have writers : ∀ i, i < setup.plans.length →
      ∀ᶠ m in atTop, ((run.state m).threads i).program = .done .exited := by
    intro i inside
    obtain ⟨m, stop, exit⟩ := (flag.and (exits i inside)).exists
    obtain ⟨k, _, left⟩ := turns.writerLeaves inside stop exit
    exact Machine.Endless.eventually_remains
      (fun s : System => (s.threads i).program = .done .exited) left step_exited
  have allExits := (eventually_all_finite (Set.finite_lt_nat setup.plans.length)).mpr exits
  have allWriters := (eventually_all_finite (Set.finite_lt_nat setup.plans.length)).mpr writers
  filter_upwards [dispatcher, allExits, hasherExit, hasher, allWriters] with m place exit hasherExit
    left done using ⟨place, exit, hasherExit, left, done⟩

end System

end HyperPlotter.Pipeline

import HyperPlotter.Foundation.Fairness
import HyperPlotter.Pipeline.Rounds

/-!
# The threads in an endless run

Each thread gets its turns. While it does not act its own part of the state stays,
and what it can do stays possible.
-/

namespace HyperPlotter.Pipeline

open Foundation Poc Interaction Filter

/-- An event of the dispatcher in its loop. -/
def SystemEvent.Dispatching : SystemEvent → Prop
  | .poll | .receive _ | .dispatch .. => True
  | _ => False

/-- An event of writer `i`. -/
def SystemEvent.Writing (i : Nat) (event : SystemEvent) : Prop := ∃ outcome, event = .writer i outcome

namespace System

variable {setup : PlotterSetup}

/-- No thread is left out forever: the dispatcher in its loop, each `stop` after it,
the hasher and the writers. A thread in a `pop` goes on once its queue has a task or
is stopped, so no wake-up of `stop` is lost. -/
structure TakesTurns (run : setup.machine.Endless) : Prop where
  dispatcher : run.Fair SystemEvent.Dispatching
  closing : ∀ worker, worker < setup.workers → run.Fair (· = .close worker)
  hasher : run.Fair (· = .hasher)
  writers : ∀ i, i < setup.plans.length → run.Fair (SystemEvent.Writing i)

variable {run : setup.machine.Endless} {s t : System} {n i : Nat}

/-! ## What stays -/

/-- A set stop flag stays set. -/
theorem stopped_stays (stopped : (run.state n).stopped = true) {m : Nat} (later : n ≤ m) :
    (run.state m).stopped = true :=
  Machine.Endless.remains (fun s : System => s.stopped = true) stopped step_stopped later

/-- A stopped queue stays stopped. -/
theorem step_exits {event : SystemEvent} (taken : s.step setup event = some t)
    (exits : s.exits i = true) : t.exits i = true := by
  cases step_move taken with
  | @close worker =>
      unfold close
      split
      · by_cases same : i = worker
        · simp [same]
        · simpa [Function.update_of_ne same] using exits
      · exact exits
  | _ => exact exits

/-- The exit flag of the hasher stays set. -/
theorem step_hasherExit {event : SystemEvent} (taken : s.step setup event = some t)
    (exits : s.hasherExit = true) : t.hasherExit = true := by
  cases step_move taken with
  | close =>
      unfold close
      split
      · exact exits
      · rfl
  | _ => exact exits

/-- After its loop the dispatcher stays there. -/
theorem step_closing {event : SystemEvent} (taken : s.step setup event = some t)
    (closing : s.dispatcher.place = .closing) : t.dispatcher.place = .closing := by
  cases step_move taken with
  | close =>
      unfold close
      split <;> exact closing
  | poll place => simp [closing] at place
  | timeout place => simp [closing] at place
  | receive place => simp [closing] at place
  | dispatch place => simp [closing] at place
  | _ => exact closing

/-- The other threads leave the dispatcher alone. -/
theorem step_dispatcher {event : SystemEvent} (taken : s.step setup event = some t)
    (elsewhere : ¬event.Dispatching) : t.dispatcher = s.dispatcher := by
  cases step_move taken with
  | close =>
      unfold close
      split <;> rfl
  | poll => exact absurd trivial elsewhere
  | timeout => exact absurd trivial elsewhere
  | receive => exact absurd trivial elsewhere
  | dispatch => exact absurd trivial elsewhere
  | _ => rfl

/-- The other threads leave the hasher alone. -/
theorem step_hasher {event : SystemEvent} (taken : s.step setup event = some t)
    (elsewhere : event ≠ .hasher) : t.hasher = s.hasher := by
  cases step_move taken with
  | close =>
      unfold close
      split <;> rfl
  | hasherHead => exact absurd rfl elsewhere
  | hasherExit => exact absurd rfl elsewhere
  | hasherLeave => exact absurd rfl elsewhere
  | hasherTake => exact absurd rfl elsewhere
  | hasherPlot => exact absurd rfl elsewhere
  | hasherDeliver => exact absurd rfl elsewhere
  | _ => rfl

/-- The dispatcher stays where it is while it does not act. -/
theorem dispatcher_stays (waits : ¬run.Acts SystemEvent.Dispatching n) :
    (run.state (n + 1)).dispatcher = (run.state n).dispatcher := by
  cases happens : run.event n with
  | none => rw [run.rests n happens]
  | some event =>
      exact step_dispatcher (run.moves n event happens) fun mine => waits ⟨event, happens, mine⟩

/-- The hasher stays where it is while it does not act. -/
theorem hasher_stays (waits : ¬run.Acts (· = .hasher) n) :
    (run.state (n + 1)).hasher = (run.state n).hasher := by
  cases happens : run.event n with
  | none => rw [run.rests n happens]
  | some event =>
      exact step_hasher (run.moves n event happens) fun mine => waits ⟨event, happens, mine⟩

/-- A writer stays where it is while it does not act. -/
theorem thread_stays (waits : ¬run.Acts (SystemEvent.Writing i) n) :
    (run.state (n + 1)).threads i = (run.state n).threads i := by
  cases happens : run.event n with
  | none => rw [run.rests n happens]
  | some event =>
      cases step_thread (run.moves n event happens) i with
      | away _ same => exact same
      | turn own => exact absurd ⟨event, happens, _, own⟩ waits
      | answer own => exact absurd ⟨event, happens, _, own⟩ waits

/-! ## What can happen -/

/-- An event that can be taken makes its thread enabled. -/
theorem enabled {mine : SystemEvent → Prop} (event : SystemEvent) (own : mine event)
    (taken : s.step setup event = some t) : setup.machine.Enabled mine s :=
  ⟨event, own, Option.isSome_iff_exists.mpr ⟨t, taken⟩⟩

/-- The dispatcher can always go on in its loop. -/
theorem dispatcher_enabled (loops : s.dispatcher.place ≠ .closing) :
    setup.machine.Enabled SystemEvent.Dispatching s := by
  cases place : s.dispatcher.place with
  | head => exact enabled .poll trivial (if_pos place)
  | reports => exact enabled (.receive true) trivial (if_pos place)
  | deciding =>
      exact enabled (.dispatch 0 (fun _ => 0) ⟨0, 0, none⟩) trivial (if_pos ⟨place, nofun⟩)
  | closing => exact absurd place loops

/-- The hasher can go on unless it waits for a task. -/
theorem hasher_enabled (goesOn : s.hasher ≠ .left)
    (served : s.hasher = .popping → s.hasherExit = true ∨ s.hasherQueue ≠ []) :
    setup.machine.Enabled (· = .hasher) s := by
  have access : ∃ t, s.step setup .hasher = some t := by
    show ∃ t, s.hash setup = some t
    unfold hash
    cases here : s.hasher with
    | head => exact ⟨_, rfl⟩
    | popping =>
        cases exit : s.hasherExit with
        | true => exact ⟨_, rfl⟩
        | false =>
            cases queued : s.hasherQueue with
            | nil => simp [here, exit, queued] at served
            | cons task rest =>
                by_cases last : task.currentWriteTask = -1
                · exact ⟨_, if_pos last⟩
                · exact ⟨_, if_neg last⟩
    | hashing task chunks =>
        cases chunks with
        | nil => exact ⟨_, rfl⟩
        | cons => exact ⟨_, rfl⟩
    | left => exact absurd here goesOn
  obtain ⟨t, taken⟩ := access
  exact enabled .hasher rfl taken

/-- A writer can go on unless it waits for a task. -/
theorem writer_enabled (inside : i < setup.plans.length)
    (goesOn : (s.threads i).program ≠ .done .exited)
    (served : ∀ next, (s.threads i).program = .ask .pop next →
      s.exits i = true ∨ s.queues i ≠ []) :
    setup.machine.Enabled (SystemEvent.Writing i) s := by
  have access : ∃ t, s.write setup i smoothly = some t := by
    cases running : (s.threads i).program with
    | done control => exact ⟨_, write_done smoothly running (by rintro rfl; exact goesOn running)⟩
    | ask request next =>
        by_cases quiet : request.Quiet
        · exact ⟨_, write_quiet smoothly running quiet⟩
        · cases request with
          | report => exact ⟨_, write_report smoothly running⟩
          | pop =>
              cases exits : s.exits i with
              | true =>
                  unfold write
                  rw [running]
                  exact ⟨_, if_pos exits⟩
              | false =>
                  have queued := (served next running).resolve_left (by simp [exits])
                  obtain ⟨task, rest, queue⟩ := List.exists_cons_of_ne_nil queued
                  exact ⟨_, write_pop smoothly running exits queue⟩
          | _ => simp [WriterRequest.Quiet] at quiet
  obtain ⟨t, taken⟩ := access
  have moved : s.step setup (.writer i smoothly) = some t := (if_pos inside).trans taken
  exact enabled _ ⟨smoothly, rfl⟩ moved

/-! ## A writer's program -/

/-- A writer between two parts of its program begins the next one. -/
theorem TakesTurns.turn (turns : TakesTurns run) (inside : i < setup.plans.length)
    {control : WriterControl} {state : WriterState}
    (now : (run.state n).threads i = ⟨.done control, state⟩) (goesOn : control ≠ .exited) :
    ∃ m, n ≤ m ∧ (run.state m).threads i =
      ⟨writerBody (setup.bench.testBit 0) (setup.plan i) control, state⟩ := by
  obtain ⟨m, later, here, event, happens, _, rfl⟩ := (turns.writers i inside).acts
    (fun s => s.threads i = ⟨.done control, state⟩)
    (fun m _ here waits => (thread_stays waits).trans here)
    (fun m _ here => writer_enabled inside (by rw [here]; simpa using goesOn)
      (by rw [here]; nofun)) now
  refine ⟨m + 1, by omega, ?_⟩
  cases step_thread (run.moves m _ happens) i with
  | away elsewhere => exact absurd rfl (elsewhere _)
  | turn _ done turned =>
      rw [here] at done turned
      obtain rfl := Interaction.done.inj done
      exact turned
  | answer _ asks =>
      rw [here] at asks
      cases asks

/-- A writer runs a part of its program to the end, or waits for a task. -/
theorem TakesTurns.performs (turns : TakesTurns run) (inside : i < setup.plans.length)
    {allowed : WriterState → WriterRequest → Choice → Prop}
    {check : WriterState → WriterRequest → Prop} (blocks : WriterRequest → Prop)
    (served : ∀ m, n ≤ m → ¬blocks .pop →
      (run.state m).exits i = true ∨ (run.state m).queues i ≠ [])
    (permitted : ∀ m outcome request state, n ≤ m → run.event m = some (.writer i outcome) →
      ¬blocks request → allowed state request ((run.state m).choice i outcome))
    {post : WriterControl → WriterState → Prop} {program : WriterProgram WriterControl}
    {state : WriterState}
    (always : Always WriterState.respond allowed check post program state)
    (now : (run.state n).threads i = ⟨program, state⟩) :
    ∃ m, n ≤ m ∧ ((∃ control final, (run.state m).threads i = ⟨.done control, final⟩ ∧
        post control final) ∨
      ∃ request next final, (run.state m).threads i = ⟨.ask request next, final⟩ ∧
        blocks request) := by
  have same : ∀ {s : System} {program : WriterProgram WriterControl} {state : WriterState},
      ((s.threads i).program, (s.threads i).state) = (program, state) ↔
        s.threads i = ⟨program, state⟩ := by
    intro s program state
    rw [WriterThread.mk.injEq, Prod.mk.injEq]
  have performed := (turns.writers i inside).performs
    (fun s => ((s.threads i).program, (s.threads i).state)) blocks
    (fun m _ waits => by rw [thread_stays waits])
    (fun m request next state later here free => ?_)
    (fun m request next state later here free acts => ?_) always (same.mpr now)
  · simpa only [same] using performed
  · rw [same] at here
    refine writer_enabled inside (by rw [here]; nofun) fun next asks => ?_
    rw [here] at asks
    cases asks
    exact served m later free
  · rw [same] at here
    obtain ⟨event, happens, outcome, rfl⟩ := acts
    refine ⟨_, permitted m outcome request state later happens free, ?_⟩
    cases step_thread (run.moves m _ happens) i with
    | away elsewhere => exact absurd rfl (elsewhere _)
    | turn _ done =>
        rw [here] at done
        cases done
    | answer own asks answered =>
        cases own
        rw [here] at asks answered
        cases asks
        rw [answered]
        rfl

end System

end HyperPlotter.Pipeline

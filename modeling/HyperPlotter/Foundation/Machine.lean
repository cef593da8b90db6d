/-!
# Machines and their runs

A machine takes events. In a state an event leads to one next state or cannot
happen. `Reaches` is what its runs lead to when every step meets a guard, and
`Reaches.invariant` is the rule for what holds in all of it.
-/

namespace HyperPlotter.Foundation

/-- Start states and the effect of every event. -/
structure Machine (State Event : Type) where
  Start : State → Prop
  step : State → Event → Option State

namespace Machine

variable {State Event : Type} (machine : Machine State Event) (guard : State → Event → Prop)

/-- The states that runs lead to whose steps all meet the guard. -/
inductive Reaches : State → Prop where
  | start {state : State} (starts : machine.Start state) : Reaches state
  | step {state next : State} {event : Event} (run : Reaches state) (meets : guard state event)
      (taken : machine.step state event = some next) : Reaches next

/-- The states of all runs. -/
abbrev Reachable : State → Prop := machine.Reaches fun _ _ => True

/-- A series of events, as far as they can happen. -/
def run (state : State) (events : List Event) : Option State := events.foldlM machine.step state

/-- A series of events, as far as they can happen and meet the guard. -/
def runMeeting [∀ state event, Decidable (guard state event)] (state : State)
    (events : List Event) : Option State :=
  events.foldlM (fun state event => if guard state event then machine.step state event else none)
    state

/-- What an observer notes down along a series of events. -/
def observed {Note : Type} (note : State → Event → List Note) : State → List Event → List Note
  | _, [] => []
  | state, event :: rest =>
    match machine.step state event with
    | none => []
    | some next => note state event ++ observed note next rest

variable {machine guard}

/-- What holds at the start and is kept by every step holds in every state
reached. A step may use that its state is reached. -/
theorem Reaches.invariant (Holds : State → Prop)
    (start : ∀ {state}, machine.Start state → Holds state)
    (keeps : ∀ {state event next}, machine.Reaches guard state → Holds state →
      guard state event → machine.step state event = some next → Holds next)
    {state : State} (run : machine.Reaches guard state) : Holds state := by
  induction run with
  | start starts => exact start starts
  | step run meets taken ih => exact keeps run ih meets taken

/-- A weaker guard admits more runs. -/
theorem Reaches.mono {weaker : State → Event → Prop} {state : State}
    (run : machine.Reaches guard state)
    (weaken : ∀ state event, guard state event → weaker state event) :
    machine.Reaches weaker state := by
  induction run with
  | start starts => exact .start starts
  | step _ meets taken ih => exact .step ih (weaken _ _ meets) taken

/-- A series of events that meet the guard extends a run that does. -/
theorem Reaches.runMeeting [∀ state event, Decidable (guard state event)] {state final : State}
    (reached : machine.Reaches guard state) (events : List Event)
    (runs : machine.runMeeting guard state events = some final) : machine.Reaches guard final := by
  induction events generalizing state with
  | nil =>
      obtain rfl : state = final := Option.some.inj runs
      exact reached
  | cons event rest ih =>
      rw [Machine.runMeeting, List.foldlM_cons] at runs
      obtain ⟨next, taken, later⟩ := Option.bind_eq_some_iff.mp runs
      obtain ⟨meets, taken⟩ := Option.ite_none_right_eq_some.mp taken
      exact ih (.step reached meets taken) later

/-- A series of events extends a run. -/
theorem Reaches.run {state final : State} (reached : machine.Reachable state) (events : List Event)
    (runs : machine.run state events = some final) : machine.Reachable final := by
  induction events generalizing state with
  | nil =>
      obtain rfl : state = final := Option.some.inj runs
      exact reached
  | cons event rest ih =>
      rw [Machine.run, List.foldlM_cons] at runs
      cases taken : machine.step state event with
      | none =>
          rw [taken] at runs
          cases runs
      | some next =>
          rw [taken] at runs
          exact ih (.step reached trivial taken) runs

/-- What is reached is reached by a series of events. -/
theorem Reaches.exists_run {final : State} (reached : machine.Reachable final) :
    ∃ start events, machine.Start start ∧ machine.run start events = some final := by
  induction reached with
  | start starts => exact ⟨_, [], starts, rfl⟩
  | @step state next event _ _ taken ih =>
      obtain ⟨start, events, starts, runs⟩ := ih
      refine ⟨start, events ++ [event], starts, ?_⟩
      rw [Machine.run, List.foldlM_append]
      exact Option.bind_eq_some_iff.mpr ⟨state, runs, Option.bind_eq_some_iff.mpr ⟨next, taken, rfl⟩⟩

/-- A part of the state that grows by what is noted is the whole of it. -/
theorem Reaches.observed {Note : Type} {note : State → Event → List Note}
    (history : State → List Note) (grows : ∀ {state event next}, machine.Reachable state →
      machine.step state event = some next → history next = history state ++ note state event)
    {state final : State} (reached : machine.Reachable state) (events : List Event)
    (runs : machine.run state events = some final) :
    history final = history state ++ machine.observed note state events := by
  induction events generalizing state with
  | nil =>
      obtain rfl : state = final := Option.some.inj runs
      rw [Machine.observed, List.append_nil]
  | cons event rest ih =>
      rw [Machine.run, List.foldlM_cons] at runs
      obtain ⟨next, taken, later⟩ := Option.bind_eq_some_iff.mp runs
      have known : machine.step state event = some next := taken
      rw [ih (.step reached trivial known) later, grows reached known, Machine.observed, known,
        List.append_assoc]

/-- The machine with one start. -/
def startingAt (machine : Machine State Event) (start : State) : Machine State Event where
  Start state := state = start
  step := machine.step

/-- A run from a start state is a run. -/
theorem Reaches.ofStartingAt {start state : State} (starts : machine.Start start)
    (run : (machine.startingAt start).Reaches guard state) : machine.Reaches guard state := by
  induction run with
  | start same =>
      obtain rfl := same
      exact .start starts
  | step _ meets taken ih => exact .step ih meets taken

/-- A series of events in two parts. -/
theorem run_append {state final : State} {first second : List Event}
    (runs : machine.run state (first ++ second) = some final) :
    ∃ middle, machine.run state first = some middle ∧ machine.run middle second = some final := by
  rw [Machine.run, List.foldlM_append] at runs
  exact Option.bind_eq_some_iff.mp runs

end Machine

end HyperPlotter.Foundation

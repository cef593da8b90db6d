import HyperPlotter.Foundation.Machine

/-!
# One machine behind another

A concrete machine is seen as an abstract one through a function on its states. Every
concrete step is a series of abstract steps, possibly none, with the same notes. An
observer of the notes then sees nothing of the concrete machine that the abstract one
does not show as well.
-/

namespace HyperPlotter.Foundation.Machine

variable {State Event Seen Move Note : Type}

section Runs

variable {machine : Machine State Event}

/-- Two series of events one after the other. -/
theorem run_trans {state middle final : State} {first second : List Event}
    (one : machine.run state first = some middle) (two : machine.run middle second = some final) :
    machine.run state (first ++ second) = some final := by
  rw [Machine.run, List.foldlM_append]
  exact Option.bind_eq_some_iff.mpr ⟨middle, one, two⟩

/-- The first event of a series, and the rest. -/
theorem observed_cons (note : State → Event → List Note) {state final : State} {event : Event}
    {rest : List Event} (runs : machine.run state (event :: rest) = some final) :
    ∃ next, machine.step state event = some next ∧ machine.run next rest = some final ∧
      machine.observed note state (event :: rest) =
        note state event ++ machine.observed note next rest := by
  rw [Machine.run, List.foldlM_cons] at runs
  obtain ⟨next, taken, later⟩ := Option.bind_eq_some_iff.mp runs
  have known : machine.step state event = some next := taken
  exact ⟨next, known, later, by rw [Machine.observed, known]⟩

/-- The notes on two series of events one after the other. -/
theorem observed_append {note : State → Event → List Note} {state middle : State}
    {first second : List Event} (one : machine.run state first = some middle) :
    machine.observed note state (first ++ second) =
      machine.observed note state first ++ machine.observed note middle second := by
  induction first generalizing state with
  | nil =>
      obtain rfl : state = middle := Option.some.inj one
      rfl
  | cons event rest ih =>
      obtain ⟨next, taken, later, _⟩ := observed_cons note one
      simp only [List.cons_append, Machine.observed, taken, List.append_assoc, ih later]

end Runs

/-- A view of the concrete machine as the abstract one, and the abstract steps that each
concrete step is. -/
structure Simulation (concrete : Machine State Event) (abstract : Machine Seen Move)
    (note : State → Event → List Note) (noteSeen : Seen → Move → List Note) where
  view : State → Seen
  follow : State → Event → List Move
  starts : ∀ {state}, concrete.Start state → abstract.Start (view state)
  follows : ∀ {state event next}, concrete.Reachable state →
    concrete.step state event = some next →
      abstract.run (view state) (follow state event) = some (view next)
  notes : ∀ {state event next}, concrete.Reachable state →
    concrete.step state event = some next →
      abstract.observed noteSeen (view state) (follow state event) = note state event

namespace Simulation

variable {concrete : Machine State Event} {abstract : Machine Seen Move}
  {note : State → Event → List Note} {noteSeen : Seen → Move → List Note}

/-- Every series of concrete events is a series of abstract ones with the same notes. -/
theorem exists_run (simulation : Simulation concrete abstract note noteSeen)
    {state final : State} (reached : concrete.Reachable state) (events : List Event)
    (runs : concrete.run state events = some final) :
    ∃ moves, abstract.run (simulation.view state) moves = some (simulation.view final) ∧
      abstract.observed noteSeen (simulation.view state) moves =
        concrete.observed note state events := by
  induction events generalizing state with
  | nil =>
      obtain rfl : state = final := Option.some.inj runs
      exact ⟨[], rfl, rfl⟩
  | cons event rest ih =>
      obtain ⟨next, taken, later, notes⟩ := observed_cons note runs
      obtain ⟨moves, ends, same⟩ := ih (.step reached trivial taken) later
      have here := simulation.follows reached taken
      refine ⟨simulation.follow state event ++ moves, run_trans here ends, ?_⟩
      rw [observed_append here, simulation.notes reached taken, same, notes]

end Simulation

end HyperPlotter.Foundation.Machine

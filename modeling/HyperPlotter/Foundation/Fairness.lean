import Mathlib.Order.Filter.AtTopBot.Basic
import Mathlib.Order.Filter.Finite
import HyperPlotter.Foundation.Interaction
import HyperPlotter.Foundation.Machine

/-!
# Endless runs

An endless run has a state at every moment; at some moments nothing happens.
`Fair` says that a thread does not wait forever while one of its events can
happen. `Fair.acts` is the rule for one step of a thread, `Fair.wearsOut` the
rule for a bounded series of them, and `Fair.performs` the rule for a thread that
runs a program.
-/

namespace HyperPlotter.Foundation

open Filter

variable {State Event : Type}

namespace Machine

/-- A run without an end. At a moment without an event the state stays. -/
structure Endless (machine : Machine State Event) where
  state : Nat → State
  event : Nat → Option Event
  starts : machine.Start (state 0)
  moves : ∀ n happens, event n = some happens →
    machine.step (state n) happens = some (state (n + 1))
  rests : ∀ n, event n = none → state (n + 1) = state n

/-- One of the events can happen. -/
def Enabled (machine : Machine State Event) (mine : Event → Prop) (state : State) : Prop :=
  ∃ event, mine event ∧ (machine.step state event).isSome

namespace Endless

variable {machine : Machine State Event} (run : machine.Endless) {mine : Event → Prop}

/-- One of the events happens at this moment. -/
def Acts (mine : Event → Prop) (n : Nat) : Prop := ∃ event, run.event n = some event ∧ mine event

/-- What can happen from some moment on happens. -/
def Fair (mine : Event → Prop) : Prop :=
  ∀ n, (∀ m, n ≤ m → machine.Enabled mine (run.state m)) → ∃ m, n ≤ m ∧ run.Acts mine m

variable {run}

/-- Every state is reached from the first, under any guard the events meet. -/
theorem reaches_startingAt {guard : State → Event → Prop} {n : Nat}
    (meets : ∀ m, m < n → ∀ event, run.event m = some event → guard (run.state m) event) :
    (machine.startingAt (run.state 0)).Reaches guard (run.state n) := by
  induction n with
  | zero => exact .start rfl
  | succ n ih =>
      have before := ih fun m earlier => meets m (Nat.lt_succ_of_lt earlier)
      cases happens : run.event n with
      | none =>
          rw [run.rests n happens]
          exact before
      | some event =>
          exact .step before (meets n (Nat.lt_succ_self n) event happens)
            (run.moves n event happens)

/-- Every state is reached, under any guard the events meet. -/
theorem reaches {guard : State → Event → Prop} {n : Nat}
    (meets : ∀ m, m < n → ∀ event, run.event m = some event → guard (run.state m) event) :
    machine.Reaches guard (run.state n) :=
  (reaches_startingAt meets).ofStartingAt run.starts

/-- Every state of a run is reachable. -/
theorem reachable (run : machine.Endless) (n : Nat) : machine.Reachable (run.state n) :=
  reaches fun _ _ _ _ => trivial

/-- What no moment takes away holds from then on. -/
theorem keeps (holds : State → Prop) {n : Nat} (now : holds (run.state n))
    (kept : ∀ m, n ≤ m → holds (run.state m) → holds (run.state (m + 1))) {m : Nat}
    (later : n ≤ m) : holds (run.state m) := by
  induction later with
  | refl => exact now
  | step later ih => exact kept _ later ih

/-- What every step keeps holds from then on. -/
theorem remains (holds : State → Prop) {n : Nat} (now : holds (run.state n))
    (kept : ∀ {state event next}, machine.step state event = some next → holds state → holds next)
    {m : Nat} (later : n ≤ m) : holds (run.state m) := by
  refine keeps holds now (fun k _ here => ?_) later
  cases happens : run.event k with
  | none =>
      rw [run.rests k happens]
      exact here
  | some event => exact kept (run.moves k event happens) here

/-- What every step keeps holds from some state on. -/
theorem eventually_remains (holds : State → Prop) {n : Nat} (now : holds (run.state n))
    (kept : ∀ {state event next}, machine.step state event = some next → holds state → holds next) :
    ∀ᶠ m in atTop, holds (run.state m) :=
  eventually_atTop.mpr ⟨n, fun _ later => remains holds now kept later⟩

/-- What becomes true becomes so by an event. -/
theorem exists_event (holds : State → Prop) {n : Nat} (before : ¬holds (run.state 0))
    (after : holds (run.state n)) : ∃ m event, m < n ∧ run.event m = some event ∧
      ¬holds (run.state m) ∧ holds (run.state (m + 1)) := by
  induction n with
  | zero => exact absurd after before
  | succ n ih =>
      by_cases here : holds (run.state n)
      · obtain ⟨m, event, earlier, becomes⟩ := ih here
        exact ⟨m, event, Nat.lt_succ_of_lt earlier, becomes⟩
      · cases happens : run.event n with
        | none => exact absurd (run.rests n happens ▸ after) here
        | some event => exact ⟨n, event, Nat.lt_succ_self n, happens, here, after⟩

/-- The states up to some moment are those of a series of events. -/
theorem exists_events (run : machine.Endless) (n : Nat) :
    ∃ events, machine.run (run.state 0) events = some (run.state n) := by
  induction n with
  | zero => exact ⟨[], rfl⟩
  | succ n ih =>
      obtain ⟨events, runs⟩ := ih
      cases happens : run.event n with
      | none => exact ⟨events, (run.rests n happens).symm ▸ runs⟩
      | some event =>
          refine ⟨events ++ [event], ?_⟩
          rw [Machine.run, List.foldlM_append]
          exact Option.bind_eq_some_iff.mpr ⟨_, runs,
            Option.bind_eq_some_iff.mpr ⟨_, run.moves n event happens, rfl⟩⟩

/-- A rank that never rises stays the same in the end. -/
theorem settles (run : machine.Endless) (rank : State → Nat) {n : Nat}
    (falls : ∀ m, n ≤ m → rank (run.state (m + 1)) ≤ rank (run.state m)) :
    ∃ N, n ≤ N ∧ ∀ m, N ≤ m → rank (run.state (m + 1)) = rank (run.state m) := by
  induction least : rank (run.state n) using Nat.strongRecOn generalizing n with
  | ind value ih =>
      subst least
      by_cases settled : ∀ m, n ≤ m → rank (run.state (m + 1)) = rank (run.state m)
      · exact ⟨n, Nat.le_refl n, settled⟩
      · simp only [not_forall] at settled
        obtain ⟨m, later, differs⟩ := settled
        have before : rank (run.state m) ≤ rank (run.state n) :=
          keeps (fun s => rank s ≤ rank (run.state n)) (Nat.le_refl _)
            (fun k after ih => Nat.le_trans (falls k after) ih) later
        have less : rank (run.state (m + 1)) < rank (run.state n) :=
          Nat.lt_of_lt_of_le (Nat.lt_of_le_of_ne (falls m later) differs) before
        obtain ⟨N, past, settled⟩ := ih _ less
          (fun k after => falls k (by omega)) rfl
        exact ⟨N, by omega, settled⟩

/-- A thread that can act and is left alone until it does acts. -/
theorem Fair.acts (fair : run.Fair mine) (here : State → Prop) {n : Nat}
    (stays : ∀ m, n ≤ m → here (run.state m) → ¬run.Acts mine m → here (run.state (m + 1)))
    (ready : ∀ m, n ≤ m → here (run.state m) → machine.Enabled mine (run.state m))
    (now : here (run.state n)) : ∃ m, n ≤ m ∧ here (run.state m) ∧ run.Acts mine m := by
  by_contra never
  have waits : ∀ m, n ≤ m → here (run.state m) := fun m =>
    keeps here now fun k later here => stays k later here fun acts => never ⟨k, later, here, acts⟩
  obtain ⟨m, later, acts⟩ := fair n fun m later => ready m later (waits m later)
  exact never ⟨m, later, waits m later, acts⟩

/-- A thread whose every act brings it nearer to a goal gets there. -/
theorem Fair.wearsOut (fair : run.Fair mine) (bound : Nat → State → Prop) (goal : State → Prop)
    {n : Nat}
    (stays : ∀ m k, n ≤ m → bound k (run.state m) → ¬run.Acts mine m →
      bound k (run.state (m + 1)))
    (ready : ∀ m k, n ≤ m → bound k (run.state m) → machine.Enabled mine (run.state m))
    (nearer : ∀ m k, n ≤ m → bound k (run.state m) → run.Acts mine m →
      goal (run.state (m + 1)) ∨ ∃ j, j < k ∧ bound j (run.state (m + 1)))
    {k : Nat} (now : bound k (run.state n)) : ∃ m, n ≤ m ∧ goal (run.state m) := by
  induction k using Nat.strongRecOn generalizing n with
  | ind k ih =>
      obtain ⟨m, later, here, acts⟩ := fair.acts (bound k) (fun m => stays m k)
        (fun m => ready m k) now
      rcases nearer m k later here acts with reached | ⟨j, less, next⟩
      · exact ⟨m + 1, by omega, reached⟩
      · obtain ⟨last, past, reached⟩ := ih j less (fun m k after => stays m k (by omega))
          (fun m k after => ready m k (by omega)) (fun m k after => nearer m k (by omega)) next
        exact ⟨last, by omega, reached⟩

/-- A thread whose every act uses up a bound does not keep to it. -/
theorem Fair.expires (fair : run.Fair mine) (bound : Nat → State → Prop) {n : Nat}
    (stays : ∀ m k, n ≤ m → bound k (run.state m) → ¬run.Acts mine m →
      bound k (run.state (m + 1)))
    (ready : ∀ m k, n ≤ m → bound k (run.state m) → machine.Enabled mine (run.state m))
    (nearer : ∀ m k, n ≤ m → bound k (run.state m) → run.Acts mine m →
      ∃ j, j < k ∧ bound j (run.state (m + 1))) (k : Nat) : ¬bound k (run.state n) := by
  intro now
  obtain ⟨_, _, reached⟩ := fair.wearsOut bound (fun _ => False) stays ready
    (fun m k later here acts => .inr (nearer m k later here acts)) now
  exact reached

section Programs

variable {Request : Type} {Reply : Request → Type} {α Local Choice : Type}
  {respond : Choice → Local → (request : Request) → Reply request × Local}
  {allowed : Local → Request → Choice → Prop} {check : Local → Request → Prop}

/-- A thread that runs a program comes to its end or to a request that blocks. -/
theorem Fair.performs (fair : run.Fair mine)
    (thread : State → Interaction Request Reply α × Local) (blocks : Request → Prop) {n : Nat}
    (stays : ∀ m, n ≤ m → ¬run.Acts mine m → thread (run.state (m + 1)) = thread (run.state m))
    (ready : ∀ m request next state, n ≤ m → thread (run.state m) = (.ask request next, state) →
      ¬blocks request → machine.Enabled mine (run.state m))
    (answers : ∀ m request next state, n ≤ m →
      thread (run.state m) = (.ask request next, state) → ¬blocks request → run.Acts mine m →
      ∃ choice, allowed state request choice ∧ thread (run.state (m + 1)) =
        (next (respond choice state request).1, (respond choice state request).2))
    {post : α → Local → Prop} {program : Interaction Request Reply α} {state : Local}
    (always : Interaction.Always respond allowed check post program state)
    (now : thread (run.state n) = (program, state)) :
    ∃ m, n ≤ m ∧ ((∃ result final, thread (run.state m) = (.done result, final) ∧
        post result final) ∨
      ∃ request next final, thread (run.state m) = (.ask request next, final) ∧ blocks request) := by
  induction program generalizing state n with
  | done result => exact ⟨n, Nat.le_refl n, .inl ⟨result, state, now, always⟩⟩
  | ask request next ih =>
      by_cases blocking : blocks request
      · exact ⟨n, Nat.le_refl n, .inr ⟨request, next, state, now, blocking⟩⟩
      · obtain ⟨m, later, here, acts⟩ := fair.acts
          (fun s => thread s = (.ask request next, state))
          (fun m later here waits => (stays m later waits).trans here)
          (fun m later here => ready m request next state later here blocking) now
        obtain ⟨choice, permitted, moved⟩ := answers m request next state later here blocking acts
        obtain ⟨last, past, reached⟩ := ih _ (fun k after => stays k (by omega))
          (fun k request next state after => ready k request next state (by omega))
          (fun k request next state after => answers k request next state (by omega))
          (always.2 choice permitted) moved
        exact ⟨last, by omega, reached⟩

end Programs

/-! ### A scheduler -/

section Scheduled

variable (machine) (choose : Nat → State → Event)

/-- The states when at each moment the chosen event happens, if it can. -/
def scheduled (start : State) : Nat → State
  | 0 => start
  | n + 1 => (machine.step (scheduled start n) (choose n (scheduled start n))).getD
      (scheduled start n)

/-- The run of a scheduler. -/
def ofSchedule (start : State) (starts : machine.Start start) : machine.Endless where
  state := scheduled machine choose start
  event n :=
    if (machine.step (scheduled machine choose start n)
      (choose n (scheduled machine choose start n))).isSome
    then some (choose n (scheduled machine choose start n)) else none
  starts := starts
  moves n event happens := by
    obtain ⟨can, same⟩ := Option.ite_none_right_eq_some.mp happens
    obtain rfl := Option.some.inj same
    obtain ⟨next, taken⟩ := Option.isSome_iff_exists.mp can
    simp [scheduled, taken]
  rests n nothing := by
    have cannot := (ite_eq_right_iff.mp nothing).mt nofun
    simp [scheduled, Option.not_isSome_iff_eq_none.mp cannot]

variable {machine choose} {start : State} {starts : machine.Start start}

/-- A scheduler that begins with a series of events comes where it leads. -/
theorem scheduled_events {events : List Event} {final : State}
    (chosen : ∀ n event state, events[n]? = some event → choose n state = event)
    (runs : machine.run start events = some final) :
    scheduled machine choose start events.length = final := by
  induction events using List.reverseRecOn generalizing final with
  | nil => exact Option.some.inj runs
  | append_singleton events event ih =>
      obtain ⟨middle, first, last⟩ := Machine.run_append runs
      have here : scheduled machine choose start events.length = middle := by
        refine ih (fun n other state found => chosen n other state ?_) first
        rw [List.getElem?_append_left (List.getElem?_eq_some_iff.mp found).1, found]
      obtain ⟨next, taken, ended⟩ := Option.bind_eq_some_iff.mp last
      obtain rfl : next = final := Option.some.inj ended
      rw [List.length_append, List.length_singleton, scheduled, here,
        chosen events.length event middle (by simp), taken]
      rfl

/-- What happens was chosen. -/
theorem ofSchedule_chosen {n : Nat} {event : Event}
    (happens : (ofSchedule machine choose start starts).event n = some event) :
    event = choose n ((ofSchedule machine choose start starts).state n) :=
  (Option.some.inj (Option.ite_none_right_eq_some.mp happens).2).symm

/-- A scheduler that comes back to a thread is fair to it. -/
theorem ofSchedule_fair (turn : ∀ n, ∃ m, n ≤ m ∧ ∀ state, machine.Enabled mine state →
      mine (choose m state) ∧ (machine.step state (choose m state)).isSome) :
    (ofSchedule machine choose start starts).Fair mine := by
  intro n enabled
  obtain ⟨m, later, own⟩ := turn n
  obtain ⟨mine, can⟩ := own _ (enabled m later)
  exact ⟨m, later, _, if_pos can, mine⟩

end Scheduled

end Endless

end Machine

end HyperPlotter.Foundation

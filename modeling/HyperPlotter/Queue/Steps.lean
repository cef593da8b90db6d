import Mathlib.Logic.Function.Basic
import HyperPlotter.Foundation.Machine
import HyperPlotter.Foundation.MachineInt

/-!
# The queue between the threads

`util::queue` with the steps of `push`, `pop`, `pop_for` and `stop` that other
threads can see in between: the mutex, the deque, the counter beside it, the exit
flag, and the condition variable with the threads that sleep on it.
-/

namespace HyperPlotter.Queue

open Foundation

variable {ι α : Type}

/-- Where a thread is in a call. `timed` tells `pop_for` from `pop`, `timedOut` that
its time was over when it woke up. -/
inductive Place (α : Type) where
  | outside
  | pushLock (v : α)
  | pushBack (v : α)
  | pushUnlock
  | fetchAdd
  | pushNotify
  | stopNotify
  | popLock (timed : Bool)
  | loop (timed : Bool)
  | checkEmpty (timed : Bool)
  | predicate (timed timedOut : Bool)
  | sleep (timed : Bool)
  | asleep (timed : Bool)
  | woken (timed timedOut : Bool)
  | popFront
  | fetchSub (v : α)
  | leave (v : Option α)
deriving DecidableEq

/-- Whether the thread has the mutex there. -/
def Place.holds : Place α → Bool
  | .pushBack _ | .pushUnlock | .loop _ | .checkEmpty _ | .predicate .. | .sleep _ | .popFront
  | .fetchSub _ | .leave _ => true
  | _ => false

/-- Whether the next step is `notify_all`. -/
def Place.notifies : Place α → Bool
  | .pushNotify | .stopNotify => true
  | _ => false

/-- What `notify_all` does to a thread. -/
def Place.notified : Place α → Place α
  | .asleep timed => .woken timed false
  | place => place

/-- The members of the queue, and what has happened so far: whether a `stop` is
over, the elements appended and taken, and how often each operation was begun or
done. -/
structure Shared (ι α : Type) where
  mutex : Option ι
  q : List α
  size : Nat
  exit : Bool
  stopped : Bool
  appended : List α
  taken : List α
  started : Nat
  counted : Nat
  subtracted : Nat
  finished : Nat

/-- A new queue. -/
def Shared.new : Shared ι α := ⟨none, [], 0, false, false, [], [], 0, 0, 0, 0⟩

/-- What a thread does: begin a call, take the next step in it, or wake up by itself
or because its time is over. -/
inductive Action (α : Type) where
  | push (v : α)
  | pop (timed : Bool)
  | stop
  | advance
  | wake (timedOut : Bool)

/-- The next step of thread `i` in a call. -/
def Place.advance (i : ι) (s : Shared ι α) : Place α → Option (Place α × Shared ι α)
  | .outside => none
  | .pushLock v => if s.mutex.isNone then some (.pushBack v, { s with mutex := some i }) else none
  | .pushBack v =>
    some (.pushUnlock, { s with q := s.q ++ [v], appended := s.appended ++ [v] })
  | .pushUnlock => some (.fetchAdd, { s with mutex := none })
  | .fetchAdd =>
    some (.pushNotify, { s with size := toUInt64 (s.size + 1), counted := s.counted + 1 })
  | .pushNotify => some (.outside, s)
  | .stopNotify => some (.outside, { s with stopped := true })
  | .popLock timed => if s.mutex.isNone then some (.loop timed, { s with mutex := some i }) else none
  | .loop timed => some (if s.exit then .leave none else .checkEmpty timed, s)
  | .checkEmpty timed => some (if s.q.isEmpty then .predicate timed false else .popFront, s)
  | .predicate timed timedOut =>
    some (if !s.q.isEmpty || s.exit then .loop timed
      else if timedOut then .leave none else .sleep timed, s)
  | .sleep timed => some (.asleep timed, { s with mutex := none })
  | .asleep _ => none
  | .woken timed timedOut =>
    if s.mutex.isNone then some (.predicate timed timedOut, { s with mutex := some i }) else none
  | .popFront =>
    match s.q with
    | [] => none
    | v :: rest => some (.fetchSub v, { s with q := rest, taken := s.taken ++ [v] })
  | .fetchSub v =>
    some (.leave (some v),
      { s with size := toUInt64 ((s.size : Int) - 1), subtracted := s.subtracted + 1 })
  | .leave v =>
    some (.outside, { s with mutex := none, finished := s.finished + v.toList.length })

/-- The effect of an action of thread `i`. -/
def Place.act (i : ι) (s : Shared ι α) (place : Place α) :
    Action α → Option (Place α × Shared ι α)
  | .push v =>
    match place with
    | .outside => some (.pushLock v, { s with started := s.started + 1 })
    | _ => none
  | .pop timed =>
    match place with
    | .outside => some (.popLock timed, s)
    | _ => none
  | .stop =>
    match place with
    | .outside => some (.stopNotify, { s with exit := true })
    | _ => none
  | .wake timedOut =>
    match place with
    | .asleep timed => if timedOut && !timed then none else some (.woken timed timedOut, s)
    | _ => none
  | .advance => place.advance i s

/-- The queue and the places of all threads. -/
structure State (ι α : Type) where
  shared : Shared ι α
  places : ι → Place α

/-- The machine of a queue used by the threads `ι`. -/
def machine (ι α : Type) [DecidableEq ι] : Machine (State ι α) (ι × Action α) where
  Start s := s = ⟨.new, fun _ => .outside⟩
  step s event :=
    ((s.places event.1).act event.1 s.shared event.2).map fun moved =>
      { shared := moved.2
        places := Function.update
          (if (s.places event.1).notifies then fun j => (s.places j).notified else s.places)
          event.1 moved.1 }

/-! ## One step -/

/-- What a thread can do in one step, with its tests decided. -/
inductive Transition (i : ι) : Place α → Shared ι α → Place α → Shared ι α → Prop where
  | push {s : Shared ι α} (v : α) :
      Transition i .outside s (.pushLock v) { s with started := s.started + 1 }
  | pop {s : Shared ι α} (timed : Bool) : Transition i .outside s (.popLock timed) s
  | stop {s : Shared ι α} : Transition i .outside s .stopNotify { s with exit := true }
  | wake {s : Shared ι α} (timed timedOut : Bool) :
      Transition i (.asleep timed) s (.woken timed timedOut) s
  | pushLock {s : Shared ι α} (v : α) (free : s.mutex = none) :
      Transition i (.pushLock v) s (.pushBack v) { s with mutex := some i }
  | pushBack {s : Shared ι α} (v : α) :
      Transition i (.pushBack v) s .pushUnlock
        { s with q := s.q ++ [v], appended := s.appended ++ [v] }
  | pushUnlock {s : Shared ι α} : Transition i .pushUnlock s .fetchAdd { s with mutex := none }
  | fetchAdd {s : Shared ι α} :
      Transition i .fetchAdd s .pushNotify
        { s with size := toUInt64 (s.size + 1), counted := s.counted + 1 }
  | pushNotify {s : Shared ι α} : Transition i .pushNotify s .outside s
  | stopNotify {s : Shared ι α} : Transition i .stopNotify s .outside { s with stopped := true }
  | popLock {s : Shared ι α} (timed : Bool) (free : s.mutex = none) :
      Transition i (.popLock timed) s (.loop timed) { s with mutex := some i }
  | exits {s : Shared ι α} (timed : Bool) : Transition i (.loop timed) s (.leave none) s
  | goesOn {s : Shared ι α} (timed : Bool) : Transition i (.loop timed) s (.checkEmpty timed) s
  | empty {s : Shared ι α} (timed : Bool) :
      Transition i (.checkEmpty timed) s (.predicate timed false) s
  | filled {s : Shared ι α} (timed : Bool) : Transition i (.checkEmpty timed) s .popFront s
  | holds {s : Shared ι α} (timed timedOut : Bool) :
      Transition i (.predicate timed timedOut) s (.loop timed) s
  | tooLate {s : Shared ι α} (timed timedOut : Bool) :
      Transition i (.predicate timed timedOut) s (.leave none) s
  | waits {s : Shared ι α} (timed timedOut : Bool) (goes : s.exit = false) (empty : s.q = []) :
      Transition i (.predicate timed timedOut) s (.sleep timed) s
  | sleep {s : Shared ι α} (timed : Bool) :
      Transition i (.sleep timed) s (.asleep timed) { s with mutex := none }
  | woken {s : Shared ι α} (timed timedOut : Bool) (free : s.mutex = none) :
      Transition i (.woken timed timedOut) s (.predicate timed timedOut) { s with mutex := some i }
  | popFront {s : Shared ι α} (v : α) (rest : List α) (front : s.q = v :: rest) :
      Transition i .popFront s (.fetchSub v) { s with q := rest, taken := s.taken ++ [v] }
  | fetchSub {s : Shared ι α} (v : α) :
      Transition i (.fetchSub v) s (.leave (some v))
        { s with size := toUInt64 ((s.size : Int) - 1), subtracted := s.subtracted + 1 }
  | leave {s : Shared ι α} (v : Option α) :
      Transition i (.leave v) s .outside
        { s with mutex := none, finished := s.finished + v.toList.length }

private theorem advance_transition {i : ι} {place place' : Place α} {s s' : Shared ι α}
    (taken : place.advance i s = some (place', s')) : Transition i place s place' s' := by
  cases place with
  | outside => cases taken
  | asleep timed => cases taken
  | pushLock v =>
      obtain ⟨free, same⟩ := Option.ite_none_right_eq_some.mp taken
      obtain ⟨rfl, rfl⟩ := Prod.mk.inj (Option.some.inj same)
      exact .pushLock v (Option.isNone_iff_eq_none.mp free)
  | popLock timed =>
      obtain ⟨free, same⟩ := Option.ite_none_right_eq_some.mp taken
      obtain ⟨rfl, rfl⟩ := Prod.mk.inj (Option.some.inj same)
      exact .popLock timed (Option.isNone_iff_eq_none.mp free)
  | woken timed timedOut =>
      obtain ⟨free, same⟩ := Option.ite_none_right_eq_some.mp taken
      obtain ⟨rfl, rfl⟩ := Prod.mk.inj (Option.some.inj same)
      exact .woken timed timedOut (Option.isNone_iff_eq_none.mp free)
  | loop timed =>
      obtain ⟨rfl, rfl⟩ := Prod.mk.inj (Option.some.inj taken)
      split
      · exact .exits timed
      · exact .goesOn timed
  | checkEmpty timed =>
      obtain ⟨rfl, rfl⟩ := Prod.mk.inj (Option.some.inj taken)
      split
      · exact .empty timed
      · exact .filled timed
  | predicate timed timedOut =>
      obtain ⟨rfl, rfl⟩ := Prod.mk.inj (Option.some.inj taken)
      split
      · exact .holds timed timedOut
      · rename_i waits
        split
        · exact .tooLate timed timedOut
        · simp only [Bool.or_eq_true, Bool.not_eq_true', not_or, Bool.not_eq_true,
            Bool.not_eq_false, List.isEmpty_iff] at waits
          exact .waits timed timedOut waits.2 waits.1
  | popFront =>
      cases front : s.q with
      | nil =>
          simp only [Place.advance, front] at taken
          cases taken
      | cons v rest =>
          simp only [Place.advance, front] at taken
          obtain ⟨rfl, rfl⟩ := Prod.mk.inj (Option.some.inj taken)
          exact .popFront v rest front
  | _ =>
      obtain ⟨rfl, rfl⟩ := Prod.mk.inj (Option.some.inj taken)
      constructor

/-- Every action is one of the transitions. -/
theorem act_transition {i : ι} {place place' : Place α} {s s' : Shared ι α} {action : Action α}
    (taken : place.act i s action = some (place', s')) : Transition i place s place' s' := by
  cases action with
  | advance => exact advance_transition taken
  | push v | pop timed | stop =>
      cases place with
      | outside =>
          obtain ⟨rfl, rfl⟩ := Prod.mk.inj (Option.some.inj taken)
          constructor
      | _ => cases taken
  | wake timedOut =>
      cases place with
      | asleep timed =>
          obtain ⟨_, same⟩ := Option.ite_none_left_eq_some.mp taken
          obtain ⟨rfl, rfl⟩ := Prod.mk.inj (Option.some.inj same)
          exact .wake timed timedOut
      | _ => cases taken

/-- What a step of a thread from `place` to `place'` does to the queue. -/
structure Moves (i : ι) (place : Place α) (s : Shared ι α) (place' : Place α) (s' : Shared ι α) :
    Prop where
  mutex : if place.holds then place'.holds ∧ s'.mutex = s.mutex ∨ ¬place'.holds ∧ s'.mutex = none
    else s.mutex = none ∧ place'.holds ∧ s'.mutex = some i ∨ ¬place'.holds ∧ s'.mutex = s.mutex
  deque : place.holds ∨ s'.q = s.q
  fifo : ∃ new, s'.appended = s.appended ++ new ∧ s'.taken ++ s'.q = s.taken ++ s.q ++ new
  exit : s'.exit = s.exit ∨ s'.exit
  sleeps : ∀ timed, place' = .sleep timed → s'.exit = false ∧ s'.q = []
  asleep : ∀ timed, place' = .asleep timed → place = .sleep timed ∧ s'.q = s.q
  announced : s'.q = [] ∨ s.q ≠ [] ∨ place' = .pushUnlock

/-- A step that leaves the elements alone. -/
private theorem Moves.of_same {i : ι} {place place' : Place α} {s s' : Shared ι α}
    (q : s'.q = s.q) (appended : s'.appended = s.appended) (taken : s'.taken = s.taken)
    (exit : s'.exit = s.exit ∨ s'.exit)
    (mutex : if place.holds then place'.holds ∧ s'.mutex = s.mutex ∨ ¬place'.holds ∧ s'.mutex = none
      else s.mutex = none ∧ place'.holds ∧ s'.mutex = some i ∨ ¬place'.holds ∧ s'.mutex = s.mutex)
    (sleeps : ∀ timed, place' = .sleep timed → s'.exit = false ∧ s'.q = [])
    (asleep : ∀ timed, place' = .asleep timed → place = .sleep timed) :
    Moves i place s place' s' where
  mutex := mutex
  deque := .inr q
  fifo := ⟨[], by rw [appended, List.append_nil], by rw [taken, q, List.append_nil]⟩
  exit := exit
  sleeps := sleeps
  asleep := fun timed same => ⟨asleep timed same, q⟩
  announced := by
    by_cases empty : s.q = []
    · exact .inl (q.trans empty)
    · exact .inr (.inl empty)

/-- What every action does. -/
theorem act_moves {i : ι} {place place' : Place α} {s s' : Shared ι α} {action : Action α}
    (taken : place.act i s action = some (place', s')) : Moves i place s place' s' := by
  cases act_transition taken with
  | pushLock _ free | popLock _ free | woken _ _ free =>
      exact .of_same rfl rfl rfl (.inl rfl) (.inl ⟨free, rfl, rfl⟩) nofun nofun
  | pushBack v =>
      exact ⟨.inl ⟨rfl, rfl⟩, .inl rfl, ⟨[v], rfl, by simp⟩, .inl rfl, nofun, nofun,
        .inr (.inr rfl)⟩
  | popFront v rest front =>
      exact ⟨.inl ⟨rfl, rfl⟩, .inl rfl, ⟨[], by simp, by simp [front]⟩, .inl rfl, nofun, nofun,
        .inr (.inl (by simp [front]))⟩
  | waits timed timedOut goes empty =>
      exact .of_same rfl rfl rfl (.inl rfl) (.inl ⟨rfl, rfl⟩) (fun _ _ => ⟨goes, empty⟩) nofun
  | sleep timed =>
      exact .of_same rfl rfl rfl (.inl rfl) (.inr ⟨nofun, rfl⟩) nofun fun _ same => by
        cases same
        rfl
  | stop => exact .of_same rfl rfl rfl (.inr rfl) (.inr ⟨nofun, rfl⟩) nofun nofun
  | exits | goesOn | empty | filled | holds | tooLate | fetchSub =>
      exact .of_same rfl rfl rfl (.inl rfl) (.inl ⟨rfl, rfl⟩) nofun nofun
  | _ => exact .of_same rfl rfl rfl (.inl rfl) (.inr ⟨nofun, rfl⟩) nofun nofun

@[simp] theorem holds_notified (place : Place α) : place.notified.holds = place.holds := by
  cases place <;> rfl

section

variable [DecidableEq ι] {s t : State ι α} {i : ι} {action : Action α}

/-- A step moves one thread, and wakes the sleeping ones when it notifies. -/
theorem step_cases (taken : (machine ι α).step s (i, action) = some t) :
    (s.places i).act i s.shared action = some (t.places i, t.shared) ∧
      ∀ j, j ≠ i → t.places j =
        if (s.places i).notifies then (s.places j).notified else s.places j := by
  obtain ⟨⟨place', shared'⟩, acted, rfl⟩ := Option.map_eq_some_iff.mp taken
  refine ⟨?_, fun j other => ?_⟩
  · simp only [Function.update_self]
    exact acted
  · simp only [Function.update_of_ne other]
    split <;> rfl

/-- One thread at most has the mutex, and elements leave in the order they came. -/
structure Consistent (s : State ι α) : Prop where
  locked : ∀ i, (s.places i).holds ↔ s.shared.mutex = some i
  fifo : s.shared.taken ++ s.shared.q = s.shared.appended

/-- A thread that keeps its place, or is woken, keeps the mutex or stays without it. -/
private theorem holds_other (taken : (machine ι α).step s (i, action) = some t) {j : ι}
    (other : j ≠ i) : (t.places j).holds = (s.places j).holds := by
  rw [(step_cases taken).2 j other]
  split
  · exact holds_notified _
  · rfl

/-- A step keeps the queue consistent. -/
theorem Consistent.step (before : Consistent s)
    (taken : (machine ι α).step s (i, action) = some t) : Consistent t := by
  have moves := act_moves (step_cases taken).1
  have mutex := moves.mutex
  constructor
  · intro j
    have here := before.locked i
    have there := before.locked j
    by_cases same : j = i
    · subst same
      split at mutex
      · rename_i held
        rcases mutex with ⟨holds, kept⟩ | ⟨left, free⟩
        · rw [kept]
          exact ⟨fun _ => here.mp held, fun _ => holds⟩
        · rw [free]
          exact ⟨fun holds => absurd holds left, nofun⟩
      · rename_i outside
        rcases mutex with ⟨_, holds, locked⟩ | ⟨left, kept⟩
        · exact ⟨fun _ => locked, fun _ => holds⟩
        · rw [kept]
          exact ⟨fun holds => absurd holds left, fun own => absurd (here.mpr own) outside⟩
    · rw [holds_other taken same]
      split at mutex
      · rename_i held
        have owner := here.mp held
        rcases mutex with ⟨_, kept⟩ | ⟨_, free⟩
        · rw [kept]
          exact there
        · rw [there, owner, free]
          exact ⟨fun own => absurd (Option.some.inj own).symm same, nofun⟩
      · rcases mutex with ⟨free, _, locked⟩ | ⟨_, kept⟩
        · rw [there, free, locked]
          exact ⟨nofun, fun own => absurd (Option.some.inj own).symm same⟩
        · rw [kept]
          exact there
  · obtain ⟨new, appended, order⟩ := moves.fifo
    rw [order, appended, before.fifo]

/-- Every state of a run is consistent. -/
theorem reachable_consistent {s : State ι α} (reached : (machine ι α).Reachable s) :
    Consistent s := by
  refine reached.invariant Consistent ?_ ?_
  · rintro _ rfl
    exact ⟨fun _ => ⟨nofun, nofun⟩, rfl⟩
  · rintro _ ⟨i, action⟩ _ _ before _ taken
    exact before.step taken

end

end HyperPlotter.Queue

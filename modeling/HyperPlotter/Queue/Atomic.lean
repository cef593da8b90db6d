import HyperPlotter.Foundation.Simulation
import HyperPlotter.Queue.Steps

/-!
# The queue as one object

What the threads may take the queue for: every call has its whole effect at one moment
between its beginning and its end. A `pop` has it when it reads the exit flag and not
when it takes its element, since `stop` does not wait for the mutex: an element that a
thread has found is handed out although the queue is stopped meanwhile.
-/

namespace HyperPlotter.Queue

open Foundation

variable {ι α : Type}

/-- The calls of `util::queue`; `timed` is `pop_for`. -/
inductive Operation (α : Type) where
  | push (v : α)
  | pop (timed : Bool)
  | stop
deriving DecidableEq

/-- What a call does to the elements and the exit flag, and what it returns. `T()` is
`none`. An untimed `pop` has no effect as long as there is nothing to return. -/
def Operation.effect (q : List α) (exit : Bool) : Operation α → Option (Option α × List α × Bool)
  | .push v => some (none, q ++ [v], exit)
  | .stop => some (none, q, true)
  | .pop timed =>
    if exit then some (none, q, exit)
    else match q with
      | v :: rest => some (some v, rest, exit)
      | [] => if timed then some (none, [], exit) else none

/-- How far a thread is with its call. -/
inductive Status (α : Type) where
  | idle
  | called (operation : Operation α)
  | answered (v : Option α)
deriving DecidableEq

/-- What is done for a call: it begins, has its effect, ends. -/
inductive Move (α : Type) where
  | call (operation : Operation α)
  | act
  | finish
deriving DecidableEq

/-- One of them, with the elements and the exit flag after it. -/
def Status.move (q : List α) (exit : Bool) : Status α → Move α →
    Option (Status α × List α × Bool)
  | .idle, .call operation => some (.called operation, q, exit)
  | .called operation, .act =>
    (operation.effect q exit).map fun done => (.answered done.1, done.2.1, done.2.2)
  | .answered _, .finish => some (.idle, q, exit)
  | _, _ => none

/-- The elements, the exit flag, and the calls that are not over. -/
structure Atomic (ι α : Type) where
  q : List α
  exit : Bool
  status : ι → Status α

/-- The queue with calls that have their effect at once. -/
def atomic (ι α : Type) [DecidableEq ι] : Machine (Atomic ι α) (ι × Move α) where
  Start s := s = ⟨[], false, fun _ => .idle⟩
  step s event :=
    ((s.status event.1).move s.q s.exit event.2).map fun moved =>
      { q := moved.2.1
        exit := moved.2.2
        status := Function.update s.status event.1 moved.1 }

/-- What the threads know of a queue. -/
inductive Note (ι α : Type) where
  | called (i : ι) (operation : Operation α)
  | returned (i : ι) (v : Option α)
deriving DecidableEq

/-- The calls and answers of the queue at once. -/
def Atomic.note (s : Atomic ι α) (event : ι × Move α) : List (Note ι α) :=
  match event.2, s.status event.1 with
  | .call operation, _ => [.called event.1 operation]
  | .finish, .answered v => [.returned event.1 v]
  | _, _ => []

/-- The calls and answers of the queue as it is. -/
def State.note (s : State ι α) (event : ι × Action α) : List (Note ι α) :=
  match event.2, s.places event.1 with
  | .push v, _ => [.called event.1 (.push v)]
  | .pop timed, _ => [.called event.1 (.pop timed)]
  | .stop, _ => [.called event.1 .stop]
  | .advance, .pushNotify | .advance, .stopNotify => [.returned event.1 none]
  | .advance, .leave v => [.returned event.1 v]
  | _, _ => []

/-! ## What a thread's place amounts to -/

/-- The thread has read the exit flag and will take the first element. -/
def Place.ahead : Place α → Bool
  | .checkEmpty _ | .popFront => true
  | _ => false

/-- The elements without the one that is as good as taken. -/
def Place.remaining (q : List α) (place : Place α) : List α :=
  if place.ahead then q.tail else q

/-- How far the call is. -/
def Place.status (q : List α) : Place α → Status α
  | .outside => .idle
  | .pushLock v | .pushBack v => .called (.push v)
  | .pushUnlock | .fetchAdd | .pushNotify | .stopNotify => .answered none
  | .popLock timed | .loop timed | .predicate timed _ | .sleep timed | .asleep timed
  | .woken timed _ => .called (.pop timed)
  | .checkEmpty timed =>
    match q with
    | [] => .called (.pop timed)
    | v :: _ => .answered (some v)
  | .popFront => .answered q.head?
  | .fetchSub v => .answered (some v)
  | .leave v => .answered v

/-- What the next step is of the queue at once. -/
def Place.moves (s : Shared ι α) : Place α → Action α → List (Move α)
  | _, .push v => [.call (.push v)]
  | _, .pop timed => [.call (.pop timed)]
  | _, .stop => [.call .stop, .act]
  | .pushBack _, .advance => [.act]
  | .loop _, .advance => if s.exit || !s.q.isEmpty then [.act] else []
  | .predicate _ timedOut, .advance =>
    if s.q.isEmpty && !s.exit && timedOut then [.act] else []
  | .pushNotify, .advance | .stopNotify, .advance | .leave _, .advance => [.finish]
  | _, _ => []

/-- The queue as the threads may take it. -/
def State.seen (s : State ι α) : Atomic ι α where
  q := match s.shared.mutex with
    | none => s.shared.q
    | some i => (s.places i).remaining s.shared.q
  exit := s.shared.exit
  status i := (s.places i).status s.shared.q

/-- A call that cannot time out has not. -/
def Place.timely : Place α → Bool
  | .predicate timed timedOut | .woken timed timedOut => !timedOut || timed
  | _ => true

/-! ## One step -/

/-- The moves of one thread, in order. -/
def Status.follow : List (Move α) → Status α × List α × Bool → Option (Status α × List α × Bool)
  | [], at_ => some at_
  | move :: rest, (status, q, exit) => (status.move q exit move).bind (follow rest)

/-- The elements that are left after a step of a thread, when `rest` were before. -/
def Place.left (q : List α) (place place' : Place α) (rest : List α) : List α :=
  if place.holds || place'.holds then place'.remaining q else rest

/-- A step is its moves. -/
private theorem act_follows {i : ι} {place place' : Place α} {s s' : Shared ι α}
    {action : Action α} {rest : List α} (taken : place.act i s action = some (place', s'))
    (timely : place.timely) (here : place.holds → rest = place.remaining s.q)
    (free : s.mutex = none → rest = s.q) :
    Status.follow (place.moves s action) (place.status s.q, rest, s.exit) =
      some (place'.status s'.q, place.left s'.q place' rest, s'.exit) := by
  cases action with
  | push v | pop timed | stop =>
      cases place with
      | outside =>
          obtain ⟨rfl, rfl⟩ := Prod.mk.inj (Option.some.inj taken)
          rfl
      | _ => cases taken
  | wake timedOut =>
      cases place with
      | asleep timed =>
          obtain ⟨_, same⟩ := Option.ite_none_left_eq_some.mp taken
          obtain ⟨rfl, rfl⟩ := Prod.mk.inj (Option.some.inj same)
          rfl
      | _ => cases taken
  | advance =>
      cases place with
      | outside | asleep => cases taken
      | pushLock v | popLock timed | woken timed timedOut =>
          obtain ⟨unlocked, same⟩ := Option.ite_none_right_eq_some.mp taken
          obtain ⟨rfl, rfl⟩ := Prod.mk.inj (Option.some.inj same)
          obtain rfl := free (Option.isNone_iff_eq_none.mp unlocked)
          rfl
      | loop timed =>
          obtain ⟨rfl, rfl⟩ := Prod.mk.inj (Option.some.inj taken)
          obtain rfl := here rfl
          cases exits : s.exit <;> cases found : s.q <;>
            simp [Place.moves, Status.follow, Status.move, Operation.effect, Place.status, Place.left,
              Place.remaining, Place.holds, Place.ahead, exits, found]
      | checkEmpty timed =>
          obtain ⟨rfl, rfl⟩ := Prod.mk.inj (Option.some.inj taken)
          obtain rfl := here rfl
          cases found : s.q <;>
            simp [Place.moves, Status.follow, Place.status, Place.left, Place.remaining, Place.holds,
              Place.ahead]
      | predicate timed timedOut =>
          obtain ⟨rfl, rfl⟩ := Prod.mk.inj (Option.some.inj taken)
          obtain rfl := here rfl
          cases exits : s.exit <;> cases found : s.q <;> cases timedOut <;> cases timed <;>
            simp_all [Place.moves, Status.follow, Status.move, Operation.effect, Place.status,
              Place.left, Place.remaining, Place.holds, Place.ahead, Place.timely]
      | popFront =>
          obtain rfl := here rfl
          cases found : s.q with
          | nil =>
              simp only [Place.act, Place.advance, found] at taken
              cases taken
          | cons v rest =>
              simp only [Place.act, Place.advance, found] at taken
              obtain ⟨rfl, rfl⟩ := Prod.mk.inj (Option.some.inj taken)
              rfl
      | pushUnlock | pushBack v | fetchSub v | leave v | sleep timed =>
          obtain ⟨rfl, rfl⟩ := Prod.mk.inj (Option.some.inj taken)
          obtain rfl := here rfl
          rfl
      | fetchAdd | pushNotify | stopNotify =>
          obtain ⟨rfl, rfl⟩ := Prod.mk.inj (Option.some.inj taken)
          rfl

@[simp] theorem status_notified (q : List α) (place : Place α) :
    place.notified.status q = place.status q := by
  cases place <;> rfl

@[simp] theorem remaining_notified (q : List α) (place : Place α) :
    place.notified.remaining q = place.remaining q := by
  cases place <;> rfl

/-- Without the mutex a thread has no element in sight. -/
private theorem remaining_of_outside {place : Place α} (outside : ¬place.holds) (q : List α) :
    place.remaining q = q := by
  cases place <;> first | rfl | exact absurd rfl outside

private theorem status_of_outside {place : Place α} (outside : ¬place.holds) (q q' : List α) :
    place.status q = place.status q' := by
  cases place <;> first | rfl | exact absurd rfl outside

section

variable [DecidableEq ι] {s t : State ι α} {i : ι} {action : Action α}

/-- Moves of one thread leave the other calls where they are. -/
private theorem run_follow (s : Atomic ι α) (i : ι) (moves : List (Move α)) :
    (atomic ι α).run s (moves.map fun move => (i, move)) =
      (Status.follow moves (s.status i, s.q, s.exit)).map fun done =>
        { q := done.2.1, exit := done.2.2, status := Function.update s.status i done.1 } := by
  induction moves generalizing s with
  | nil =>
      simp only [List.map_nil, Machine.run, List.foldlM_nil, Status.follow, Option.map_some,
        Function.update_eq_self]
      rfl
  | cons move rest ih =>
      simp only [List.map_cons, Machine.run, List.foldlM_cons, Status.follow]
      cases moved : (s.status i).move s.q s.exit move with
      | none => simp [atomic, moved]
      | some done =>
          have later := ih ⟨done.2.1, done.2.2, Function.update s.status i done.1⟩
          simp only [Machine.run, Function.update_self, Function.update_idem] at later
          simpa [atomic, moved] using later

/-- Another thread's step changes nothing of a call. -/
private theorem status_other (consistent : Consistent s)
    (taken : (machine ι α).step s (i, action) = some t) {j : ι} (other : j ≠ i) :
    (t.places j).status t.shared.q = (s.places j).status s.shared.q := by
  obtain ⟨acted, others⟩ := step_cases taken
  have same : (t.places j).status t.shared.q = (s.places j).status t.shared.q := by
    rw [others j other]
    split
    · exact status_notified _ _
    · rfl
  rw [same]
  rcases (act_moves acted).deque with held | kept
  · refine status_of_outside (fun also => other ?_) _ _
    have mine := (consistent.locked i).mp held
    rw [(consistent.locked j).mp also] at mine
    exact Option.some.inj mine
  · rw [kept]

/-- What a step leaves to see. -/
private theorem seen_step (consistent : Consistent s) (after : Consistent t)
    (taken : (machine ι α).step s (i, action) = some t) :
    t.seen =
      { q := (s.places i).left t.shared.q (t.places i) s.seen.q
        exit := t.shared.exit
        status := Function.update s.seen.status i ((t.places i).status t.shared.q) } := by
  obtain ⟨acted, others⟩ := step_cases taken
  have moves := act_moves acted
  have statuses : t.seen.status =
      Function.update s.seen.status i ((t.places i).status t.shared.q) := by
    ext j : 1
    by_cases same : j = i
    · subst same
      rw [Function.update_self]
      rfl
    · rw [Function.update_of_ne same]
      exact status_other consistent taken same
  have elements : t.seen.q = (s.places i).left t.shared.q (t.places i) s.seen.q := by
    by_cases there : (t.places i).holds
    · simp only [State.seen, Place.left, (after.locked i).mp there, there, Bool.or_true, if_true]
    · have mutex := moves.mutex
      by_cases held : (s.places i).holds
      · rw [if_pos held] at mutex
        have unlocked : t.shared.mutex = none := by
          rcases mutex with ⟨holds, _⟩ | ⟨_, unlocked⟩
          · exact absurd holds there
          · exact unlocked
        simp only [State.seen, Place.left, unlocked, held, Bool.true_or, if_true,
          remaining_of_outside there]
      · rw [if_neg held] at mutex
        have kept : t.shared.mutex = s.shared.mutex := by
          rcases mutex with ⟨_, holds, _⟩ | ⟨_, kept⟩
          · exact absurd holds there
          · exact kept
        have deque : t.shared.q = s.shared.q := moves.deque.resolve_left held
        simp only [State.seen, Place.left, kept, deque, held, there, Bool.or_self, Bool.false_eq_true,
          if_false]
        cases owner : s.shared.mutex with
        | none => rfl
        | some j =>
            have other : j ≠ i := by
              rintro rfl
              exact held ((consistent.locked j).mpr owner)
            simp only [others j other]
            split
            · exact remaining_notified _ _
            · rfl
  rw [← elements, ← statuses]
  rfl

omit [DecidableEq ι] in
/-- A thread whose time is over called `pop_for`. -/
private theorem act_timely {place place' : Place α} {s s' : Shared ι α}
    (taken : place.act i s action = some (place', s')) (timely : place.timely) :
    place'.timely := by
  cases action with
  | push v | pop timed | stop =>
      cases place with
      | outside =>
          obtain ⟨rfl, rfl⟩ := Prod.mk.inj (Option.some.inj taken)
          rfl
      | _ => cases taken
  | wake timedOut =>
      cases place with
      | asleep timed =>
          obtain ⟨awake, same⟩ := Option.ite_none_left_eq_some.mp taken
          obtain ⟨rfl, rfl⟩ := Prod.mk.inj (Option.some.inj same)
          cases timedOut <;> cases timed <;> trivial
      | _ => cases taken
  | advance =>
      cases act_transition taken with
      | woken => exact timely
      | wake => cases taken
      | _ => rfl

/-- Nobody is out of time who cannot be. -/
theorem reachable_timely (reached : (machine ι α).Reachable s) (i : ι) : (s.places i).timely := by
  refine reached.invariant (fun s : State ι α => ∀ i, (s.places i).timely) ?_ ?_ i
  · rintro _ rfl _
    rfl
  · rintro s ⟨i, action⟩ t _ before _ taken j
    obtain ⟨acted, others⟩ := step_cases taken
    by_cases same : j = i
    · subst same
      exact act_timely acted (before j)
    · rw [others j same]
      split
      · have kept := before j
        cases place : s.places j <;> rw [place] at kept <;> exact kept
      · exact before j

/-- What a thread does is what its moves do. -/
private theorem follows (reached : (machine ι α).Reachable s)
    (taken : (machine ι α).step s (i, action) = some t) :
    (atomic ι α).run s.seen (((s.places i).moves s.shared action).map fun move => (i, move)) =
      some t.seen := by
  have consistent := reachable_consistent reached
  have after := consistent.step taken
  have here : (s.places i).holds → s.seen.q = (s.places i).remaining s.shared.q := by
    intro held
    simp only [State.seen, (consistent.locked i).mp held]
  have free : s.shared.mutex = none → s.seen.q = s.shared.q := by
    intro unlocked
    simp only [State.seen, unlocked]
  have followed := act_follows (step_cases taken).1 (reachable_timely reached i) here free
  rw [run_follow]
  have start : (s.seen.status i, s.seen.q, s.seen.exit) =
      ((s.places i).status s.shared.q, s.seen.q, s.shared.exit) := rfl
  rw [start, followed, seen_step consistent after taken]
  rfl

/-- The effects of calls are not noted. -/
private theorem observed_act {s t : Atomic ι α} (moves : List (Move α))
    (only : ∀ move ∈ moves, move = .act)
    (runs : (atomic ι α).run s (moves.map fun move => (i, move)) = some t) :
    (atomic ι α).observed Atomic.note s (moves.map fun move => (i, move)) = [] := by
  induction moves generalizing s with
  | nil => rfl
  | cons move rest ih =>
      obtain rfl := only move (by simp)
      obtain ⟨next, _, later, notes⟩ := Machine.observed_cons Atomic.note runs
      rw [List.map_cons, notes, ih (fun move there => only move (by simp [there])) later]
      rfl

/-- A call begins or ends in the queue when it does in the queue at once. -/
private theorem follows_notes (reached : (machine ι α).Reachable s)
    (taken : (machine ι α).step s (i, action) = some t) :
    (atomic ι α).observed Atomic.note s.seen
        (((s.places i).moves s.shared action).map fun move => (i, move)) =
      s.note (i, action) := by
  have acted := (step_cases taken).1
  have followed := follows reached taken
  have status : s.seen.status i = (s.places i).status s.shared.q := rfl
  cases action with
  | push v | pop timed =>
      obtain ⟨_, _, _, notes⟩ := Machine.observed_cons Atomic.note followed
      exact notes
  | stop =>
      obtain ⟨next, _, later, notes⟩ := Machine.observed_cons Atomic.note followed
      have quiet := observed_act [Move.act] (by simp) later
      exact notes.trans (congrArg _ quiet)
  | wake timedOut => rfl
  | advance =>
      cases place : s.places i with
      | outside | asleep =>
          rw [place] at acted
          cases acted
      | pushNotify | stopNotify | leave =>
          rw [place] at followed status
          obtain ⟨_, _, _, notes⟩ := Machine.observed_cons Atomic.note followed
          refine notes.trans ?_
          simp only [Atomic.note, State.note, status, place, Place.status, List.map_nil]
          rfl
      | pushBack | loop | predicate =>
          rw [place] at followed
          refine (observed_act _ ?_ followed).trans ?_
          · simp [Place.moves]
          · simp only [State.note, place]
      | _ =>
          simp only [Place.moves, State.note, Machine.observed, place, List.map_nil]

end

variable (ι α) in
/-- The queue is seen as one with calls that have their effect at once. -/
def seenAtomic [DecidableEq ι] :
    Machine.Simulation (machine ι α) (atomic ι α) State.note Atomic.note where
  view := State.seen
  follow s event := ((s.places event.1).moves s.shared event.2).map fun move => (event.1, move)
  starts := by
    rintro _ rfl
    rfl
  follows reached taken := follows reached taken
  notes reached taken := follows_notes reached taken

/-- Every history of calls and answers of the queue, whatever the threads do and in
whatever order, is one of a queue whose calls have their effect at once. -/
theorem linearizable [DecidableEq ι] {s : State ι α} (events : List (ι × Action α))
    (runs : (machine ι α).run ⟨.new, fun _ => .outside⟩ events = some s) :
    ∃ moves final, (atomic ι α).run ⟨[], false, fun _ => .idle⟩ moves = some final ∧
      (atomic ι α).observed Atomic.note ⟨[], false, fun _ => .idle⟩ moves =
        (machine ι α).observed State.note ⟨.new, fun _ => .outside⟩ events := by
  obtain ⟨moves, ends, same⟩ := (seenAtomic ι α).exists_run (.start rfl) events runs
  exact ⟨moves, _, ends, same⟩

/-- A `stop` that is over before a `pop` has taken the element it found. -/
theorem linearizable_stopped : ∃ moves final,
    (atomic (Fin 2) Nat).run ⟨[], false, fun _ => .idle⟩ moves = some final ∧
      (atomic (Fin 2) Nat).observed Atomic.note ⟨[], false, fun _ => .idle⟩ moves =
        [.called 0 (.push 7), .returned 0 none, .called 1 (.pop false), .called 0 .stop,
          .returned 0 none, .returned 1 (some 7)] :=
  linearizable [(0, .push 7), (0, .advance), (0, .advance), (0, .advance),
    (0, .advance), (0, .advance), (1, .pop false), (1, .advance), (1, .advance), (0, .stop),
    (0, .advance), (1, .advance), (1, .advance), (1, .advance), (1, .advance)] rfl

end HyperPlotter.Queue

import HyperPlotter.Foundation.Totals
import HyperPlotter.Queue.Steps

/-!
# The counter beside the queue

`size_` follows the deque by one step: a push counts its element after it has
unlocked the mutex. As long as no element is taken off the counter before it was
counted, `size()` is never above the elements on their way and equals the length
when no operation is half done.
-/

namespace HyperPlotter.Queue

open Foundation

variable {ι α : Type}

/-- A push has begun and not appended. -/
def Place.pushing : Place α → Nat
  | .pushLock _ | .pushBack _ => 1
  | _ => 0

/-- A push is half done: its element is there and not counted. -/
def Place.halfDone : Place α → Nat
  | .pushUnlock | .fetchAdd => 1
  | _ => 0

/-- An element is taken and still counted. -/
def Place.taking : Place α → Nat
  | .fetchSub _ => 1
  | _ => 0

/-- An element is taken off the counter, and the call is not over. -/
def Place.returning : Place α → Nat
  | .leave v => v.toList.length
  | _ => 0

/-- Each operation is counted once, wherever it is. -/
structure Balanced (before after : Shared ι α) (place place' : Place α) : Prop where
  started : after.started + before.appended.length + place.pushing =
    before.started + after.appended.length + place'.pushing
  appended : after.appended.length + before.counted + place.halfDone =
    before.appended.length + after.counted + place'.halfDone
  taken : after.taken.length + before.subtracted + place.taking =
    before.taken.length + after.subtracted + place'.taking
  subtracted : after.subtracted + before.finished + place.returning =
    before.subtracted + after.finished + place'.returning

private theorem act_balanced {i : ι} {place place' : Place α} {s s' : Shared ι α}
    {action : Action α} (taken : place.act i s action = some (place', s')) :
    Balanced s s' place place' := by
  cases act_transition taken with
  | push v => exact ⟨Nat.add_right_comm s.started 1 s.appended.length, rfl, rfl, rfl⟩
  | pushBack v =>
      have longer : (s.appended ++ [v]).length = s.appended.length + 1 := List.length_append
      refine ⟨?_, ?_, rfl, rfl⟩
      · simp only [longer, Place.pushing]
        omega
      · simp only [longer, Place.halfDone]
        omega
  | popFront v rest front =>
      have longer : (s.taken ++ [v]).length = s.taken.length + 1 := List.length_append
      refine ⟨rfl, rfl, ?_, rfl⟩
      simp only [longer, Place.taking]
      omega
  | fetchSub v => exact ⟨rfl, rfl, rfl, Nat.add_right_comm s.subtracted 1 s.finished⟩
  | leave v => exact ⟨rfl, rfl, rfl, Nat.add_assoc ..⟩
  | _ => exact ⟨rfl, rfl, rfl, rfl⟩

/-- `notify_all` begins and ends no operation. -/
private theorem notified_weights (place : Place α) :
    place.notified.pushing = place.pushing ∧ place.notified.halfDone = place.halfDone ∧
      place.notified.taking = place.taking ∧ place.notified.returning = place.returning := by
  cases place <;> exact ⟨rfl, rfl, rfl, rfl⟩

/-- The next step does not make the counter wrap: no element is taken off at 0, none
added at `2^64 - 1`. -/
def Place.fits (size : Nat) : Place α → Bool
  | .fetchSub _ => size ≠ 0
  | .fetchAdd => size < 18446744073709551615
  | _ => true

/-- The counter does not wrap. -/
def Unwrapped (s : State ι α) (event : ι × Action α) : Prop :=
  (s.places event.1).fits s.shared.size

instance (s : State ι α) (event : ι × Action α) : Decidable (Unwrapped s event) :=
  inferInstanceAs (Decidable (_ = true))

/-- The counter follows its two operations. -/
private theorem act_size {i : ι} {place place' : Place α} {s s' : Shared ι α} {action : Action α}
    (taken : place.act i s action = some (place', s')) (fits : place.fits s.size)
    (small : s.size < 18446744073709551616) (exact : s.size + s.subtracted = s.counted) :
    s'.size < 18446744073709551616 ∧ s'.size + s'.subtracted = s'.counted := by
  cases act_transition taken with
  | fetchAdd =>
      have bound : s.size < 18446744073709551615 := of_decide_eq_true fits
      have next : toUInt64 ((s.size : Int) + 1) = s.size + 1 := by
        unfold toUInt64
        omega
      simp only [next]
      omega
  | fetchSub v =>
      have bound : s.size ≠ 0 := of_decide_eq_true fits
      have next : toUInt64 ((s.size : Int) - 1) = s.size - 1 := by
        unfold toUInt64
        omega
      simp only [next]
      omega
  | _ => exact ⟨small, exact⟩

variable [Fintype ι] [DecidableEq ι]

/-- The operations done so far and those under way. -/
structure Accounted (s : State ι α) : Prop where
  started : s.shared.started = s.shared.appended.length + total Place.pushing s.places
  appended : s.shared.appended.length = s.shared.counted + total Place.halfDone s.places
  taken : s.shared.taken.length = s.shared.subtracted + total Place.taking s.places
  subtracted : s.shared.subtracted = s.shared.finished + total Place.returning s.places

/-- The total after a step. -/
private theorem total_step {s t : State ι α} {i : ι} {action : Action α}
    (taken : (machine ι α).step s (i, action) = some t) (weight : Place α → Nat)
    (kept : ∀ place : Place α, weight place.notified = weight place) :
    total weight t.places + weight (s.places i) =
      total weight s.places + weight (t.places i) := by
  have others : (fun j => weight (t.places j)) =
      fun j => weight (Function.update s.places i (t.places i) j) := by
    funext j
    by_cases same : j = i
    · subst same
      rw [Function.update_self]
    · rw [Function.update_of_ne same, (step_cases taken).2 j same]
      split
      · exact kept _
      · rfl
  have moved := total_update weight s.places i (t.places i)
  unfold total at moved ⊢
  rw [others]
  exact moved

private theorem Accounted.step {s t : State ι α} {i : ι} {action : Action α}
    (before : Accounted s) (taken : (machine ι α).step s (i, action) = some t) : Accounted t := by
  have balanced := act_balanced (step_cases taken).1
  constructor
  · have moved := total_step taken Place.pushing fun place => (notified_weights place).1
    have balance := balanced.started
    have old := before.started
    omega
  · have moved := total_step taken Place.halfDone fun place => (notified_weights place).2.1
    have balance := balanced.appended
    have old := before.appended
    omega
  · have moved := total_step taken Place.taking fun place => (notified_weights place).2.2.1
    have balance := balanced.taken
    have old := before.taken
    omega
  · have moved := total_step taken Place.returning fun place => (notified_weights place).2.2.2
    have balance := balanced.subtracted
    have old := before.subtracted
    omega

/-- The operations of every reachable state are accounted for. -/
theorem reachable_accounted {s : State ι α} (reached : (machine ι α).Reachable s) :
    Accounted s := by
  refine reached.invariant Accounted ?_ ?_
  · rintro _ rfl
    have none : ∀ weight : Place α → Nat, weight .outside = 0 →
        total weight (fun _ : ι => Place.outside) = 0 := fun weight zero =>
      (total_eq_zero weight _).mpr fun _ => zero
    exact ⟨by rw [none _ rfl]; rfl, by rw [none _ rfl]; rfl, by rw [none _ rfl]; rfl,
      by rw [none _ rfl]; rfl⟩
  · rintro _ ⟨i, action⟩ _ _ before _ taken
    exact before.step taken

/-- What `size()` reads: at most the pushes begun less the pops that ended with an
element, and the length of the deque when no push is half done and no pop is
between its two steps. -/
structure CounterHolds (s : State ι α) : Prop where
  bounded : s.shared.size + s.shared.finished ≤ s.shared.started
  exact : (∀ i, (s.places i).halfDone = 0) →
    s.shared.size = s.shared.q.length + total Place.taking s.places
  single : total Place.taking s.places = 0 ∨ ∃ i, s.shared.mutex = some i

/-- In every run in which the counter does not wrap it is right. -/
theorem unwrapped_counterHolds {s : State ι α} (reached : (machine ι α).Reaches Unwrapped s) :
    CounterHolds s := by
  have plain : (machine ι α).Reachable s := reached.mono fun _ _ _ => trivial
  have consistent := reachable_consistent plain
  have accounted := reachable_accounted plain
  have size : s.shared.size < 18446744073709551616 ∧
      s.shared.size + s.shared.subtracted = s.shared.counted := by
    refine reached.invariant (fun s => s.shared.size < 18446744073709551616 ∧
      s.shared.size + s.shared.subtracted = s.shared.counted) ?_ ?_
    · rintro _ rfl
      exact ⟨show 0 < 18446744073709551616 by decide, rfl⟩
    · rintro _ ⟨i, action⟩ _ _ ⟨small, exact⟩ unwrapped taken
      exact act_size (step_cases taken).1 unwrapped small exact
  have fifo := congrArg List.length consistent.fifo
  rw [List.length_append] at fifo
  obtain ⟨started, appended, taken, subtracted⟩ := accounted
  constructor
  · omega
  · intro complete
    have none := (total_eq_zero Place.halfDone s.places).mpr complete
    omega
  · by_cases none : total Place.taking s.places = 0
    · exact .inl none
    · obtain ⟨i, takes⟩ := not_forall.mp (mt (total_eq_zero _ _).mpr none)
      refine .inr ⟨i, (consistent.locked i).mp ?_⟩
      cases place : s.places i with
      | fetchSub v => rfl
      | _ =>
          rw [place] at takes
          exact absurd rfl takes

/-- An element is pushed and popped. -/
theorem unwrapped_counterHolds_popped : ∃ s : State (Fin 2) Nat,
    s.shared.finished = 1 ∧ s.shared.size = 0 ∧ CounterHolds s :=
  ⟨_, rfl, rfl, unwrapped_counterHolds (Machine.Reaches.runMeeting (.start rfl)
    [(0, .push 7), (0, .advance), (0, .advance), (0, .advance), (0, .advance), (1, .pop false),
      (1, .advance), (1, .advance), (1, .advance), (1, .advance), (1, .advance), (1, .advance)] rfl)⟩

/-- An element is popped before its push has counted it. -/
theorem not_counterHolds_early : ∃ s : State (Fin 2) Nat,
    (machine (Fin 2) Nat).Reachable s ∧ s.shared.started = 1 ∧ s.shared.finished = 0 ∧
      s.shared.size = 18446744073709551615 :=
  ⟨_, Machine.Reaches.run (.start rfl)
    [(0, .push 7), (0, .advance), (0, .advance), (0, .advance), (1, .pop false), (1, .advance),
      (1, .advance), (1, .advance), (1, .advance), (1, .advance)] rfl, rfl, rfl, rfl⟩

end HyperPlotter.Queue

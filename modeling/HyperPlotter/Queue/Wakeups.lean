import HyperPlotter.Queue.Steps

/-!
# Wake-ups

Who sleeps on the condition variable, and when. An element is announced by the
push that appended it, and no thread falls asleep while there is one. `stop` does
not lock the mutex: its notification can come between the test of a thread and
its sleep, and then nobody wakes that thread.
-/

namespace HyperPlotter.Queue

open Foundation

variable {ι α : Type}

/-- A push has appended its element and will notify. -/
def Place.announces : Place α → Bool
  | .pushUnlock | .fetchAdd | .pushNotify => true
  | _ => false

/-- What a step of a thread from `place` to `place'` does to the flags and to an
announcement. -/
private structure Flags (place : Place α) (s : Shared ι α) (place' : Place α) (s' : Shared ι α) :
    Prop where
  stopped : s'.stopped = s.stopped ∨ place = .stopNotify
  stopping : place' = .stopNotify → s'.exit
  announces : place.announces → place.notifies ∨ place'.announces

/-- A step that begins no `stop`, from a place without an announcement. -/
private theorem Flags.silent {place place' : Place α} {s s' : Shared ι α}
    (stopped : s'.stopped = s.stopped ∨ place = .stopNotify) (elsewhere : place' ≠ .stopNotify)
    (silent : place.announces = false) : Flags place s place' s' where
  stopped := stopped
  stopping := fun stops => absurd stops elsewhere
  announces := fun announces => by simp [silent] at announces

private theorem act_flags {i : ι} {place place' : Place α} {s s' : Shared ι α} {action : Action α}
    (taken : place.act i s action = some (place', s')) : Flags place s place' s' := by
  cases act_transition taken with
  | stop => exact ⟨.inl rfl, fun _ => rfl, by rintro ⟨⟩⟩
  | pushUnlock | fetchAdd => exact ⟨.inl rfl, by rintro ⟨⟩, fun _ => .inr rfl⟩
  | pushNotify => exact ⟨.inl rfl, by rintro ⟨⟩, fun _ => .inl rfl⟩
  | stopNotify => exact .silent (.inr rfl) (by rintro ⟨⟩) rfl
  | _ => exact .silent (.inl rfl) (by rintro ⟨⟩) rfl

@[simp] theorem notified_ne_asleep (place : Place α) (timed : Bool) :
    place.notified ≠ .asleep timed := by
  cases place <;> simp [Place.notified]

@[simp] theorem notified_eq_sleep (place : Place α) (timed : Bool) :
    place.notified = .sleep timed ↔ place = .sleep timed := by
  cases place <;> simp [Place.notified]

@[simp] theorem notified_eq_stopNotify (place : Place α) :
    place.notified = .stopNotify ↔ place = .stopNotify := by
  cases place <;> simp [Place.notified]

section

variable [DecidableEq ι] {s t : State ι α} {i j : ι} {action : Action α}
  (taken : (machine ι α).step s (i, action) = some t)

include taken

/-- A thread that sleeps after a step of another slept before, and was not woken. -/
private theorem asleep_other (other : j ≠ i) {timed : Bool} (asleep : t.places j = .asleep timed) :
    (s.places i).notifies = false ∧ s.places j = .asleep timed := by
  rw [(step_cases taken).2 j other] at asleep
  split at asleep
  · exact absurd asleep (notified_ne_asleep _ _)
  · rename_i silent
    exact ⟨by simpa using silent, asleep⟩

private theorem sleep_other (other : j ≠ i) {timed : Bool} (sleep : t.places j = .sleep timed) :
    s.places j = .sleep timed := by
  rw [(step_cases taken).2 j other] at sleep
  split at sleep
  · exact (notified_eq_sleep _ _).mp sleep
  · exact sleep

private theorem stopNotify_other (other : j ≠ i) (stops : t.places j = .stopNotify) :
    s.places j = .stopNotify := by
  rw [(step_cases taken).2 j other] at stops
  split at stops
  · exact (notified_eq_stopNotify _).mp stops
  · exact stops

end

/-! ## Elements are announced -/

/-- A thread that goes to sleep has found the queue empty, and while some thread
sleeps an element is announced. -/
structure Announced (s : State ι α) : Prop where
  empty : ∀ i timed, s.places i = .sleep timed → s.shared.q = []
  announced : s.shared.q ≠ [] → (∃ i timed, s.places i = .asleep timed) →
    ∃ i, (s.places i).announces

variable [DecidableEq ι] {s t : State ι α} {i : ι} {action : Action α}

private theorem Announced.step (consistent : Consistent s) (before : Announced s)
    (taken : (machine ι α).step s (i, action) = some t) : Announced t := by
  have moves := act_moves (step_cases taken).1
  constructor
  · intro j timed sleep
    by_cases same : j = i
    · subst same
      exact (moves.sleeps timed sleep).2
    · have slept := sleep_other taken same sleep
      have empty := before.empty j timed slept
      rcases moves.deque with held | kept
      · -- both threads would have the mutex
        have owner := (consistent.locked i).mp held
        have own := (consistent.locked j).mp (by rw [slept]; rfl)
        exact absurd (Option.some.inj (own.symm.trans owner)) same
      · exact kept.trans empty
  · rintro some_element ⟨j, timed, asleep⟩
    by_cases same : j = i
    · subst same
      obtain ⟨slept, kept⟩ := moves.asleep timed asleep
      exact absurd (kept.trans (before.empty j timed slept)) some_element
    · obtain ⟨silent, slept⟩ := asleep_other taken same asleep
      rcases moves.announced with none | element | appended
      · exact absurd none some_element
      · obtain ⟨k, announces⟩ := before.announced element ⟨j, timed, slept⟩
        by_cases here : k = i
        · subst here
          rcases (act_flags (step_cases taken).1).announces announces with notifies | still
          · rw [silent] at notifies
            cases notifies
          · exact ⟨k, still⟩
        · refine ⟨k, ?_⟩
          rw [(step_cases taken).2 k here, if_neg (by rw [silent]; exact Bool.false_ne_true)]
          exact announces
      · exact ⟨i, by rw [appended]; rfl⟩

/-- In every reachable state an element in the queue is announced while a thread sleeps. -/
theorem reachable_announced (reached : (machine ι α).Reachable s) : Announced s := by
  refine reached.invariant Announced ?_ ?_
  · rintro _ rfl
    exact ⟨fun _ _ _ => rfl, fun some_element => absurd rfl some_element⟩
  · rintro _ ⟨i, action⟩ _ reached before _ taken
    exact before.step (reachable_consistent reached) taken

/-! ## Stopping -/

/-- The notification of `stop` does not come while a thread that has tested the
flag goes to sleep. -/
def Unraced (s : State ι α) (event : ι × Action α) : Prop :=
  s.places event.1 = .stopNotify → ∀ j timed, s.places j ≠ .sleep timed

/-- After a `stop` nobody sleeps or goes to sleep. -/
structure Stopped (s : State ι α) : Prop where
  stopping : ∀ i, s.places i = .stopNotify → s.shared.exit
  exited : s.shared.stopped → s.shared.exit
  awake : s.shared.stopped → ∀ i timed, s.places i ≠ .asleep timed ∧ s.places i ≠ .sleep timed

private theorem Stopped.step (before : Stopped s) (unraced : Unraced s (i, action))
    (taken : (machine ι α).step s (i, action) = some t) : Stopped t := by
  have moves := act_moves (step_cases taken).1
  obtain ⟨flag, stopping, _⟩ := act_flags (step_cases taken).1
  have kept : s.shared.exit → t.shared.exit := fun set => by
    rcases moves.exit with same | now
    · rw [same]
      exact set
    · exact now
  have stop : t.shared.stopped → s.shared.stopped ∨ s.places i = .stopNotify := fun halted =>
    flag.imp_left fun same => by
      rw [← same]
      exact halted
  constructor
  · intro j notify
    by_cases same : j = i
    · subst same
      exact stopping notify
    · exact kept (before.stopping j (stopNotify_other taken same notify))
  · intro halted
    exact kept ((stop halted).elim before.exited fun here => before.stopping i here)
  · intro halted j timed
    have set : t.shared.exit := kept ((stop halted).elim before.exited fun here =>
      before.stopping i here)
    by_cases same : j = i
    · subst same
      constructor
      · intro asleep
        have slept := (moves.asleep timed asleep).1
        rcases stop halted with earlier | here
        · exact (before.awake earlier j timed).2 slept
        · rw [slept] at here
          cases here
      · intro sleep
        rw [(moves.sleeps timed sleep).1] at set
        cases set
    · constructor
      · intro asleep
        obtain ⟨silent, slept⟩ := asleep_other taken same asleep
        rcases stop halted with earlier | here
        · exact (before.awake earlier j timed).1 slept
        · rw [here] at silent
          cases silent
      · intro sleep
        have slept := sleep_other taken same sleep
        rcases stop halted with earlier | here
        · exact (before.awake earlier j timed).2 slept
        · exact unraced here j timed slept

/-- Nobody sleeps on after a `stop`, nor beside elements whose pushes are over. -/
structure WakesAll (s : State ι α) : Prop where
  stopped : s.shared.stopped → ∀ i timed, s.places i ≠ .asleep timed
  pushed : s.shared.q ≠ [] → (∀ i, ¬(s.places i).announces) → ∀ i timed, s.places i ≠ .asleep timed

/-- In every run without that race no wake-up is lost. -/
theorem unraced_wakesAll (reached : (machine ι α).Reaches Unraced s) : WakesAll s := by
  have quiet : Stopped s := by
    refine reached.invariant Stopped ?_ ?_
    · rintro _ rfl
      exact ⟨nofun, nofun, nofun⟩
    · rintro _ ⟨i, action⟩ _ _ before unraced taken
      exact before.step unraced taken
  have announced := reachable_announced (reached.mono fun _ _ _ => trivial)
  constructor
  · exact fun halted i timed => (quiet.awake halted i timed).1
  · intro element complete i timed asleep
    obtain ⟨j, announces⟩ := announced.announced element ⟨i, timed, asleep⟩
    exact complete j announces

instance [DecidableEq α] (s : State (Fin 2) α) (event : Fin 2 × Action α) :
    Decidable (Unraced s event) :=
  inferInstanceAs (Decidable (_ → ∀ j : Fin 2, ∀ timed : Bool, s.places j ≠ .sleep timed))

/-- A thread sleeps, an element comes, and then the queue is stopped. -/
theorem unraced_wakesAll_pushed : ∃ s : State (Fin 2) Nat,
    s.shared.q = [7] ∧ s.shared.stopped ∧ s.places 0 = .woken false false ∧ WakesAll s :=
  ⟨_, rfl, rfl, rfl, unraced_wakesAll (Machine.Reaches.runMeeting (.start rfl)
    [(0, .pop false), (0, .advance), (0, .advance), (0, .advance), (0, .advance), (0, .advance),
      (1, .push 7), (1, .advance), (1, .advance), (1, .advance), (1, .advance), (1, .advance),
      (1, .stop), (1, .advance)] rfl)⟩

/-- `stop` notifies between the test of a thread and its sleep. -/
theorem not_wakesAll_stop : ∃ s : State (Fin 2) Nat,
    (machine (Fin 2) Nat).Reachable s ∧ s.shared.stopped ∧ s.places 0 = .asleep false :=
  ⟨_, Machine.Reaches.run (.start rfl) [(0, .pop false), (0, .advance), (0, .advance), (0, .advance),
    (0, .advance), (1, .stop), (1, .advance), (0, .advance)] rfl, rfl, rfl⟩

end HyperPlotter.Queue

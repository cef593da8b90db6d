/-!
# Independent tasks in any order

Tasks which only touch their own part of a shared state may run in any order:
each one finds its part as it was and leaves the others' parts as they were.
-/

namespace HyperPlotter.Foundation

variable {State Task : Type} (run : State → Task → State)

/-- What each task needs and establishes, undisturbed by the other tasks. -/
structure Independent (Before After : Task → State → Prop) : Prop where
  establishes : ∀ {task state}, Before task state → After task (run state task)
  keepsBefore : ∀ {task other state}, other ≠ task → Before task state →
    Before task (run state other)
  keepsAfter : ∀ {task other state}, other ≠ task → After task state →
    After task (run state other)

variable {run} {Before After : Task → State → Prop}

/-- A finished task stays finished while others run. -/
theorem Independent.after_of_notMem (independent : Independent run Before After) {task : Task}
    {order : List Task} (absent : task ∉ order) {state : State} (done : After task state) :
    After task (order.foldl run state) := by
  induction order generalizing state with
  | nil => exact done
  | cons head rest ih =>
      rw [List.mem_cons, not_or] at absent
      exact ih absent.2 (independent.keepsAfter (Ne.symm absent.1) done)

/-- Running distinct tasks one after the other finishes each of them. -/
theorem Independent.foldl (independent : Independent run Before After) {order : List Task}
    (distinct : order.Nodup) {state : State} (ready : ∀ task, task ∈ order → Before task state) :
    ∀ task, task ∈ order → After task (order.foldl run state) := by
  induction order generalizing state with
  | nil =>
      intro task member
      cases member
  | cons head rest ih =>
      obtain ⟨fresh, restDistinct⟩ := List.nodup_cons.mp distinct
      intro task member
      rcases List.mem_cons.mp member with rfl | later
      · exact independent.after_of_notMem fresh
          (independent.establishes (ready task List.mem_cons_self))
      · refine ih restDistinct (fun other otherMember => ?_) task later
        have differ : head ≠ other := fun same => fresh (same ▸ otherMember)
        exact independent.keepsBefore differ (ready other (List.mem_cons_of_mem _ otherMember))

end HyperPlotter.Foundation

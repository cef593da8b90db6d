import Mathlib.Algebra.Order.BigOperators.Group.Finset
import HyperPlotter.Pipeline.Delivery

/-!
# What is left to do

Every nonce no hash task has been made for and every task in flight counts, a task
the less the further it is. No event adds to the sum, and an event that takes
nothing from it moves no task.
-/

namespace HyperPlotter.Pipeline

open Foundation Poc Interaction

namespace System

variable (setup : PlotterSetup)

/-- What is queued for writer `i` and in its hands. -/
def writerLoad (s : System) (i : Nat) : Nat :=
  3 * (s.queues i).length + 2 * (s.threads i).inHand.length

/-- The work left. -/
def workload (s : System) : Nat :=
  6 * (s.dispatcher.remaining setup).toNat + 5 * s.hasherQueue.length +
    4 * s.hasher.task.toList.length + ∑ i ∈ Finset.range setup.plans.length, s.writerLoad i +
    s.reports.length

/-- No task has moved and none was made. -/
structure Unmoved (s t : System) : Prop where
  remaining : t.dispatcher.remaining setup = s.dispatcher.remaining setup
  hasherQueue : t.hasherQueue = s.hasherQueue
  hasher : t.hasher.task = s.hasher.task
  queues : ∀ i, i < setup.plans.length → t.queues i = s.queues i
  inHand : ∀ i, i < setup.plans.length → (t.threads i).inHand = (s.threads i).inHand
  reports : t.reports = s.reports

variable {setup} {s t u : System}

/-- Nothing has moved. -/
theorem Unmoved.refl (s : System) : Unmoved setup s s :=
  ⟨rfl, rfl, rfl, fun _ _ => rfl, fun _ _ => rfl, rfl⟩

/-- Nothing has moved in two steps. -/
theorem Unmoved.trans (first : Unmoved setup s t) (second : Unmoved setup t u) :
    Unmoved setup s u where
  remaining := second.remaining.trans first.remaining
  hasherQueue := second.hasherQueue.trans first.hasherQueue
  hasher := second.hasher.trans first.hasher
  queues i inside := (second.queues i inside).trans (first.queues i inside)
  inHand i inside := (second.inHand i inside).trans (first.inHand i inside)
  reports := second.reports.trans first.reports

/-- The work left is that of the tasks where they are. -/
theorem Unmoved.workload (unmoved : Unmoved setup s t) :
    t.workload setup = s.workload setup := by
  have loads : ∀ i ∈ Finset.range setup.plans.length, t.writerLoad i = s.writerLoad i := by
    intro i member
    have inside := Finset.mem_range.mp member
    simp only [writerLoad, unmoved.queues i inside, unmoved.inHand i inside]
  simp only [System.workload, unmoved.remaining, unmoved.hasherQueue, unmoved.hasher,
    Finset.sum_congr rfl loads, unmoved.reports]

/-- One writer's load changes. -/
theorem sum_writerLoad {i : Nat} (inside : i < setup.plans.length)
    (others : ∀ j, j ≠ i → t.writerLoad j = s.writerLoad j) :
    ∑ j ∈ Finset.range setup.plans.length, t.writerLoad j + s.writerLoad i =
      ∑ j ∈ Finset.range setup.plans.length, s.writerLoad j + t.writerLoad i := by
  have member := Finset.mem_range.mpr inside
  have rest : ∑ j ∈ (Finset.range setup.plans.length).erase i, t.writerLoad j =
      ∑ j ∈ (Finset.range setup.plans.length).erase i, s.writerLoad j :=
    Finset.sum_congr rfl fun j other => others j (Finset.ne_of_mem_erase other)
  rw [← Finset.sum_erase_add _ _ member, ← Finset.sum_erase_add _ s.writerLoad member, rest]
  omega

/-- A writer that goes on with the same task. -/
private theorem thread_unmoved {i : Nat} {thread : WriterThread}
    (inHand : thread.inHand = (s.threads i).inHand) :
    Unmoved setup s { s with threads := Function.update s.threads i thread } := by
  refine ⟨rfl, rfl, rfl, fun _ _ => rfl, fun j _ => ?_, rfl⟩
  by_cases same : j = i
  · subst same
    simp [inHand]
  · simp [same]

/-- A decision without a task takes no nonces, one with a task does. -/
private theorem dispatch_workload (valid : setup.Valid)
    (balanced : Balanced setup s.dispatcher (s.inFlight setup))
    (place : s.dispatcher.place = .deciding) (hasherSize : Nat) (writerSize : Nat → Nat)
    {choice : MemoryChoice}
    (fresh : ∀ data ∈ choice.fresh, s.dispatcher.allocator.Fresh ⟨data, setup.blockSize⟩) :
    (s.dispatch setup hasherSize writerSize choice).workload setup < s.workload setup ∨
      Unmoved setup s (s.dispatch setup hasherSize writerSize choice) := by
  have few := balanced.deciding place
  have cut := balanced.dispatch_remaining valid few hasherSize writerSize fresh
  have after := balanced.dispatch valid place hasherSize writerSize fresh
  have left := after.remaining_nonneg
  cases made : (s.dispatcher.dispatch setup hasherSize writerSize choice).1 with
  | none =>
      rw [made, Option.toList_none, flyingNonces_nil, Int.add_zero] at cut
      refine .inr ⟨cut, ?_, rfl, fun _ _ => rfl, fun _ _ => rfl, rfl⟩
      simp [dispatch, made]
  | some task =>
      rw [made, Option.toList_some] at cut after
      rw [flyingNonces_cons, flyingNonces_nil] at cut
      have positive := (after.known task (by simp)).positive
      refine .inl ?_
      simp only [workload, dispatch, made, Option.toList_some, List.length_append,
        List.length_singleton, writerLoad]
      omega

/-- The hasher takes a task, or delivers it, or moves none. -/
private theorem hash_workload (known : ∀ task ∈ s.inFlight setup, Known setup task)
    (move : Move setup s .hasher t) :
    t.workload setup < s.workload setup ∨ Unmoved setup s t := by
  cases move with
  | hasherHead here =>
      refine .inr ⟨rfl, rfl, ?_, fun _ _ => rfl, fun _ _ => rfl, rfl⟩
      simp only [here]
      split <;> rfl
  | hasherExit here => exact .inr ⟨rfl, rfl, by rw [here]; rfl, fun _ _ => rfl, fun _ _ => rfl, rfl⟩
  | hasherLeave here _ queued =>
      refine .inl ?_
      simp [workload, here, queued, HasherPlace.task, writerLoad]
  | hasherTake here _ queued =>
      refine .inl ?_
      simp [workload, here, queued, HasherPlace.task, writerLoad]
      omega
  | hasherPlot here => exact .inr ⟨rfl, rfl, by rw [here]; rfl, fun _ _ => rfl, fun _ _ => rfl, rfl⟩
  | @hasherDeliver task here =>
      have inside := (known task (by simp [inFlight, here, HasherPlace.task])).writer
      refine .inl ?_
      have moved := sum_writerLoad (s := s) (t := { s with
        hasher := .head
        queues := Function.update s.queues task.writer (s.queues task.writer ++ [task]) }) inside
        fun j other => by simp [writerLoad, other]
      simp only [writerLoad, Function.update_self, List.length_append, List.length_singleton]
        at moved
      simp only [workload, here, HasherPlace.task, Option.toList_some, Option.toList_none,
        List.length_singleton, List.length_nil, writerLoad]
      omega

/-- A writer takes a task, or reports it, or moves none. -/
private theorem write_workload (orderly : WritersOrderly s) {i : Nat} {outcome : Outcome}
    (move : Move setup s (.writer i outcome) t) :
    t.workload setup < s.workload setup ∨ Unmoved setup s t := by
  have emptyHanded : ∀ {next}, (s.threads i).program = .ask .pop next →
      (s.threads i).inHand = [] := by
    intro next asks
    have discipline := orderly i
    rw [asks] at discipline
    simp [WriterThread.inHand, discipline.1 rfl]
  have popped : ∀ next choice,
      ((s.threads i).answer .pop next choice).inHand = choice.task.toList := by
    intro next choice
    cases given : choice.task <;> simp [WriterThread.inHand, WriterThread.answer,
      WriterState.respond, given]
  cases move with
  | turn inside done => exact .inr (thread_unmoved rfl)
  | popNothing inside asks exit =>
      refine .inr (thread_unmoved ?_)
      simp [popped, emptyHanded asks, choice_nothing exit]
  | @pop _ _ next task rest inside asks running queued =>
      refine .inl ?_
      have moved := sum_writerLoad (s := s) (t := { s.answer i .pop next outcome with
        queues := Function.update s.queues i rest }) inside
        fun j other => by simp [writerLoad, answer, other]
      simp only [writerLoad, answer, Function.update_self, popped, emptyHanded asks, queued,
        choice_task running queued, Option.toList_some, List.length_cons, List.length_nil] at moved
      simp only [workload, answer, writerLoad]
      omega
  | @report _ _ next inside asks =>
      have reported : ∀ choice, ((s.threads i).answer .report next choice).inHand = [] :=
        fun _ => rfl
      cases mine : (s.threads i).inHand with
      | nil =>
          refine .inr ⟨rfl, rfl, rfl, fun _ _ => rfl, fun j _ => ?_, by simp⟩
          by_cases same : j = i
          · subst same
            simp [answer, reported, mine]
          · simp [answer, same]
      | cons task others =>
          refine .inl ?_
          have moved := sum_writerLoad (s := s) (t := { s.answer i .report next outcome with
            reports := s.reports ++ (task :: others) }) inside
            fun j other => by simp [writerLoad, answer, other]
          simp only [writerLoad, answer, Function.update_self, reported, mine, List.length_nil,
            List.length_cons] at moved
          simp only [workload, answer, writerLoad, List.length_append, List.length_cons]
          omega
  | other inside asks quiet =>
      refine .inr (thread_unmoved ?_)
      have same := WriterState.respond_quiet quiet (s.choice i outcome) (s.threads i).state
      simp [WriterThread.inHand, WriterThread.answer, same.1]

/-- No event adds to the work left, and one that takes nothing from it moves no task. -/
theorem step_workload (valid : setup.Valid)
    (balanced : Balanced setup s.dispatcher (s.inFlight setup)) (orderly : WritersOrderly s)
    {event : SystemEvent} (taken : s.step setup event = some t) :
    t.workload setup < s.workload setup ∨ Unmoved setup s t := by
  have move := step_move taken
  cases event with
  | hasher => exact hash_workload balanced.known move
  | writer i outcome => exact write_workload orderly move
  | interrupt =>
      cases move
      exact .inr ⟨rfl, rfl, rfl, fun _ _ => rfl, fun _ _ => rfl, rfl⟩
  | close worker =>
      cases move
      unfold close
      split <;> exact .inr ⟨rfl, rfl, rfl, fun _ _ => rfl, fun _ _ => rfl, rfl⟩
  | poll =>
      cases move
      exact .inr ⟨rfl, rfl, rfl, fun _ _ => rfl, fun _ _ => rfl, rfl⟩
  | receive timeout =>
      cases move with
      | timeout =>
          refine .inr ⟨?_, rfl, rfl, fun _ _ => rfl, fun _ _ => rfl, rfl⟩
          simp only [Dispatcher.remaining, (receive_side setup s.dispatcher none).2]
      | @receive report rest place reported =>
          refine .inl ?_
          simp only [workload, Dispatcher.remaining,
            (receive_side setup s.dispatcher (some report)).2, reported, List.length_cons,
            writerLoad]
          omega
  | dispatch hasherSize writerSize choice =>
      cases move with
      | dispatch place fresh =>
          exact dispatch_workload valid balanced place hasherSize writerSize fresh

end System

end HyperPlotter.Pipeline

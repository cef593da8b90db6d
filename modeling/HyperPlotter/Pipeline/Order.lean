import Mathlib.Data.List.Chain
import HyperPlotter.Pipeline.Delivery
import HyperPlotter.Pipeline.Tally

/-!
# The order of a writer's hash tasks

A writer pops its hash tasks in the order `next_hasher_task` made them: file by
file, and each file from its first nonce to its last. A task of another file
comes when the file before is complete.
-/

namespace HyperPlotter.Pipeline

open Foundation Poc

/-! ## Series -/

section

variable {plan : List PlannedFile} {tasks : List HasherTask}

/-- No task of a file comes after those that complete it. -/
theorem Sequence.none_after {earlier later : List HasherTask}
    (sequence : Sequence plan (earlier ++ later)) {k : Nat} {file : PlannedFile}
    (found : plan[k]? = some file) (complete : file.nonces ≤ issuedNonces k earlier) :
    ∀ task ∈ later, task.currentWriteTask ≠ (k : Int) := by
  intro task member current
  obtain ⟨before, after, rfl⟩ := List.append_of_mem member
  rw [← List.append_assoc] at sequence
  obtain ⟨index, other, next⟩ := sequence.continues
  obtain rfl : index = k := Int.ofNat_inj.mp (next.current.symm.trans current)
  obtain rfl : other = file := Option.some.inj (next.found.symm.trans found)
  have fits := next.fits
  have positive := next.positive
  have between : 0 ≤ issuedNonces index before :=
    issuedNonces_nonneg (fun task member => (sequence.of_append _).positive
      (List.mem_append_right _ member)) index
  rw [issuedNonces_append] at fits
  omega

/-- Task `b` begins where task `a` of the same file ends. -/
def Adjoins (file : PlannedFile) (a b : HasherTask) : Prop :=
  b.sn = toUInt64 (a.sn + a.nonces) ∧
    (file.sn + file.nonces ≤ 18446744073709551616 → (b.sn : Int) = a.sn + a.nonces)

/-- The tasks of one file, without gaps from its first nonce on. -/
structure Contiguous (file : PlannedFile) (tasks : List HasherTask) : Prop where
  first : ∀ task ∈ tasks.head?, task.sn = file.sn
  chain : tasks.IsChain (Adjoins file)

/-- Where the last task of a file ends. -/
private theorem Sequence.last_end (valid : ∀ file ∈ plan, file.Valid)
    (sequence : Sequence plan tasks) {k : Nat} {file : PlannedFile} (found : plan[k]? = some file)
    {last : HasherTask}
    (ends : (tasks.filter (fun task => task.currentWriteTask = (k : Int))).getLast? = some last) :
    last.sn = toUInt64 (file.sn + (issuedNonces k tasks - last.nonces)) ∧
      last.nonces ≤ issuedNonces k tasks := by
  induction sequence with
  | nil => cases ends
  | @snoc earlier task index other prior next ih =>
      rw [List.filter_append, List.filter_singleton] at ends
      rw [issuedNonces_append, issuedNonces_singleton]
      by_cases same : task.currentWriteTask = (k : Int)
      · obtain rfl : index = k := Int.ofNat_inj.mp (next.current.symm.trans same)
        obtain rfl : other = file := Option.some.inj (next.found.symm.trans found)
        obtain rfl : task = last := by simpa [same] using ends
        have lower := (prior.issued_le (PlannedFile.typed valid) found).1
        rw [if_pos same]
        exact ⟨next.start.trans (congrArg _ (by omega)), by omega⟩
      · rw [if_neg same, Int.add_zero]
        exact ih (by simpa [same] using ends)

/-- The tasks of one file in a series are contiguous. -/
theorem Sequence.contiguous (valid : ∀ file ∈ plan, file.Valid)
    (sequence : Sequence plan tasks) {k : Nat} {file : PlannedFile} (found : plan[k]? = some file) :
    Contiguous file (tasks.filter (fun task => task.currentWriteTask = (k : Int))) := by
  induction sequence with
  | nil => exact ⟨by rintro _ ⟨⟩, .nil⟩
  | @snoc earlier task index other prior next ih =>
      rw [List.filter_append, List.filter_singleton]
      by_cases same : task.currentWriteTask = (k : Int)
      · obtain rfl : index = k := Int.ofNat_inj.mp (next.current.symm.trans same)
        obtain rfl : other = file := Option.some.inj (next.found.symm.trans found)
        simp only [same, decide_true, cond_true]
        refine ⟨fun first here => ?_, ih.chain.append (List.isChain_singleton _) fun a last b here => ?_⟩
        · rw [List.head?_append] at here
          cases none : (earlier.filter fun task => task.currentWriteTask = (index : Int)) with
          | cons head rest => exact ih.first first (by simpa [none] using here)
          | nil =>
              obtain rfl : task = first := by simpa [none] using here
              have small := (valid other (List.mem_of_getElem? found)).start
              rw [next.start, issuedNonces_of_none none, Int.add_zero, toUInt64_natCast small]
        · obtain rfl : task = b := by simpa using here
          obtain ⟨start, size⟩ := prior.last_end valid found last
          have some_nonces := prior.positive (List.mem_filter.mp (List.mem_of_getLast? last)).1
          have begins := next.start
          have fits := next.fits
          have positive := next.positive
          constructor
          · rw [begins, start]
            unfold toUInt64
            omega
          · intro unwrapped
            rw [begins, start]
            unfold toUInt64
            omega
      · simp only [same, decide_false, cond_false, List.append_nil]
        exact ih

end

/-! ## Histories -/

namespace System

/-- What `next_hasher_task` of writer `i` returns to the dispatcher. -/
def returned (setup : PlotterSetup) (i : Nat) (s : System) : SystemEvent → List HasherTask
  | .dispatch hasherSize writerSize choice =>
    (s.dispatcher.dispatch setup hasherSize writerSize choice).1.toList.filter
      (fun task => task.writer = i)
  | _ => []

/-- The hash task writer `i` pops. -/
def popped (i : Nat) (s : System) : SystemEvent → List HasherTask
  | .writer j outcome =>
    match (s.threads i).program with
    | .ask .pop _ => if j = i then (s.choice i outcome).task.toList else []
    | _ => []
  | _ => []

/-- The file for which `submit_nonces` of writer `i` returns true. -/
def completed (i : Nat) (s : System) : SystemEvent → List Nat
  | .writer j _ =>
    match (s.threads i).program with
    | .ask (.submit file nonces initNonces) _ =>
      if j = i ∧ (submitNonces ((s.threads i).state.submitted file) initNonces nonces).1 then [file]
      else []
    | _ => []
  | _ => []

variable {setup : PlotterSetup} {s t : System}

/-- A writer is handed tasks by the dispatcher only. -/
theorem step_returned (valid : setup.Valid) (reached : setup.machine.Reachable s)
    {event : SystemEvent} (taken : s.step setup event = some t) (i : Nat) :
    t.issued i = s.issued i ++ s.returned setup i event := by
  obtain ⟨balanced, orderly⟩ := reachable_balanced valid reached
  cases step_flow balanced.known orderly taken with
  | pass _ passed elsewhere =>
      have nothing : s.returned setup i event = [] := by
        cases event with
        | dispatch hasherSize writerSize choice =>
            exact absurd rfl (elsewhere hasherSize writerSize choice)
        | _ => rfl
      rw [nothing, List.append_nil, passed.issued]
  | poll _ passed => exact (passed.issued i).trans (List.append_nil _).symm
  | timeout _ passed => exact (passed.issued i).trans (List.append_nil _).symm
  | report _ _ _ _ issued => exact (issued i).trans (List.append_nil _).symm
  | dispatch _ _ _ _ _ _ _ issued => exact issued i

/-- A writer takes tasks off its queue only when it pops. -/
theorem step_popped (orderly : WritersOrderly s) {event : SystemEvent}
    (taken : s.step setup event = some t) (i : Nat) :
    (t.threads i).state.popped = (s.threads i).state.popped ++ s.popped i event := by
  cases step_thread taken i with
  | away elsewhere same =>
      have nothing : s.popped i event = [] := by
        unfold popped
        split
        · rename_i j outcome
          split
          · refine if_neg fun own => ?_
            exact elsewhere outcome (by rw [own])
          · rfl
        · rfl
      rw [same, nothing, List.append_nil]
  | turn own done turned =>
      subst own
      unfold popped
      rw [turned, done]
      exact (List.append_nil _).symm
  | @answer outcome request next own asks answered =>
      subst own
      have discipline := orderly i
      rw [asks] at discipline
      unfold popped
      rw [answered, asks]
      cases request with
      | pop =>
          simp only [if_true]
          exact WriterState.popped_pop (discipline.1 rfl) _
      | report =>
          refine Eq.trans ?_ (List.append_nil _).symm
          unfold WriterState.popped WriterThread.answer
          rw [WriterState.reported_report]
          exact List.append_nil _
      | _ =>
          refine (WriterState.respond_quiet ?_ (s.choice i outcome)
            (s.threads i).state).popped.trans (List.append_nil _).symm
          exact ⟨by rintro ⟨⟩, by rintro ⟨⟩⟩

/-- What a writer has been issued begins with what it has popped. -/
theorem issued_eq (s : System) (i : Nat) : s.issued i = (s.threads i).state.popped ++
    (s.queues i ++ (s.hasher.task.toList ++ s.hasherQueue).filter (fun task => task.writer = i)) := by
  unfold issued WriterState.popped WriterThread.inHand
  simp only [List.append_assoc]

/-- In every run a writer's tasks are a series. -/
theorem reachable_ordered (valid : setup.Valid) (run : setup.machine.Reachable s) :
    Ordered setup s := by
  refine Machine.Reaches.invariant (Ordered setup) (fun start => Start.ordered valid start)
    (fun reached ordered _ taken => ?_) run
  obtain ⟨balanced, orderly⟩ := reachable_balanced valid reached
  exact ordered.step valid balanced (step_flow balanced.known orderly taken)

end System

end HyperPlotter.Pipeline

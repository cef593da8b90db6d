import HyperPlotter.Pipeline.Tasks
import Mathlib.Algebra.Order.BigOperators.Group.List
import Mathlib.Algebra.Order.Group.Int
import Mathlib.Data.Nat.Find
import Mathlib.Logic.Function.Basic

/-!
# Handing out a writer's files

Calls of `next_hasher_task` one after the other, each with a work size and a block of
its own, and the submissions of the tasks they gave out, in any order.
-/

namespace HyperPlotter.Pipeline

open Foundation

/-! ## The calls -/

section Calls

variable (plan : List PlannedFile) (writer : Nat) (gws : Nat → Int) (blocks : Nat → Nat)

/-- The tasks of the first `n` calls, with `cur_writer_task_index_` and
`writer_tasks_` after them. -/
def calls : Nat → List HasherTask × Nat × List WriterTask
  | 0 => ([], 0, plan.map WriterTask.new)
  | n + 1 =>
    let before := calls n
    let answer := nextHasherTask (gws n) writer (blocks n) before.2.1 before.2.2
    (before.1 ++ answer.1.toList, answer.2)

/-- What call `n` returns. -/
def callAnswer (n : Nat) : Option HasherTask :=
  (nextHasherTask (gws n) writer (blocks n) (calls plan writer gws blocks n).2.1
    (calls plan writer gws blocks n).2.2).1

variable {plan gws}

/-- The calls issue the files in order. -/
theorem calls_issued (typed : ∀ file ∈ plan, file.Typed) (positive : ∀ n, 0 < gws n) (n : Nat) :
    Issued plan (calls plan writer gws blocks n).1 (calls plan writer gws blocks n).2.1
      (calls plan writer gws blocks n).2.2 := by
  induction n with
  | zero => exact .initial typed
  | succ n ih => exact (ih.nextHasherTask_answer typed (positive n) writer (blocks n)).state

/-- What a call may return, given the tasks of the calls before. -/
theorem callAnswer_answer (typed : ∀ file ∈ plan, file.Typed) (positive : ∀ n, 0 < gws n)
    (n : Nat) : Issued.Answer plan (calls plan writer gws blocks n).1 (gws n) writer (blocks n)
      (nextHasherTask (gws n) writer (blocks n) (calls plan writer gws blocks n).2.1
        (calls plan writer gws blocks n).2.2) :=
  (calls_issued writer blocks typed positive n).nextHasherTask_answer typed (positive n) writer
    (blocks n)

private theorem remainingNonces_nonneg {tasks : List WriterTask} (counting : Counting tasks) :
    0 ≤ remainingNonces tasks := by
  refine List.sum_nonneg ?_
  intro nonces member
  obtain ⟨task, listed, rfl⟩ := List.mem_map.mp member
  exact (counting task listed).1

/-- As long as there are tasks, each takes something off the counters. -/
private theorem calls_remaining (typed : ∀ file ∈ plan, file.Typed) (positive : ∀ n, 0 < gws n)
    (n : Nat) (answered : ∀ m < n, callAnswer plan writer gws blocks m ≠ none) :
    Counting (calls plan writer gws blocks n).2.2 ∧
      remainingNonces (calls plan writer gws blocks n).2.2 + n ≤
        remainingNonces (plan.map WriterTask.new) := by
  induction n with
  | zero =>
      refine ⟨fun task member => ?_, Int.le_of_eq (Int.add_zero _)⟩
      obtain ⟨file, planned, rfl⟩ := List.mem_map.mp member
      obtain ⟨_, nonempty, bounded⟩ := typed file planned
      exact ⟨Int.le_of_lt nonempty, bounded⟩
  | succ n ih =>
      obtain ⟨counting, bound⟩ := ih fun m early => answered m (Nat.lt_succ_of_lt early)
      have taken := nextHasherTask_taken (positive n) writer (blocks n)
        (calls plan writer gws blocks n).2.1 counting
      refine ⟨taken.counting, ?_⟩
      obtain ⟨task, answer⟩ := Option.ne_none_iff_exists'.mp (answered n (Nat.lt_succ_self n))
      have less := taken.remaining task answer
      have some_nonces := taken.positive task answer
      show remainingNonces (nextHasherTask (gws n) writer (blocks n)
        (calls plan writer gws blocks n).2.1 (calls plan writer gws blocks n).2.2).2.2 + _ ≤ _
      omega

/-- Some call finds every file handed out. -/
theorem exists_callAnswer_none (typed : ∀ file ∈ plan, file.Typed) (positive : ∀ n, 0 < gws n) :
    ∃ n, callAnswer plan writer gws blocks n = none := by
  by_contra answered
  rw [not_exists] at answered
  obtain ⟨counting, bound⟩ := calls_remaining writer blocks typed positive
    ((remainingNonces (plan.map WriterTask.new)).toNat + 1) fun m _ => answered m
  have lower := remainingNonces_nonneg counting
  omega

/-- After it every call returns null, and no more tasks are given out. -/
theorem callAnswer_exhausted (typed : ∀ file ∈ plan, file.Typed) (positive : ∀ n, 0 < gws n)
    {last : Nat} (none : callAnswer plan writer gws blocks last = none) (n : Nat) (later : last ≤ n) :
    (calls plan writer gws blocks n).1 = (calls plan writer gws blocks last).1 ∧
      callAnswer plan writer gws blocks n = Option.none := by
  have complete := (callAnswer_answer writer blocks typed positive last).exhausted none
  induction n, later using Nat.le_induction with
  | base => exact ⟨rfl, none⟩
  | succ n later ih =>
      have same : (calls plan writer gws blocks (n + 1)).1 =
          (calls plan writer gws blocks last).1 := by
        rw [calls, ← ih.1]
        show _ ++ (callAnswer plan writer gws blocks n).toList = _
        rw [ih.2, Option.toList_none, List.append_nil]
      refine ⟨same, ?_⟩
      by_contra more
      obtain ⟨task, answer⟩ := Option.ne_none_iff_exists'.mp more
      obtain ⟨_, _, index, file, next, _⟩ :=
        (callAnswer_answer writer blocks typed positive (n + 1)).task task answer
      have fits := next.fits
      have positive := next.positive
      rw [same, complete index file next.found] at fits
      omega

end Calls

/-! ## The parts of the files -/

/-- The tasks cut a file from its first nonce to its last, one behind the other. -/
structure Cut (file : PlannedFile) (index : Nat) (tasks : List HasherTask) : Prop where
  each : ∀ earlier task later, tasks = earlier ++ task :: later →
    task.currentWriteTask = (index : Int) ∧ task.pid = file.pid ∧ 0 < task.nonces ∧
      task.sn = toUInt64 (file.sn + (earlier.map HasherTask.nonces).sum)
  total : (tasks.map HasherTask.nonces).sum = file.nonces

/-- The tasks are those of the first file, then those of the second, and so on. -/
structure Partition (plan : List PlannedFile) (tasks : List HasherTask) : Prop where
  ordered : tasks.Pairwise fun first second => first.currentWriteTask ≤ second.currentWriteTask
  indexed : ∀ task ∈ tasks, ∃ index < plan.length, task.currentWriteTask = (index : Int)
  cut : ∀ (index : Nat) (file : PlannedFile), plan[index]? = some file →
    Cut file index (tasks.filter fun task => task.currentWriteTask = (index : Int))

/-- Either a file has no task and nothing issued, or some of both. -/
theorem issuedNonces_cases {tasks : List HasherTask} (positive : ∀ task ∈ tasks, 0 < task.nonces)
    (i : Nat) :
    (tasks.filter fun task => task.currentWriteTask = (i : Int)).length = 0 ∧
        issuedNonces i tasks = 0 ∨
      (∃ n, (tasks.filter fun task => task.currentWriteTask = (i : Int)).length = n + 1) ∧
        0 < issuedNonces i tasks := by
  cases own : tasks.filter fun task => task.currentWriteTask = (i : Int) with
  | nil =>
      refine .inl ⟨rfl, ?_⟩
      rw [issuedNonces_eq_sum, own]
      rfl
  | cons task rest =>
      obtain ⟨inside, current⟩ := List.mem_filter.mp (own ▸ List.mem_cons_self ..)
      exact .inr ⟨⟨rest.length, rfl⟩, issuedNonces_pos positive inside (of_decide_eq_true current)⟩

namespace Sequence

variable {plan : List PlannedFile} {tasks : List HasherTask}

/-- A complete series is a partition of the files. -/
theorem partition (sequence : Sequence plan tasks)
    (complete : ∀ i file, plan[i]? = some file → issuedNonces i tasks = file.nonces) :
    Partition plan tasks where
  ordered := sequence.ascending
  indexed := by
    intro task member
    obtain ⟨earlier, later, rfl⟩ := List.append_of_mem member
    obtain ⟨index, file, next⟩ := sequence.continues
    exact ⟨index, (List.getElem?_eq_some_iff.mp next.found).1, next.current⟩
  cut := by
    intro index file found
    refine ⟨fun earlier task later split => ?_, ?_⟩
    · obtain ⟨before, rest, rfl, first, remains⟩ := List.filter_eq_append_iff.mp split
      obtain ⟨between, after, rfl, skipped, current, -⟩ := List.filter_eq_cons_iff.mp remains
      have current : task.currentWriteTask = (index : Int) := by simpa using current
      rw [← List.append_assoc] at sequence
      obtain ⟨i, other, next⟩ := sequence.continues
      obtain rfl : i = index := Int.natCast_inj.mp (next.current.symm.trans current)
      obtain rfl : other = file := Option.some.inj (next.found.symm.trans found)
      refine ⟨current, next.pid, next.positive, ?_⟩
      have none : between.filter (fun task => task.currentWriteTask = (i : Int)) = [] :=
        List.filter_eq_nil_iff.mpr skipped
      rw [next.start, issuedNonces_eq_sum, List.filter_append, first, none, List.append_nil]
    · rw [← issuedNonces_eq_sum]
      exact complete index file found

end Sequence

/-! ## Submissions -/

/-- The answers of `submit_nonces` to submissions of tasks in this order, each with
the position of its file; `submitted` are the counters. -/
def submitAll (plan : List PlannedFile) : (Int → Int) → List HasherTask → List (Int × Bool)
  | _, [] => []
  | submitted, task :: rest =>
    let file := task.currentWriteTask
    let initNonces := (plan[file.toNat]?.map PlannedFile.nonces).getD 0
    let answer := submitNonces (submitted file) initNonces task.nonces
    (file, answer.1) :: submitAll plan (Function.update submitted file answer.2) rest

/-- The answers for one file. -/
def answersFor (index : Nat) (answers : List (Int × Bool)) : List Bool :=
  (answers.filter fun answer => answer.1 = (index : Int)).map Prod.snd

/-- False until the last of them, which is true. -/
def completions : Nat → List Bool
  | 0 => []
  | n + 1 => List.replicate n false ++ [true]

/-- A file whose tasks make up what its counter has left is completed by the last. -/
theorem answersFor_submitAll {plan : List PlannedFile} {index : Nat} {file : PlannedFile}
    (found : plan[index]? = some file) (bounded : file.nonces < 9223372036854775808)
    {submitted : Int → Int} (counted : 0 ≤ submitted index) {order : List HasherTask}
    (positive : ∀ task ∈ order, 0 < task.nonces)
    (complete : submitted index + issuedNonces index order = file.nonces) :
    answersFor index (submitAll plan submitted order) =
      completions (order.filter fun task => task.currentWriteTask = (index : Int)).length := by
  induction order generalizing submitted with
  | nil => rfl
  | cons task rest ih =>
      obtain ⟨here, later⟩ := List.forall_mem_cons.mp positive
      rw [issuedNonces] at complete
      rw [submitAll]
      unfold answersFor at ih ⊢
      by_cases own : task.currentWriteTask = (index : Int)
      · rw [if_pos own] at complete
        have others := issuedNonces_cases later index
        have exact : toInt64 (submitted index + task.nonces) = submitted index + task.nonces :=
          toInt64_eq (by omega) (by omega)
        have counter : Function.update submitted (index : Int)
            (submitted index + task.nonces) index = submitted index + task.nonces :=
          Function.update_self ..
        have answers := @ih (Function.update submitted (index : Int)
          (submitted index + task.nonces)) (by omega) later (by omega)
        simp only [own, found, Int.toNat_natCast, Option.map_some, Option.getD_some, submitNonces,
          exact, decide_true, List.filter_cons_of_pos, List.map_cons, List.length_cons, answers]
        rcases others with ⟨none, nothing⟩ | ⟨⟨n, count⟩, more⟩
        · have done : submitted index + task.nonces = file.nonces := by omega
          rw [none, decide_eq_true done]
          rfl
        · have unfinished : ¬submitted index + task.nonces = file.nonces := by omega
          rw [count, decide_eq_false unfinished]
          rfl
      · rw [if_neg own, Int.zero_add] at complete
        have other : (index : Int) ≠ task.currentWriteTask := Ne.symm own
        rw [List.filter_cons_of_neg (by simpa using own), List.filter_cons_of_neg (by simpa using own)]
        have same : ∀ counter, Function.update submitted task.currentWriteTask counter index =
            submitted index := fun counter => Function.update_of_ne other ..
        exact ih (by rwa [same]) later (by rwa [same])

/-! ## Every series of calls -/

/-- The calls give out the files in order and in one piece each, then nothing, and
however the tasks are submitted, the last one of a file completes it. -/
structure HandsOut (plan : List PlannedFile) (writer : Nat) (gws : Nat → Int)
    (blocks : Nat → Nat) (last : Nat) : Prop where
  answered : ∀ n < last, ∃ task, callAnswer plan writer gws blocks n = some task ∧
    0 < task.nonces ∧ task.nonces ≤ gws n
  exhausted : ∀ n ≥ last, callAnswer plan writer gws blocks n = none
  partition : Partition plan ((List.range last).filterMap (callAnswer plan writer gws blocks))
  completed : ∀ order : List HasherTask,
    order.Perm ((List.range last).filterMap (callAnswer plan writer gws blocks)) →
    ∀ (index : Nat) (file : PlannedFile), plan[index]? = some file → ∃ earlier,
      answersFor index (submitAll plan (fun _ => 0) order) = List.replicate earlier false ++ [true]

/-- The tasks of the calls are their answers. -/
theorem calls_eq_filterMap (plan : List PlannedFile) (writer : Nat) (gws : Nat → Int)
    (blocks : Nat → Nat) (n : Nat) : (calls plan writer gws blocks n).1 =
      (List.range n).filterMap (callAnswer plan writer gws blocks) := by
  induction n with
  | zero => rfl
  | succ n ih =>
      rw [List.range_succ, List.filterMap_append, ← ih]
      refine congrArg ((calls plan writer gws blocks n).1 ++ ·) ?_
      show (callAnswer plan writer gws blocks n).toList = _
      cases answer : callAnswer plan writer gws blocks n with
      | none => rw [List.filterMap_cons_none answer]; rfl
      | some task => rw [List.filterMap_cons_some answer]; rfl

/-- Any files are handed out, whatever work sizes the calls are made with. -/
theorem exists_handsOut {plan : List PlannedFile} (typed : ∀ file ∈ plan, file.Typed)
    (writer : Nat) {gws : Nat → Int} (positive : ∀ n, 0 < gws n) (blocks : Nat → Nat) :
    ∃ last, HandsOut plan writer gws blocks last := by
  have ends := exists_callAnswer_none writer blocks typed positive
  obtain ⟨last, none, first⟩ : ∃ last, callAnswer plan writer gws blocks last = none ∧
      ∀ n < last, callAnswer plan writer gws blocks n ≠ Option.none :=
    ⟨Nat.find ends, Nat.find_spec ends, fun n early => Nat.find_min ends early⟩
  have state := callAnswer_answer writer blocks typed positive last
  have issued := calls_issued writer blocks typed positive last
  have partition := issued.sequence.partition (state.exhausted none)
  refine ⟨last, ?_, ?_, ?_, ?_⟩
  · intro n early
    obtain ⟨task, answer⟩ := Option.ne_none_iff_exists'.mp (first n early)
    obtain ⟨_, _, index, file, next, size⟩ :=
      (callAnswer_answer writer blocks typed positive n).task task answer
    exact ⟨task, answer, next.positive, size ▸ Int.min_le_left ..⟩
  · exact fun n later => (callAnswer_exhausted writer blocks typed positive none n later).2
  · rw [← calls_eq_filterMap]
    exact partition
  · intro order perm index file found
    rw [← calls_eq_filterMap] at perm
    obtain ⟨_, nonempty, bounded⟩ := typed file (List.mem_of_getElem? found)
    have whole : issuedNonces index order = file.nonces := by
      rw [← state.exhausted none index file found, issuedNonces_eq_sum, issuedNonces_eq_sum]
      exact ((perm.filter _).map _).sum_eq
    have answers := @answersFor_submitAll plan index file found (by omega) (fun _ => 0)
      (Int.le_refl 0) order (fun task member => issued.sequence.positive (perm.mem_iff.mp member))
      (by omega)
    rcases issuedNonces_cases (fun task member => issued.sequence.positive (perm.mem_iff.mp member))
      index with ⟨_, nothing⟩ | ⟨⟨n, count⟩, _⟩
    · omega
    · exact ⟨n, by rw [answers, count, completions]⟩

/-- Two files whose nonces are no multiples of the work sizes. -/
theorem exists_handsOut_twoFiles :
    ∃ last, HandsOut [⟨1, 0, 40⟩, ⟨1, 18446744073709551600, 72⟩] 0 (fun n => n + 1) (fun _ => 0)
      last := by
  refine exists_handsOut ?_ 0 (fun n => Int.lt_add_one_of_le (Int.natCast_nonneg n)) _
  rintro file (_ | ⟨_, _ | ⟨_, _ | _⟩⟩)
  · exact ⟨by decide, by decide, by decide⟩
  · exact ⟨by decide, by decide, by decide⟩

end HyperPlotter.Pipeline

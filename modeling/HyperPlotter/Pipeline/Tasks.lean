import Mathlib.Algebra.BigOperators.Group.List.Basic
import Mathlib.Algebra.Order.BigOperators.Group.List
import Mathlib.Algebra.Order.Group.Int
import Mathlib.Algebra.Ring.Int.Defs
import Mathlib.Data.List.Induction
import HyperPlotter.Foundation.MachineInt

/-!
# Writer tasks and hash tasks

`writer_task` with its counters, `hasher_task`, and the cutting of a writer's
files into hash tasks by `next_hasher_task`. `Sequence` says what may be cut:
each file in order, from its first nonce to its last, with no gap.
-/

namespace HyperPlotter.Pipeline

open Foundation

/-- A file the planner has assigned: plot id, start nonce and nonce count. -/
structure PlannedFile where
  pid : Nat
  sn : Nat
  nonces : Int
deriving DecidableEq

/-- What the fields of a planned file hold: a `uint64_t` start nonce and at least
one nonce, counted in an `int32_t`. -/
structure PlannedFile.Valid (file : PlannedFile) : Prop where
  start : file.sn < 18446744073709551616
  nonempty : 0 < file.nonces
  bounded : file.nonces < 2147483647

/-- What the types of the fields allow, with at least one nonce. -/
structure PlannedFile.Typed (file : PlannedFile) : Prop where
  start : file.sn < 18446744073709551616
  nonempty : 0 < file.nonces
  bounded : file.nonces < 2147483648

/-- Valid files are typed. -/
theorem PlannedFile.typed {plan : List PlannedFile} (valid : ∀ file ∈ plan, file.Valid) :
    ∀ file ∈ plan, file.Typed := by
  intro file member
  obtain ⟨start, nonempty, bounded⟩ := valid file member
  exact ⟨start, nonempty, by omega⟩

/-- A plan of one file has no other. -/
theorem only_file {file other : PlannedFile} {index : Nat} (found : [file][index]? = some other) :
    index = 0 ∧ file = other := by
  rw [List.getElem?_singleton] at found
  split at found
  · next first => exact ⟨first, Option.some.inj found⟩
  · cases found

/-- `writer_task` as the dispatcher uses it. `submitted_nonces_` is kept with
the writer thread, which alone touches it. -/
structure WriterTask where
  pid : Nat
  sn : Nat
  nonces : Int
  initNonces : Int
  initSn : Nat
  prev : Nat

/-- The constructor of `writer_task`. -/
def WriterTask.new (file : PlannedFile) : WriterTask where
  pid := file.pid
  sn := file.sn
  nonces := file.nonces
  initNonces := file.nonces
  initSn := file.sn
  prev := file.sn

/-- `writer_task::next`. -/
def WriterTask.next (task : WriterTask) (gws : Int) : Int × WriterTask :=
  if task.nonces = 0 then (-1, task)
  else
    let n := min gws task.nonces
    (n, { task with
      nonces := toInt32 (task.nonces - n), sn := task.prev, prev := toUInt64 (task.prev + n) })

/-- `writer_task::submit_nonces` on the counter `submitted`. -/
def submitNonces (submitted initNonces nonces : Int) : Bool × Int :=
  let submitted := toInt64 (submitted + nonces)
  (submitted = initNonces, submitted)

/-- `hasher_task`. The writer and the block are pointers in the source; here
they are the writer's position in `workers_` and the block's address. -/
structure HasherTask where
  pid : Nat
  sn : Nat
  nonces : Int
  writer : Nat
  currentWriteTask : Int
  block : Nat
deriving DecidableEq

/-- The loop of `next_hasher_task`; `fuel` covers one visit of every task. -/
def nextHasherTaskLoop (gws : Int) (writer block : Nat) :
    Nat → Nat → List WriterTask → Option HasherTask × Nat × List WriterTask
  | 0, cur, tasks => (none, cur, tasks)
  | fuel + 1, cur, tasks =>
    match tasks[cur]? with
    | none => (none, cur, tasks)
    | some task =>
      let cut := task.next gws
      if cut.1 = -1 then nextHasherTaskLoop gws writer block fuel (cur + 1) tasks
      else
        (some ⟨cut.2.pid, cut.2.sn, cut.1, writer, cur, block⟩, cur, tasks.set cur cut.2)

/-- `writer_worker::next_hasher_task`: the task, `cur_writer_task_index_` and
`writer_tasks_`. -/
def nextHasherTask (gws : Int) (writer block cur : Nat) (tasks : List WriterTask) :
    Option HasherTask × Nat × List WriterTask :=
  nextHasherTaskLoop gws writer block (tasks.length + 1) cur tasks

section Cases

variable {gws : Int}

/-- Nothing is cut from a file without nonces. -/
theorem WriterTask.next_done {task : WriterTask} (done : task.nonces = 0) :
    task.next gws = (-1, task) := if_pos done

/-- What is cut from a file with nonces left. -/
theorem WriterTask.next_cut {task : WriterTask} (left : task.nonces ≠ 0) :
    task.next gws = (min gws task.nonces, { task with
      nonces := toInt32 (task.nonces - min gws task.nonces), sn := task.prev,
      prev := toUInt64 (task.prev + min gws task.nonces) }) := if_neg left

/-- What a call of `next_hasher_task` does: it passes the files without nonces, and
cuts a task off the file behind them unless there is none. -/
inductive NextTask (gws : Int) (writer block : Nat) (tasks : List WriterTask) (cur : Nat) :
    Option HasherTask × Nat × List WriterTask → Prop where
  | none (beyond : tasks.length ≤ cur) : NextTask gws writer block tasks cur (none, cur, tasks)
  | cut {task : WriterTask} (here : tasks[cur]? = some task) (proceed : (task.next gws).1 ≠ -1) :
    NextTask gws writer block tasks cur
      (some ⟨(task.next gws).2.pid, (task.next gws).2.sn, (task.next gws).1, writer, cur, block⟩,
        cur, tasks.set cur (task.next gws).2)

/-- The loop passes the files without nonces and takes the next one. -/
theorem nextHasherTaskLoop_cases (writer block fuel : Nat) {tasks : List WriterTask} :
    ∀ {cur : Nat}, tasks.length < cur + fuel → ∃ next, cur ≤ next ∧
      (∀ i task, cur ≤ i → i < next → tasks[i]? = some task → (task.next gws).1 = -1) ∧
      NextTask gws writer block tasks next (nextHasherTaskLoop gws writer block fuel cur tasks) := by
  induction fuel with
  | zero =>
      intro cur enough
      exact ⟨cur, Nat.le_refl cur, fun i task _ _ => by omega, .none (by omega)⟩
  | succ fuel ih =>
      intro cur enough
      rw [nextHasherTaskLoop]
      split
      · next absent =>
          have beyond := List.getElem?_eq_none_iff.mp absent
          exact ⟨cur, Nat.le_refl cur, fun i task _ _ => by omega, .none beyond⟩
      · next task here =>
          by_cases done : (task.next gws).1 = -1
          · simp only [if_pos done]
            obtain ⟨next, le, passed, answer⟩ := @ih (cur + 1) (by omega)
            refine ⟨next, by omega, fun i other lower upper found => ?_, answer⟩
            by_cases first : i = cur
            · subst first
              exact Option.some.inj (here.symm.trans found) ▸ done
            · exact passed i other (by omega) upper found
          · simp only [if_neg done]
            exact ⟨cur, Nat.le_refl cur, fun i task _ _ => by omega, .cut here done⟩

variable (gws) in
/-- `next_hasher_task` passes the files without nonces and takes the next one. -/
theorem nextHasherTask_cases (writer block cur : Nat) (tasks : List WriterTask) :
    ∃ next, cur ≤ next ∧
      (∀ i task, cur ≤ i → i < next → tasks[i]? = some task → (task.next gws).1 = -1) ∧
      NextTask gws writer block tasks next (nextHasherTask gws writer block cur tasks) :=
  nextHasherTaskLoop_cases writer block _ (by omega)

end Cases

/-! ## What is left to issue -/

/-- The nonces of the files that no hash task has yet. -/
def remainingNonces (tasks : List WriterTask) : Int := (tasks.map WriterTask.nonces).sum

/-- The counters are within their type. -/
def Counting (tasks : List WriterTask) : Prop :=
  ∀ task ∈ tasks, 0 ≤ task.nonces ∧ task.nonces < 2147483648

/-- What is left after one file is cut. -/
theorem remainingNonces_set {tasks : List WriterTask} {cur : Nat} {task : WriterTask}
    (here : tasks[cur]? = some task) (cut : WriterTask) :
    remainingNonces (tasks.set cur cut) + task.nonces = remainingNonces tasks + cut.nonces := by
  induction tasks generalizing cur with
  | nil => simp at here
  | cons head rest ih =>
      unfold remainingNonces at *
      cases cur with
      | zero =>
          obtain rfl : head = task := by simpa using here
          rw [List.set_cons_zero, List.map_cons, List.map_cons, List.sum_cons, List.sum_cons]
          omega
      | succ cur =>
          have later := ih (by simpa using here)
          rw [List.set_cons_succ, List.map_cons, List.map_cons, List.sum_cons, List.sum_cons]
          omega

/-- What a call of `next_hasher_task` takes off the counters. -/
structure Taken (gws : Int) (tasks : List WriterTask) (writer block : Nat)
    (answer : Option HasherTask × Nat × List WriterTask) : Prop where
  counting : Counting answer.2.2
  exhausted : answer.1 = none → answer.2.2 = tasks
  writer : ∀ task, answer.1 = some task → task.writer = writer
  block : ∀ task, answer.1 = some task → task.block = block
  current : ∀ task, answer.1 = some task → 0 ≤ task.currentWriteTask
  positive : ∀ task, answer.1 = some task → 0 < task.nonces
  size : ∀ task, answer.1 = some task → task.nonces ≤ gws
  remaining : ∀ task, answer.1 = some task →
    remainingNonces answer.2.2 + task.nonces = remainingNonces tasks

/-- `next_hasher_task` takes the nonces of its task off one counter. -/
theorem nextHasherTask_taken {gws : Int} (positive : 0 < gws) (writer block cur : Nat)
    {tasks : List WriterTask} (counting : Counting tasks) :
    Taken gws tasks writer block (nextHasherTask gws writer block cur tasks) := by
  obtain ⟨next, _, _, answer⟩ := nextHasherTask_cases gws writer block cur tasks
  generalize nextHasherTask gws writer block cur tasks = result at answer
  cases answer with
  | none => exact ⟨counting, fun _ => rfl, nofun, nofun, nofun, nofun, nofun, nofun⟩
  | @cut task here proceed =>
      obtain ⟨lower, upper⟩ := counting task (List.mem_of_getElem? here)
      have unfinished : task.nonces ≠ 0 := fun done => proceed (by rw [WriterTask.next_done done])
      have left : toInt32 (task.nonces - min gws task.nonces) =
          task.nonces - min gws task.nonces := toInt32_eq (by omega) (by omega)
      have set := remainingNonces_set here (task.next gws).2
      rw [WriterTask.next_cut unfinished, left] at *
      refine ⟨fun other member => ?_, nofun, ?_, ?_, ?_, ?_, ?_, ?_⟩
      · rcases List.mem_or_eq_of_mem_set member with old | rfl
        · exact counting other old
        · exact ⟨by simp only []; omega, by simp only []; omega⟩
      · rintro _ ⟨⟩
        rfl
      · rintro _ ⟨⟩
        rfl
      · rintro _ ⟨⟩
        exact Int.natCast_nonneg next
      · rintro _ ⟨⟩
        simp only []
        omega
      · rintro _ ⟨⟩
        exact Int.min_le_left ..
      · rintro _ ⟨⟩
        simp only [] at set ⊢
        omega

/-! ## What a writer issues -/

/-- How many nonces of file `i` the tasks cover. -/
def issuedNonces (i : Nat) : List HasherTask → Int
  | [] => 0
  | task :: rest =>
    (if task.currentWriteTask = (i : Int) then task.nonces else 0) + issuedNonces i rest

@[simp] theorem issuedNonces_nil (i : Nat) : issuedNonces i [] = 0 := rfl

@[simp] theorem issuedNonces_append (i : Nat) (first second : List HasherTask) :
    issuedNonces i (first ++ second) = issuedNonces i first + issuedNonces i second := by
  induction first with
  | nil => simp
  | cons task rest ih =>
      rw [List.cons_append, issuedNonces, issuedNonces, ih, Int.add_assoc]

/-- The nonces of one task. -/
theorem issuedNonces_singleton (i : Nat) (task : HasherTask) :
    issuedNonces i [task] = if task.currentWriteTask = (i : Int) then task.nonces else 0 := by
  simp [issuedNonces]

/-- The nonces issued of a file are those of its tasks. -/
theorem issuedNonces_eq_sum (i : Nat) (tasks : List HasherTask) : issuedNonces i tasks =
    ((tasks.filter fun task => task.currentWriteTask = (i : Int)).map HasherTask.nonces).sum := by
  induction tasks with
  | nil => rfl
  | cons task rest ih =>
      rw [issuedNonces, ih]
      by_cases same : task.currentWriteTask = (i : Int)
      · simp [same]
      · simp [same]

/-- The tasks of a file are not empty together. -/
theorem issuedNonces_pos {tasks : List HasherTask} (positive : ∀ task ∈ tasks, 0 < task.nonces)
    {task : HasherTask} (member : task ∈ tasks) {i : Nat}
    (current : task.currentWriteTask = (i : Int)) : 0 < issuedNonces i tasks := by
  rw [issuedNonces_eq_sum]
  refine List.sum_pos _ ?_ ?_
  · intro nonces listed
    obtain ⟨other, inside, rfl⟩ := List.mem_map.mp listed
    exact positive other (List.mem_of_mem_filter inside)
  · refine List.ne_nil_of_mem (List.mem_map_of_mem (List.mem_filter.mpr ⟨member, ?_⟩))
    simpa using current

/-- Tasks with nonces issue no less than nothing. -/
theorem issuedNonces_nonneg {tasks : List HasherTask} (positive : ∀ task ∈ tasks, 0 < task.nonces)
    (i : Nat) : 0 ≤ issuedNonces i tasks := by
  rw [issuedNonces_eq_sum]
  refine List.sum_nonneg fun nonces listed => ?_
  obtain ⟨other, inside, rfl⟩ := List.mem_map.mp listed
  exact Int.le_of_lt (positive other (List.mem_of_mem_filter inside))

/-- A file without tasks has no nonces issued. -/
theorem issuedNonces_of_none {tasks : List HasherTask} {i : Nat}
    (none : tasks.filter (fun task => task.currentWriteTask = (i : Int)) = []) :
    issuedNonces i tasks = 0 := by
  rw [issuedNonces_eq_sum, none]
  rfl

/-- The next task continues file `index` where the earlier tasks stopped; files
before it are complete and files after it untouched. -/
structure Continues (plan : List PlannedFile) (earlier : List HasherTask) (task : HasherTask)
    (index : Nat) (file : PlannedFile) : Prop where
  current : task.currentWriteTask = (index : Int)
  found : plan[index]? = some file
  pid : task.pid = file.pid
  start : task.sn = toUInt64 (file.sn + issuedNonces index earlier)
  positive : 0 < task.nonces
  fits : issuedNonces index earlier + task.nonces ≤ file.nonces
  before : ∀ i other, i < index → plan[i]? = some other → issuedNonces i earlier = other.nonces
  after : ∀ i, index < i → issuedNonces i earlier = 0

/-- A series of hash tasks as one writer issues it. -/
inductive Sequence (plan : List PlannedFile) : List HasherTask → Prop where
  | nil : Sequence plan []
  | snoc {earlier : List HasherTask} {task : HasherTask} {index : Nat} {file : PlannedFile}
      (prior : Sequence plan earlier) (next : Continues plan earlier task index file) :
      Sequence plan (earlier ++ [task])

namespace Sequence

variable {plan : List PlannedFile}

/-- What was issued first is a series of its own. -/
theorem of_append {first : List HasherTask} (second : List HasherTask)
    (sequence : Sequence plan (first ++ second)) : Sequence plan first := by
  induction second using List.reverseRecOn with
  | nil => rwa [List.append_nil] at sequence
  | append_singleton rest task ih =>
      rw [← List.append_assoc] at sequence
      generalize joined : first ++ rest ++ [task] = whole at sequence
      cases sequence with
      | nil => simp at joined
      | snoc prior next =>
          obtain ⟨same, _⟩ := List.append_inj' joined rfl
          rw [← same] at prior
          exact ih prior

/-- The last task of a series continues the others. -/
theorem continues_last {earlier : List HasherTask} {task : HasherTask}
    (sequence : Sequence plan (earlier ++ [task])) :
    Sequence plan earlier ∧ ∃ index file, Continues plan earlier task index file := by
  generalize joined : earlier ++ [task] = whole at sequence
  cases sequence with
  | nil => simp at joined
  | @snoc earlier' task' index file prior next =>
      obtain ⟨same, last⟩ := List.append_inj' joined rfl
      rw [List.singleton_inj] at last
      rw [same, last]
      exact ⟨prior, index, file, next⟩

/-- Any task of a series continues those before it. -/
theorem continues {earlier later : List HasherTask} {task : HasherTask}
    (sequence : Sequence plan (earlier ++ task :: later)) :
    ∃ index file, Continues plan earlier task index file := by
  have cut : earlier ++ task :: later = (earlier ++ [task]) ++ later := by simp
  rw [cut] at sequence
  exact (continues_last (sequence.of_append later)).2

/-- The tasks of a series are not empty. -/
theorem positive {tasks : List HasherTask} (sequence : Sequence plan tasks)
    {task : HasherTask} (member : task ∈ tasks) : 0 < task.nonces := by
  obtain ⟨earlier, later, rfl⟩ := List.append_of_mem member
  obtain ⟨_, _, next⟩ := sequence.continues
  exact next.positive

/-- The files of a series come one after the other. -/
theorem ascending {tasks : List HasherTask} (sequence : Sequence plan tasks) :
    tasks.Pairwise fun first second => first.currentWriteTask ≤ second.currentWriteTask := by
  induction sequence with
  | nil => exact .nil
  | @snoc earlier task index file prior next ih =>
      refine List.pairwise_append.mpr ⟨ih, List.pairwise_singleton .., fun other member last at_end => ?_⟩
      rw [List.mem_singleton.mp at_end, next.current]
      obtain ⟨before, after, rfl⟩ := List.append_of_mem member
      obtain ⟨i, _, own⟩ := prior.continues
      rw [own.current]
      by_contra behind
      have issued := issuedNonces_pos (fun _ => prior.positive)
        (List.mem_append_right _ (List.mem_cons_self ..)) own.current
      rw [next.after i (by omega)] at issued
      exact absurd issued (Int.lt_irrefl 0)

/-- No file is issued beyond its size. -/
theorem issued_le {tasks : List HasherTask} (sequence : Sequence plan tasks)
    (typed : ∀ file ∈ plan, file.Typed) {i : Nat} {file : PlannedFile}
    (found : plan[i]? = some file) :
    0 ≤ issuedNonces i tasks ∧ issuedNonces i tasks ≤ file.nonces := by
  induction sequence with
  | nil =>
      have nonempty := (typed file (List.mem_of_getElem? found)).nonempty
      rw [issuedNonces_nil]
      exact ⟨Int.le_refl 0, Int.le_of_lt nonempty⟩
  | @snoc earlier task index other prior next ih =>
      rw [issuedNonces_append, issuedNonces_singleton, next.current]
      by_cases same : index = i
      · subst same
        have file_eq : other = file := Option.some.inj (next.found.symm.trans found)
        subst file_eq
        have fits := next.fits
        have positive := next.positive
        rw [if_pos rfl]
        omega
      · rw [if_neg (by omega), Int.add_zero]
        exact ih

end Sequence

/-- The dispatcher's view of one writer after it issued `issued`. -/
structure Issued (plan : List PlannedFile) (issued : List HasherTask) (cur : Nat)
    (tasks : List WriterTask) : Prop where
  sequence : Sequence plan issued
  length : tasks.length = plan.length
  counters : ∀ i file, plan[i]? = some file → ∃ task, tasks[i]? = some task ∧
    task.pid = file.pid ∧ task.nonces = file.nonces - issuedNonces i issued ∧
    task.prev = toUInt64 (file.sn + issuedNonces i issued)
  before : ∀ i file, i < cur → plan[i]? = some file → issuedNonces i issued = file.nonces
  after : ∀ i, cur < i → issuedNonces i issued = 0

namespace Issued

variable {plan : List PlannedFile} {issued : List HasherTask} {cur : Nat} {tasks : List WriterTask}

/-- A writer that has not issued anything. -/
theorem initial (typed : ∀ file ∈ plan, file.Typed) :
    Issued plan [] 0 (plan.map WriterTask.new) where
  sequence := .nil
  length := List.length_map _
  counters := by
    intro i file found
    have small := (typed file (List.mem_of_getElem? found)).start
    refine ⟨WriterTask.new file, by rw [List.getElem?_map, found]; rfl, rfl, ?_, ?_⟩
    · simp [WriterTask.new]
    · simp [WriterTask.new, toUInt64_natCast small]
  before := by
    intro i file below
    omega
  after := fun _ _ => rfl

/-- The files from the cursor on that have no nonces left are exhausted: the cursor
moves on. -/
private theorem advance (state : Issued plan issued cur tasks) {next : Nat} (le : cur ≤ next)
    (done : ∀ i task, cur ≤ i → i < next → tasks[i]? = some task → task.nonces = 0) :
    Issued plan issued next tasks where
  sequence := state.sequence
  length := state.length
  counters := state.counters
  before := by
    intro i file below found
    by_cases earlier : i < cur
    · exact state.before i file earlier found
    · obtain ⟨task, here, _, left, _⟩ := state.counters i file found
      have none_left := done i task (Nat.le_of_not_lt earlier) below here
      omega
  after := fun i above => state.after i (by omega)

/-- A task cut from the file at the cursor. -/
private theorem extend (state : Issued plan issued cur tasks) (typed : ∀ file ∈ plan, file.Typed)
    {file : PlannedFile} {task : WriterTask} (found : plan[cur]? = some file) {gws : Int}
    (positive : 0 < gws) (here : tasks[cur]? = some task) (pid : task.pid = file.pid)
    (left : task.nonces = file.nonces - issuedNonces cur issued)
    (prev : task.prev = toUInt64 (file.sn + issuedNonces cur issued))
    (unfinished : task.nonces ≠ 0) (writer block : Nat) :
    Continues plan issued ⟨task.pid, task.prev, min gws task.nonces, writer, cur, block⟩ cur file ∧
    Issued plan (issued ++ [⟨task.pid, task.prev, min gws task.nonces, writer, cur, block⟩]) cur
      (tasks.set cur (task.next gws).2) := by
  obtain ⟨lower, upper⟩ := state.sequence.issued_le typed found
  have bounded := (typed file (List.mem_of_getElem? found)).bounded
  have next : Continues plan issued
      ⟨task.pid, task.prev, min gws task.nonces, writer, cur, block⟩ cur file :=
    { current := rfl
      found := found
      pid := pid
      start := prev
      positive := by simp only []; omega
      fits := by simp only []; omega
      before := fun i other below => state.before i other below
      after := state.after }
  refine ⟨next, ?_⟩
  constructor
  · exact .snoc state.sequence next
  · rw [List.length_set, state.length]
  · intro i other foundOther
    obtain ⟨counted, present, samePid, sameLeft, samePrev⟩ := state.counters i other foundOther
    rw [issuedNonces_append, issuedNonces_singleton]
    by_cases same : cur = i
    · subst same
      have file_eq : file = other := Option.some.inj (found.symm.trans foundOther)
      subst file_eq
      have inside : cur < tasks.length := (List.getElem?_eq_some_iff.mp here).1
      refine ⟨(task.next gws).2, by rw [List.getElem?_set_self inside], ?_, ?_, ?_⟩
      · unfold WriterTask.next
        rw [if_neg unfinished]
        exact pid
      · unfold WriterTask.next
        rw [if_neg unfinished, if_pos rfl]
        simp only []
        rw [toInt32_eq (by omega) (by omega), left]
        omega
      · unfold WriterTask.next
        rw [if_neg unfinished, if_pos rfl]
        simp only [prev]
        unfold toUInt64
        omega
    · refine ⟨counted, by rw [List.getElem?_set_ne same, present], samePid, ?_, ?_⟩
      · rw [if_neg (by simp only []; omega), Int.add_zero, sameLeft]
      · rw [if_neg (by simp only []; omega), Int.add_zero, samePrev]
  · intro i other below foundOther
    rw [issuedNonces_append, issuedNonces_singleton, if_neg (by simp only []; omega), Int.add_zero]
    exact state.before i other below foundOther
  · intro i above
    rw [issuedNonces_append, issuedNonces_singleton, if_neg (by simp only []; omega), Int.add_zero]
    exact state.after i above

/-- What `next_hasher_task` may answer. -/
structure Answer (plan : List PlannedFile) (issued : List HasherTask) (gws : Int)
    (writer block : Nat) (answer : Option HasherTask × Nat × List WriterTask) : Prop where
  state : Issued plan (issued ++ answer.1.toList) answer.2.1 answer.2.2
  task : ∀ task, answer.1 = some task → task.writer = writer ∧ task.block = block ∧
    ∃ index file, Continues plan issued task index file ∧
      task.nonces = min gws (file.nonces - issuedNonces index issued)
  exhausted : answer.1 = none →
    ∀ i file, plan[i]? = some file → issuedNonces i issued = file.nonces

/-- `next_hasher_task` continues the series or finds every file exhausted. -/
theorem nextHasherTask_answer (typed : ∀ file ∈ plan, file.Typed)
    (state : Issued plan issued cur tasks) {gws : Int} (positive : 0 < gws) (writer block : Nat) :
    Answer plan issued gws writer block (nextHasherTask gws writer block cur tasks) := by
  have counter : ∀ i task, tasks[i]? = some task → ∃ file, plan[i]? = some file ∧
      task.pid = file.pid ∧ task.nonces = file.nonces - issuedNonces i issued ∧
      task.prev = toUInt64 (file.sn + issuedNonces i issued) ∧ 0 ≤ task.nonces := by
    intro i task here
    have inside : i < plan.length := by
      rw [← state.length]
      exact (List.getElem?_eq_some_iff.mp here).1
    have found : plan[i]? = some plan[i] := List.getElem?_eq_getElem inside
    obtain ⟨counted, present, pid, left, prev⟩ := state.counters i _ found
    obtain rfl : task = counted := Option.some.inj (here.symm.trans present)
    obtain ⟨_, upper⟩ := state.sequence.issued_le typed found
    exact ⟨_, found, pid, left, prev, by omega⟩
  obtain ⟨next, le, passed, answer⟩ := nextHasherTask_cases gws writer block cur tasks
  -- a file is passed when `next` answers -1, that is when it has no nonces left
  have moved : Issued plan issued next tasks := by
    refine state.advance le fun i task lower upper here => ?_
    by_contra unfinished
    obtain ⟨_, _, _, _, _, counted⟩ := counter i task here
    have cut := passed i task lower upper here
    rw [WriterTask.next_cut unfinished] at cut
    simp only [] at cut
    omega
  generalize nextHasherTask gws writer block cur tasks = result at answer
  cases answer with
  | none beyond =>
      refine ⟨by rwa [Option.toList_none, List.append_nil], nofun, fun _ i file found => ?_⟩
      have inside := (List.getElem?_eq_some_iff.mp found).1
      have length := state.length
      exact moved.before i file (by omega) found
  | @cut task here proceed =>
      have unfinished : task.nonces ≠ 0 := fun done => proceed (by rw [WriterTask.next_done done])
      obtain ⟨file, found, pid, left, prev, _⟩ := counter next task here
      obtain ⟨continues, extended⟩ := moved.extend typed found positive here pid left prev unfinished
        writer block
      rw [WriterTask.next_cut unfinished] at extended ⊢
      constructor
      · exact extended
      · rintro answered ⟨⟩
        exact ⟨rfl, rfl, next, file, continues, by rw [← left]⟩
      · rintro ⟨⟩

end Issued

end HyperPlotter.Pipeline

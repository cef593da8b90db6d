import HyperPlotter.Pipeline.Flow

/-!
# A writer on its way

What becomes of a writer while no stop is seen: it stays in its loops, whatever the
files do, and when they do nothing wrong any more an attempt from any moment on is
followed by at most one more.
-/

namespace HyperPlotter.Pipeline

open Foundation Poc Interaction

/-! ## In its loops -/

/-- A hash task the writer can work on. -/
def OfPlan (plan : List PlannedFile) (task : HasherTask) : Prop :=
  0 ≤ task.currentWriteTask ∧ task.currentWriteTask < plan.length

/-- A writer is in one of its loops. -/
def InLoop (plan : List PlannedFile) : WriterControl → WriterState → Prop
  | .outer success _, _ => success = true
  | .attempt _ task, _ => OfPlan plan task
  | .exited, _ => False

/-- `Always` while no stop is seen and the queue hands out tasks of the plan. -/
abbrev Underway {α : Type} (plan : List PlannedFile) (post : α → WriterState → Prop)
    (program : WriterProgram α) (s : WriterState) : Prop :=
  Always WriterState.respond
    (fun _ _ choice => choice.stop = false ∧ ∀ task, choice.task = some task → OfPlan plan task)
    (fun _ _ => True) post program s

variable {plan : List PlannedFile} {s : WriterState}

/-- The outer loop does not leave while no stop is seen. -/
theorem writerOuter_underway (bench : Bool) (lastWriteTask : Int) :
    Underway plan (InLoop plan) (writerOuter bench plan true lastWriteTask) s := by
  unfold writerOuter
  refine always_perform.mpr ⟨trivial, fun choice goesOn => ?_⟩
  have polled : s.respond choice (.stopped .outer) = (false, s) := Prod.ext goesOn.1 rfl
  rw [polled]
  refine always_perform.mpr ⟨trivial, fun popping handed => ?_⟩
  have popped : s.respond popping .pop = (popping.task,
      { s with current := popping.task.map fun task => (task, popping.block) }) := rfl
  rw [popped]
  cases given : popping.task with
  | none => rfl
  | some task =>
      have mine := handed.2 task given
      have inside : ¬(task.currentWriteTask = -1 ∨ task.currentWriteTask ≥ plan.length) := by
        obtain ⟨lower, upper⟩ := mine
        omega
      simp only [inside, if_false]
      split
      · exact always_perform.mpr ⟨trivial, fun _ _ => rfl⟩
      · split
        · exact always_perform.mpr ⟨trivial, fun _ _ => mine⟩
        · exact mine

/-- The file of a task of the plan. -/
theorem OfPlan.found {task : HasherTask} (mine : OfPlan plan task) :
    ∃ file, plan[task.currentWriteTask.toNat]? = some file := by
  obtain ⟨lower, upper⟩ := mine
  exact ⟨_, List.getElem?_eq_getElem (by omega)⟩

/-- Nor does a write attempt. -/
theorem writerAttempt_underway (lastWriteTask : Int) {task : HasherTask} (mine : OfPlan plan task) :
    Underway plan (InLoop plan) (writerAttempt plan lastWriteTask task) s := by
  obtain ⟨file, found⟩ := mine.found
  unfold writerAttempt
  rw [found]
  refine (always_trivial _ s).bind fun ok final _ => ?_
  cases ok with
  | true => exact always_perform.mpr ⟨trivial, fun _ _ => rfl⟩
  | false =>
      refine always_perform.mpr ⟨trivial, fun choice goesOn => ?_⟩
      have polled : final.respond choice (.stopped .retry) = (false, final) := Prod.ext goesOn.1 rfl
      rw [polled]
      exact mine

/-- A writer in one of its loops stays in one. -/
theorem writerBody_underway (bench : Bool) {control : WriterControl} (inLoop : InLoop plan control s) :
    Underway plan (InLoop plan) (writerBody bench plan control) s := by
  match control with
  | .outer true lastWriteTask => exact writerOuter_underway bench lastWriteTask
  | .attempt lastWriteTask task => exact writerAttempt_underway lastWriteTask inLoop
  | .exited => exact absurd inLoop id

/-! ## Without failures -/

/-- `Always` without failures and without a stop, up to the wait for a task. -/
abbrev Unhindered {α : Type} (post : α → WriterState → Prop) (program : WriterProgram α)
    (s : WriterState) : Prop :=
  Always WriterState.respond
    (fun _ request choice => request ≠ .pop ∧ choice.ok = true ∧ choice.stop = false)
    (fun _ _ => True) post program s

/-- A program that goes smoothly is not hindered. -/
theorem Smoothly.unhindered {α : Type} {post : α → WriterState → Prop} {program : WriterProgram α}
    (smooth : Smoothly post program s) : Unhindered post program s :=
  smooth.restrict fun _ _ _ allowed => allowed.2

/-- At the head of its outer loop a writer comes to wait for a task. -/
theorem writerOuter_unhindered (bench : Bool) (plan : List PlannedFile) (lastWriteTask : Int) :
    Unhindered (fun _ _ => False) (writerOuter bench plan true lastWriteTask) s := by
  refine always_perform.mpr ⟨trivial, fun choice allowed => ?_⟩
  have polled : s.respond choice (.stopped .outer) = (false, s) := Prod.ext allowed.2.2 rfl
  rw [polled]
  exact always_perform.mpr ⟨trivial, fun _ allowed => absurd rfl allowed.1⟩

/-- An attempt that fails closes the file. -/
theorem attemptWrite_closes (index : Nat) (file : PlannedFile) (task : HasherTask) :
    Unhindered (fun ok s => ok = false → s.handle = none) (attemptWrite index file task) s := by
  refine (always_trivial _ s).bind fun _ s _ => (always_trivial _ s).bind fun written s _ => ?_
  cases written with
  | false => exact always_perform.mpr ⟨trivial, fun _ _ _ => rfl⟩
  | true =>
      refine always_perform.mpr ⟨trivial, fun _ _ => ?_⟩
      split
      · exact always_perform.mpr ⟨trivial, fun _ _ => always_perform.mpr ⟨trivial, fun _ _ => nofun⟩⟩
      · exact nofun

/-- What follows an attempt: the head of the outer loop, or one more attempt from a
closed file. -/
def AfterAttempt (task : HasherTask) : WriterControl → WriterState → Prop
  | .outer success _, _ => success = true
  | .attempt _ again, s => again = task ∧ s.handle = none
  | .exited, _ => False

/-- From any moment on there is at most one more attempt. -/
theorem writerAttempt_unhindered (lastWriteTask : Int) {task : HasherTask}
    (mine : OfPlan plan task) :
    Unhindered (AfterAttempt task) (writerAttempt plan lastWriteTask task) s := by
  obtain ⟨file, found⟩ := mine.found
  unfold writerAttempt
  rw [found]
  refine (attemptWrite_closes _ file task).bind fun ok final closed => ?_
  cases ok with
  | true => exact always_perform.mpr ⟨trivial, fun _ _ => rfl⟩
  | false =>
      refine always_perform.mpr ⟨trivial, fun choice allowed => ?_⟩
      have polled : final.respond choice (.stopped .retry) = (false, final) :=
        Prod.ext allowed.2.2 rfl
      rw [polled]
      exact ⟨rfl, closed rfl⟩

/-- From a closed file there is none. -/
theorem writerAttempt_succeeds (lastWriteTask : Int) {task : HasherTask} (mine : OfPlan plan task)
    (closed : s.handle = none) :
    Unhindered (fun control _ => ∃ last, control = .outer true last)
      (writerAttempt plan lastWriteTask task) s := by
  obtain ⟨file, found⟩ := mine.found
  unfold writerAttempt
  rw [found]
  refine (attemptWrite_smooth (.inl closed)).unhindered.bind fun ok final written => ?_
  rw [written.1]
  exact always_perform.mpr ⟨trivial, fun _ _ => ⟨_, rfl⟩⟩

/-! ## A task in hand -/

/-- Inside its loops a writer polls the flag with a task in hand. -/
def Attending (s : WriterState) (request : WriterRequest) : Prop :=
  ∀ poll, request = .stopped poll → poll ≠ .outer → s.current.isSome

/-- An attempt begins with the task in hand. -/
def HoldsTask : WriterControl → WriterState → Prop
  | .attempt .., s => s.current.isSome
  | _, _ => True

/-- `Always` for any choices of the environment. -/
abbrev Attentive {α : Type} (post : α → WriterState → Prop) (program : WriterProgram α)
    (s : WriterState) : Prop :=
  Always WriterState.respond (fun _ _ _ => True) Attending post program s

private theorem leaveWriter_attentive : Attentive HoldsTask leaveWriter s :=
  always_perform.mpr ⟨nofun, fun _ _ => trivial⟩

/-- The outer loop only polls inside with a task in hand. -/
theorem writerOuter_attentive (bench : Bool) (plan : List PlannedFile) (success : Bool)
    (lastWriteTask : Int) :
    Attentive HoldsTask (writerOuter bench plan success lastWriteTask) s := by
  unfold writerOuter
  split
  · refine always_perform.mpr ⟨?_, fun choice _ => ?_⟩
    · rintro _ ⟨⟩ inner
      exact absurd rfl inner
    · split
      · exact leaveWriter_attentive
      · refine always_perform.mpr ⟨nofun, fun popping _ => ?_⟩
        have popped : s.respond popping .pop = (popping.task,
            { s with current := popping.task.map fun task => (task, popping.block) }) := rfl
        have same : (s.respond choice (.stopped .outer)).2 = s := rfl
        rw [same, popped]
        cases popping.task with
        | none => trivial
        | some task =>
            simp only []
            split
            · exact leaveWriter_attentive
            · split
              · exact always_perform.mpr ⟨nofun, fun _ _ => trivial⟩
              · split
                · exact always_perform.mpr ⟨nofun, fun _ _ => rfl⟩
                · rfl
  · exact leaveWriter_attentive

/-- A write attempt has its task in hand wherever it polls. -/
theorem writerAttempt_attentive (plan : List PlannedFile) (lastWriteTask : Int) (task : HasherTask)
    (holds : s.current.isSome) :
    Attentive HoldsTask (writerAttempt plan lastWriteTask task) s := by
  unfold writerAttempt
  split
  · trivial
  · rename_i file _
    have attempt : Attentive (fun _ s => s.current.isSome)
        (attemptWrite task.currentWriteTask.toNat file task) s :=
      (attemptWrite_quiet _ _ _).keeps (fun s : WriterState => s.current.isSome) holds
        (fun choice s _ quiet _ holds => by rwa [(s.respond_quiet quiet choice).1])
        (fun _ _ _ holds _ _ _ => holds)
    refine attempt.bind fun ok final holds => ?_
    split
    · exact always_perform.mpr ⟨nofun, fun _ _ => trivial⟩
    · refine always_perform.mpr ⟨fun _ _ _ => holds, fun choice _ => ?_⟩
      split
      · exact always_perform.mpr ⟨nofun, fun _ _ => trivial⟩
      · exact holds

/-- Every part of the writer's program polls with a task in hand. -/
theorem writerBody_attentive (bench : Bool) (plan : List PlannedFile) {control : WriterControl}
    (holds : HoldsTask control s) : Attentive HoldsTask (writerBody bench plan control) s := by
  match control with
  | .outer success lastWriteTask => exact writerOuter_attentive bench plan success lastWriteTask
  | .attempt lastWriteTask task => exact writerAttempt_attentive plan lastWriteTask task holds
  | .exited => trivial

end HyperPlotter.Pipeline

import HyperPlotter.Pipeline.WriterThread

/-!
# A writer gets its task done

An attempt neither pops nor reports, and it succeeds when no file operation
fails and no stop is seen.
-/

namespace HyperPlotter.Pipeline

open Foundation Poc Interaction

/-- A request that leaves the task in hand and the reported tasks alone. -/
def WriterRequest.Quiet (request : WriterRequest) : Prop := request ≠ .pop ∧ request ≠ .report

/-- Two states with the same task in hand and the same reported tasks. -/
def WriterState.SameTasks (s t : WriterState) : Prop :=
  s.current = t.current ∧ s.finished = t.finished

/-- The tasks stay the same over two steps. -/
theorem WriterState.SameTasks.trans {s t u : WriterState} (first : s.SameTasks t)
    (second : t.SameTasks u) : s.SameTasks u :=
  ⟨first.1.trans second.1, first.2.trans second.2⟩

/-- A quiet request keeps the tasks. -/
theorem WriterState.respond_quiet {request : WriterRequest} (quiet : request.Quiet)
    (choice : Choice) (s : WriterState) : (s.respond choice request).2.SameTasks s := by
  cases request with
  | pop => exact absurd rfl quiet.1
  | report => exact absurd rfl quiet.2
  | openFile file create =>
      show (s.openFile choice.toOutcome file create).2.SameTasks s
      unfold openFile
      split
      · exact ⟨rfl, rfl⟩
      · split
        · exact ⟨rfl, rfl⟩
        · split
          · exact ⟨rfl, rfl⟩
          · split <;> exact ⟨rfl, rfl⟩
  | allocate bytes =>
      show (s.allocate choice.toOutcome bytes).2.SameTasks s
      unfold allocate
      split
      · exact ⟨rfl, rfl⟩
      · split
        · exact ⟨rfl, rfl⟩
        · split <;> exact ⟨rfl, rfl⟩
  | seek offset =>
      show (s.seek choice.toOutcome offset).2.SameTasks s
      unfold seek
      split <;> exact ⟨rfl, rfl⟩
  | write bytes =>
      show (s.write choice.toOutcome bytes).2.SameTasks s
      unfold write
      split <;> exact ⟨rfl, rfl⟩
  | rename file =>
      exact ⟨s.rename_current choice.toOutcome file, s.rename_finished choice.toOutcome file⟩
  | _ => exact ⟨rfl, rfl⟩

/-! ## The requests of an attempt -/

/-- The requests of an attempt at a file: nothing of the queues, no other file,
and room for exactly its nonces. -/
def WriterRequest.OfFile (index : Nat) (file : PlannedFile) : WriterRequest → Prop
  | .pop | .report => False
  | .fileExists i | .openFile i _ | .submit i _ _ | .rename i => i = index
  | .allocate bytes => bytes = (file.nonces * plotSize).toNat
  | _ => True

/-- Requests about a file are quiet. -/
theorem WriterRequest.OfFile.quiet {index : Nat} {file : PlannedFile} {request : WriterRequest}
    (ofFile : request.OfFile index file) : request.Quiet := by
  constructor
  · rintro rfl
    exact ofFile
  · rintro rfl
    exact ofFile

/-- The requests of an attempt before its data is submitted. -/
def WriterRequest.Writes (index : Nat) (file : PlannedFile) : WriterRequest → Prop
  | .pop | .report | .submit .. | .rename _ => False
  | .fileExists i | .openFile i _ => i = index
  | .allocate bytes => bytes = (file.nonces * plotSize).toNat
  | _ => True

/-- Writing requests are about the file. -/
theorem WriterRequest.Writes.ofFile {index : Nat} {file : PlannedFile} {request : WriterRequest}
    (writes : request.Writes index file) : request.OfFile index file := by
  cases request with
  | submit => exact absurd writes id
  | rename => exact absurd writes id
  | _ => exact writes

section

variable (index : Nat) (file : PlannedFile)

/-- The inner loop only writes. -/
theorem chunkLoop_writes (curScoop : Int) (rounds : Nat) : ∀ nstart nonces : Int,
    (chunkLoop curScoop rounds nstart nonces).Only (WriterRequest.Writes index file) := by
  induction rounds with
  | zero =>
      intro nstart nonces
      exact Only.perform trivial fun _ => trivial
  | succ rounds ih =>
      intro nstart nonces
      rw [chunkLoop]
      refine Only.perform trivial fun stop => ?_
      split
      · trivial
      · refine Only.perform trivial fun _ => Only.perform trivial fun written => ?_
        cases written with
        | true => exact ih _ _
        | false => trivial

/-- The loop over the scoops only writes. -/
theorem scoopLoop_writes (task : HasherTask) (rest : Nat) : ∀ curScoop : Int,
    (scoopLoop file task rest curScoop).Only (WriterRequest.Writes index file) := by
  induction rest with
  | zero =>
      intro curScoop
      exact Only.perform trivial fun _ => trivial
  | succ rest ih =>
      intro curScoop
      rw [scoopLoop]
      refine Only.perform trivial fun stop => ?_
      cases stop with
      | true => trivial
      | false =>
          refine Only.perform trivial fun sought => ?_
          cases sought with
          | false => trivial
          | true =>
              refine (chunkLoop_writes index file _ _ _ _).bind fun written => ?_
              cases written with
              | true => exact ih _
              | false => trivial

/-- Opening a file is a request about it. -/
theorem openPlotting_writes :
    (openPlotting index file).Only (WriterRequest.Writes index file) := by
  refine Only.perform trivial fun opened => ?_
  cases opened with
  | true => trivial
  | false =>
      refine Only.perform rfl fun _ => ?_
      exact Only.perform rfl fun _ => Only.perform rfl fun _ => trivial

/-- An attempt asks for its own file only. -/
theorem attemptWrite_ofFile (task : HasherTask) :
    (attemptWrite index file task).Only (WriterRequest.OfFile index file) := by
  have widen : ∀ request : WriterRequest, request.Writes index file → request.OfFile index file :=
    fun _ => WriterRequest.Writes.ofFile
  refine ((openPlotting_writes index file).mono widen).bind fun _ => ?_
  refine ((scoopLoop_writes index file task scoopsPerPlot 0).mono widen).bind fun written => ?_
  cases written with
  | false => exact Only.perform trivial fun _ => trivial
  | true =>
      refine Only.perform rfl fun complete => ?_
      cases complete with
      | false => trivial
      | true => exact Only.perform trivial fun _ => Only.perform rfl fun _ => trivial

/-- An attempt neither pops nor reports. -/
theorem attemptWrite_quiet (task : HasherTask) :
    (attemptWrite index file task).Only WriterRequest.Quiet :=
  (attemptWrite_ofFile index file task).mono fun _ => WriterRequest.OfFile.quiet

end

/-! ## Success without failures -/

/-- No failure and no stop. -/
def Smooth (_ : WriterState) (_ : WriterRequest) (choice : Choice) : Prop :=
  choice.ok = true ∧ choice.stop = false

/-- `Always` without failures and without a stop. -/
abbrev Smoothly {α : Type} (post : α → WriterState → Prop) (program : WriterProgram α)
    (s : WriterState) : Prop :=
  Always WriterState.respond Smooth (fun _ _ => True) post program s

/-- A file is open. -/
def WriterState.IsOpen (s : WriterState) : Prop := s.opened.isSome

/-- A handle on a file that is there is open. -/
theorem WriterState.isOpen_of {s : WriterState} {i : Nat} (handle : s.handle = some i)
    (present : (s.plotting i).isSome) : s.IsOpen := by
  unfold IsOpen opened
  rw [handle, Option.bind_some, Option.isSome_map]
  exact present

/-- An open file is the handle's. -/
theorem WriterState.IsOpen.opened {s : WriterState} (isOpen : s.IsOpen) :
    ∃ i entry, s.opened = some (i, entry) ∧ s.handle = some i := by
  obtain ⟨⟨i, entry⟩, openedEq⟩ := Option.isSome_iff_exists.mp isOpen
  refine ⟨i, entry, openedEq, ?_⟩
  unfold WriterState.opened at openedEq
  cases handleEq : s.handle with
  | none => simp [handleEq] at openedEq
  | some j =>
      rw [handleEq, Option.bind_some, Option.map_eq_some_iff] at openedEq
      obtain ⟨_, _, same⟩ := openedEq
      rw [(Prod.mk.inj same).1]

/-- An allocation keeps the file open. -/
theorem WriterState.IsOpen.allocate {s : WriterState} (isOpen : s.IsOpen) (outcome : Outcome)
    (bytes : Nat) : (s.allocate outcome bytes).2.IsOpen := by
  obtain ⟨i, entry, openedEq, handle⟩ := isOpen.opened
  unfold WriterState.allocate
  simp only [openedEq]
  split
  · exact isOpen
  · split
    · exact isOpen_of handle (by simp [Function.update_self])
    · exact isOpen

/-- A `seek` that may succeed does, and keeps the file open. -/
theorem WriterState.IsOpen.seek {s : WriterState} (isOpen : s.IsOpen) {outcome : Outcome}
    (ok : outcome.ok = true) (offset : Nat) :
    (s.seek outcome offset).1 = true ∧ (s.seek outcome offset).2.IsOpen := by
  obtain ⟨opened, openedEq⟩ := Option.isSome_iff_exists.mp isOpen
  unfold WriterState.seek
  rw [openedEq]
  exact ⟨ok, isOpen⟩

/-- So does a `write`. -/
theorem WriterState.IsOpen.write {s : WriterState} (isOpen : s.IsOpen) {outcome : Outcome}
    (ok : outcome.ok = true) (bytes : Nat) :
    (s.write outcome bytes).1 = true ∧ (s.write outcome bytes).2.IsOpen := by
  obtain ⟨i, entry, openedEq, handle⟩ := isOpen.opened
  unfold WriterState.write
  rw [openedEq]
  exact ⟨ok, isOpen_of handle (by simp [Function.update_self])⟩

namespace Smoothly

variable {α : Type} {post : α → WriterState → Prop} {s : WriterState}

/-- The rule for a poll. -/
theorem poll {place : Poll} {next : Bool → WriterProgram α} (rest : Smoothly post (next false) s) :
    Smoothly post (call (.stopped place) >>= next) s := by
  refine always_perform.mpr ⟨trivial, fun choice smooth => ?_⟩
  have running : s.respond choice (.stopped place) = (false, s) := Prod.ext smooth.2 rfl
  rw [running]
  exact rest

/-- The rule for a `seek` in an open file. -/
theorem seek {offset : Nat} {next : Bool → WriterProgram α} (isOpen : s.IsOpen)
    (rest : ∀ final : WriterState, final.IsOpen → Smoothly post (next true) final) :
    Smoothly post (call (.seek offset) >>= next) s := by
  refine always_perform.mpr ⟨trivial, fun choice smooth => ?_⟩
  obtain ⟨sought, stillOpen⟩ := isOpen.seek smooth.1 offset
  have answer : (s.respond choice (.seek offset)).1 = true := sought
  rw [answer]
  exact rest _ stillOpen

/-- The rule for a `write` to an open file. -/
theorem write {bytes : Nat} {next : Bool → WriterProgram α} (isOpen : s.IsOpen)
    (rest : ∀ final : WriterState, final.IsOpen → Smoothly post (next true) final) :
    Smoothly post (call (.write bytes) >>= next) s := by
  refine always_perform.mpr ⟨trivial, fun choice smooth => ?_⟩
  obtain ⟨written, stillOpen⟩ := isOpen.write smooth.1 bytes
  have answer : (s.respond choice (.write bytes)).1 = true := written
  rw [answer]
  exact rest _ stillOpen

end Smoothly

/-- The inner loop writes all of an open file. -/
theorem chunkLoop_smooth (curScoop : Int) (rounds : Nat) : ∀ {nstart nonces : Int}
    {s : WriterState}, s.IsOpen → Smoothly (fun ok s => ok = true ∧ s.IsOpen)
      (chunkLoop curScoop rounds nstart nonces) s := by
  induction rounds with
  | zero =>
      intro nstart nonces s isOpen
      exact Smoothly.poll ⟨rfl, isOpen⟩
  | succ rounds ih =>
      intro nstart nonces s isOpen
      rw [chunkLoop]
      refine Smoothly.poll ?_
      split
      · exact ⟨rfl, isOpen⟩
      · refine always_perform.mpr ⟨trivial, fun _ _ => ?_⟩
        exact Smoothly.write isOpen fun _ stillOpen => ih stillOpen

/-- So does the loop over the scoops. -/
theorem scoopLoop_smooth (file : PlannedFile) (task : HasherTask) (rest : Nat) :
    ∀ {curScoop : Int} {s : WriterState}, s.IsOpen →
      Smoothly (fun ok s => ok = true ∧ s.IsOpen) (scoopLoop file task rest curScoop) s := by
  induction rest with
  | zero =>
      intro curScoop s isOpen
      exact Smoothly.poll ⟨rfl, isOpen⟩
  | succ rest ih =>
      intro curScoop s isOpen
      rw [scoopLoop]
      refine Smoothly.poll (Smoothly.seek isOpen fun final stillOpen => ?_)
      refine (chunkLoop_smooth curScoop _ stillOpen).bind fun ok last outcome => ?_
      rw [outcome.1]
      exact ih outcome.2

/-- Opening a file works when nothing fails. -/
theorem openPlotting_smooth {index : Nat} {file : PlannedFile} {s : WriterState}
    (handle : s.handle = none ∨ s.IsOpen) :
    Smoothly (fun _ s => s.IsOpen) (openPlotting index file) s := by
  unfold openPlotting
  refine always_perform.mpr ⟨trivial, fun _ _ => ?_⟩
  have answered : ∀ choice, s.respond choice .isOpen = (s.handle.isSome, s) := fun _ => rfl
  rw [answered]
  rcases handle with closed | isOpen
  · rw [closed]
    refine always_perform.mpr ⟨trivial, fun _ _ => ?_⟩
    refine always_perform.mpr ⟨trivial, fun opening smooth => ?_⟩
    have opened : (s.openFile opening.toOutcome index !(s.plotting index).isSome).2.IsOpen := by
      unfold WriterState.openFile
      rw [closed, smooth.1, if_neg (by simp), if_neg (by simp)]
      cases plotting : s.plotting index with
      | none => exact WriterState.isOpen_of rfl (by simp [Function.update_self])
      | some entry => exact WriterState.isOpen_of rfl (by simp [plotting])
    exact always_perform.mpr ⟨trivial, fun allocating _ => opened.allocate allocating.toOutcome _⟩
  · obtain ⟨i, _, _, handleEq⟩ := isOpen.opened
    rw [handleEq]
    exact isOpen

/-- An attempt succeeds when nothing fails, and leaves the handle closed or on a
file. -/
theorem attemptWrite_smooth {index : Nat} {file : PlannedFile} {task : HasherTask}
    {s : WriterState} (handle : s.handle = none ∨ s.IsOpen) :
    Smoothly (fun ok s => ok = true ∧ (s.handle = none ∨ s.IsOpen)) (attemptWrite index file task) s := by
  refine (openPlotting_smooth handle).bind fun _ s isOpen => ?_
  refine (scoopLoop_smooth file task scoopsPerPlot isOpen).bind fun ok s written => ?_
  obtain ⟨rfl, stillOpen⟩ := written
  refine always_perform.mpr ⟨trivial, fun _ _ => ?_⟩
  split
  · exact always_perform.mpr ⟨trivial, fun _ _ => always_perform.mpr ⟨trivial, fun moving _ =>
      ⟨rfl, .inl (WriterState.rename_handle _ moving.toOutcome index)⟩⟩⟩
  · exact ⟨rfl, .inr stillOpen⟩

end HyperPlotter.Pipeline

import HyperPlotter.Pipeline.Win32Refines
import HyperPlotter.Pipeline.WriterThread

/-!
# A writer thread on Win32

`writer_worker::run` keeps to the discipline of its file, so what holds of it over the file
operations of `WriterState` holds of it over Win32. Whatever the calls do, its handles are
used properly, and what it has reported is in its files.
-/

namespace HyperPlotter.Pipeline

open Foundation Poc Interaction

/-- Some parts of `writer_worker::run`, one after the other. -/
def writerTurns (bench : Bool) (plan : List PlannedFile) :
    Nat → WriterControl → WriterProgram WriterControl
  | 0, control => pure control
  | turns + 1, control => do
    let next : WriterControl ← writerBody bench plan control
    writerTurns bench plan turns next

/-! ## The discipline of the file -/

/-- The program keeps to the discipline of its file. -/
abbrev Disciplined {α : Type} (program : WriterProgram α) (mode : FileMode) : Prop :=
  fileDiscipline.Keeps (fun _ _ => True) program mode

section

variable {file : PlannedFile} {task : HasherTask} {mode : FileMode}

/-- The inner loop writes where the file pointer was set. -/
theorem chunkLoop_disciplined (curScoop : Int) (rounds : Nat) : ∀ nstart nonces : Int,
    Disciplined (chunkLoop curScoop rounds nstart nonces) .placed := by
  induction rounds with
  | zero => exact fun _ _ => ⟨trivial, fun _ => trivial⟩
  | succ rounds ih =>
      intro nstart nonces
      rw [chunkLoop]
      refine Discipline.keeps_perform.mpr ⟨trivial, fun stop => ?_⟩
      split
      · trivial
      · refine Discipline.keeps_perform.mpr ⟨trivial, fun _ => ?_⟩
        have short : (min nonces scoopsPerWrite * 64).toNat < 4294967296 := by
          unfold scoopsPerWrite
          omega
        refine Discipline.keeps_perform.mpr ⟨⟨rfl, short⟩, fun written => ?_⟩
        cases written with
        | true => exact ih _ _
        | false => trivial

/-- The loop over the scoops seeks before it writes. -/
theorem scoopLoop_disciplined (rest : Nat) : ∀ (curScoop : Int) (mode : FileMode),
    Disciplined (scoopLoop file task rest curScoop) mode := by
  induction rest with
  | zero => exact fun _ _ => ⟨trivial, fun _ => trivial⟩
  | succ rest ih =>
      intro curScoop mode
      rw [scoopLoop]
      refine Discipline.keeps_perform.mpr ⟨trivial, fun stop => ?_⟩
      cases stop with
      | true => trivial
      | false =>
          refine Discipline.keeps_perform.mpr ⟨toUInt64_lt _, fun sought => ?_⟩
          cases sought with
          | false => trivial
          | true =>
              refine (chunkLoop_disciplined _ _ _ _).bind fun written mode _ => ?_
              cases written with
              | true => exact ih _ mode
              | false => trivial

/-- Opening a file and allocating it needs no discipline. -/
theorem openPlotting_disciplined (typed : file.Typed) (index : Nat) (mode : FileMode) :
    Disciplined (openPlotting index file) mode := by
  refine Discipline.keeps_perform.mpr ⟨trivial, fun isOpen => ?_⟩
  cases isOpen with
  | true => trivial
  | false =>
      refine Discipline.keeps_perform.mpr ⟨trivial, fun found => ?_⟩
      refine Discipline.keeps_perform.mpr ⟨trivial, fun _ => ?_⟩
      have bounded := typed.bounded
      have small : (file.nonces * plotSize).toNat < 18446744073709551616 := by
        unfold plotSize scoopsPerPlot scoopSize hashesPerScoop hashSize
        omega
      exact ⟨small, fun _ => trivial⟩

/-- A write attempt closes its file before it renames it. -/
theorem attemptWrite_disciplined (typed : file.Typed) (index : Nat) (mode : FileMode) :
    Disciplined (attemptWrite index file task) mode := by
  refine (openPlotting_disciplined typed index mode).bind fun _ mode _ => ?_
  refine (scoopLoop_disciplined scoopsPerPlot 0 mode).bind fun written mode _ => ?_
  cases written with
  | false => exact ⟨trivial, fun _ => trivial⟩
  | true =>
      refine Discipline.keeps_perform.mpr ⟨trivial, fun complete => ?_⟩
      cases complete with
      | true => exact ⟨trivial, fun _ => ⟨rfl, fun _ => trivial⟩⟩
      | false => trivial

end

/-- What the discipline says at the loop heads: a thread that has left closed its file. -/
def LoopHead (plan : List PlannedFile) : WriterControl → FileMode → Prop
  | .outer .., _ => True
  | .attempt _ task, _ => (plan[task.currentWriteTask.toNat]?).isSome
  | .exited, mode => mode = .closed

section

variable {plan : List PlannedFile} {mode : FileMode}

private theorem leaveWriter_disciplined :
    fileDiscipline.Keeps (LoopHead plan) leaveWriter mode := ⟨trivial, fun _ => rfl⟩

/-- A part of `run` keeps to the discipline. -/
theorem writerBody_disciplined (typed : ∀ file ∈ plan, file.Typed) (files : plan ≠ [])
    (bench : Bool) {control : WriterControl} (head : LoopHead plan control mode) :
    fileDiscipline.Keeps (LoopHead plan) (writerBody bench plan control) mode := by
  match control with
  | .exited => exact head
  | .outer false _ => exact leaveWriter_disciplined
  | .outer true lastWriteTask =>
      refine Discipline.keeps_perform.mpr ⟨trivial, fun stop => ?_⟩
      cases stop with
      | true => exact leaveWriter_disciplined
      | false =>
          refine Discipline.keeps_perform.mpr ⟨trivial, fun popped => ?_⟩
          cases popped with
          | none => trivial
          | some task =>
              simp only []
              split
              · exact leaveWriter_disciplined
              · next index =>
                  have length := List.length_pos_iff.mpr files
                  have head : (plan[task.currentWriteTask.toNat]?).isSome := by
                    rw [List.getElem?_eq_getElem (by omega)]
                    rfl
                  split
                  · exact ⟨trivial, fun _ => trivial⟩
                  · split
                    · exact ⟨trivial, fun _ => head⟩
                    · exact head
  | .attempt lastWriteTask task =>
      obtain ⟨file, found⟩ := Option.isSome_iff_exists.mp head
      show fileDiscipline.Keeps _ (writerAttempt plan lastWriteTask task) mode
      unfold writerAttempt
      rw [found]
      have typedFile := typed file (List.mem_of_getElem? found)
      refine (attemptWrite_disciplined typedFile _ mode).bind fun ok mode _ => ?_
      cases ok with
      | true => exact ⟨trivial, fun _ => trivial⟩
      | false =>
          refine Discipline.keeps_perform.mpr ⟨trivial, fun stop => ?_⟩
          cases stop with
          | true => exact ⟨trivial, fun _ => trivial⟩
          | false => exact head

/-- So do several parts. -/
theorem writerTurns_disciplined (typed : ∀ file ∈ plan, file.Typed) (files : plan ≠ [])
    (bench : Bool) (turns : Nat) : ∀ {control : WriterControl} {mode : FileMode},
    LoopHead plan control mode →
    fileDiscipline.Keeps (LoopHead plan) (writerTurns bench plan turns control) mode := by
  induction turns with
  | zero => exact fun head => head
  | succ turns ih =>
      intro control mode head
      exact (writerBody_disciplined typed files bench head).bind fun _ _ later => ih later

end

/-! ## The handles -/

section

variable {plan : List PlannedFile}

/-- A system where a writer thread starts, with any files in its directory. -/
def Win32.start (plotting final : Nat → Option FileEntry) (writeBuffer : Memory) (lastError : Nat) :
    Win32 where
  plotting := plotting
  final := final
  handles _ := none
  lastError := lastError
  writeBuffer := writeBuffer
  submitted _ := 0
  current := none
  finished := []

/-- The writer before its first request, on a system where it has no handle. -/
theorem Win32.related_start (c : Win32) (closed : ∀ handle, c.handles handle = none) (error : Nat) :
    Related .closed c.view ⟨none, error⟩ c := .of_closed rfl rfl rfl closed

/-- Whatever the system and the other threads do, a writer calls Win32 with open handles
only, flushes and closes each one before the next file is opened or any is renamed, and
leaves `run` with none. -/
theorem writerTurns_handles (typed : ∀ file ∈ plan, file.Typed) (files : plan ≠ []) (bench : Bool)
    (turns : Nat) (c : Win32) (closed : ∀ handle, c.handles handle = none) (error : Nat) :
    OnWin32 (Win32.Documented fun _ _ _ => True) (fun result after =>
        (∀ handle, (after.handles handle).isSome ↔ result.2.handle = some handle) ∧
        (result.1 = .exited → ∀ handle, after.handles handle = none))
      ((writerTurns bench plan turns (.outer true (-1))).carryOut carry ⟨none, error⟩) c := by
  have disciplined : fileDiscipline.Keeps (LoopHead plan)
      (writerTurns bench plan turns (.outer true (-1))) .closed :=
    writerTurns_disciplined typed files bench turns trivial
  have start : ∃ s, Related .closed s ⟨none, error⟩ c := ⟨_, c.related_start closed error⟩
  have carried := Maintains.always @carry_maintains start disciplined
  refine carried.mono fun result after ended => ?_
  obtain ⟨mode, head, s, related⟩ := ended
  refine ⟨fun handle => ?_, fun left => ?_⟩
  · cases held : result.2.handle with
    | none => simp [(related.closed held).2]
    | some number =>
        obtain ⟨opened, entry, holding, _⟩ := related.opened number held
        rw [holding.handles]
        by_cases same : handle = number
        · subst same
          simp
        · simp [Function.update_of_ne same, Ne.symm same]
  · rw [left] at head
    exact (related.closed (related.shut head)).2

private theorem sevenFile_valid : ∀ file ∈ [(⟨7, 64, 128⟩ : PlannedFile)], file.Valid :=
  List.forall_mem_singleton.mpr ⟨by decide, by decide, by decide⟩

/-- A writer with one file, in an empty directory. -/
theorem writerTurns_handles_oneFile :
    OnWin32 (Win32.Documented fun _ _ _ => True) (fun result after =>
        (∀ handle, (after.handles handle).isSome ↔ result.2.handle = some handle) ∧
        (result.1 = .exited → ∀ handle, after.handles handle = none))
      ((writerTurns false [⟨7, 64, 128⟩] 5 (.outer true (-1))).carryOut carry ⟨none, 0⟩)
      (.start (fun _ => none) (fun _ => none) (fun _ => 0) 0) :=
  writerTurns_handles (PlannedFile.typed sevenFile_valid) (List.cons_ne_nil _ _) false 5 _
    (fun _ => rfl) 0

/-! ## The files -/

private theorem lenient_permitted (strict : Prop) : Lenient (Permitted plan strict) where
  data := by
    intro s request choice permitted
    cases request <;> exact permitted
  isOpen _ _ := trivial
  fileExists _ _ _ := trivial
  openFile _ _ _ _ := trivial
  allocate _ _ _ := trivial
  seek _ _ _ := trivial
  write _ _ _ := trivial
  closeFile _ _ := trivial

/-- The rules of a writer hold over several parts of `run`. -/
theorem writerTurns_verified {strict : Prop} (valid : ∀ file ∈ plan, file.Valid) (turns : Nat) :
    ∀ {control : WriterControl} {s : WriterState}, WriterPlace plan strict control s →
    Verified plan strict (WriterPlace plan strict) (writerTurns false plan turns control) s := by
  induction turns with
  | zero => exact fun place => place
  | succ turns ih =>
      intro control s place
      exact (writerBody_verified valid place).bind fun _ _ later => ih later

/-- What is safe looks at the files and at what was reported. -/
private theorem Safe.data {s : WriterState} (safe : Safe plan True s) : Safe plan True s.data where
  stored := safe.stored
  complete := safe.complete
  within := nofun

/-- Whatever the Win32 calls do, with short writes and failing calls of every kind, what the
thread has reported is in its files, and its complete files are there under their final
names: as long as no poll inside `perform_write_plot` or of the retry loop reads a set stop
flag, no file fails to be renamed, and files that are there can be read. -/
theorem writerTurns_onDisk (valid : ∀ file ∈ plan, file.Valid) (files : plan ≠ []) (turns : Nat)
    (plotting final : Nat → Option FileEntry) (writeBuffer : Memory) (lastError error : Nat) :
    OnWin32 (Win32.Dependable (Permitted plan True)) (fun _ after => Safe plan True after.view)
      ((writerTurns false plan turns (.outer true (-1))).carryOut carry ⟨none, error⟩)
      (.start plotting final writeBuffer lastError) := by
  have disciplined : fileDiscipline.Keeps (LoopHead plan)
      (writerTurns false plan turns (.outer true (-1))) .closed :=
    writerTurns_disciplined (PlannedFile.typed valid) files false turns trivial
  have start : WriterPlace plan True (.outer true (-1)) _ :=
    WriterThread.start_sound valid plotting final writeBuffer
  have carried := Refines.always (carry_refines (lenient_permitted True))
    (Win32.related_start (.start plotting final writeBuffer lastError) (fun _ => rfl) error)
    disciplined (writerTurns_verified valid turns start)
  refine carried.mono fun result after ended => ?_
  obtain ⟨mode, s, _, place, related⟩ := ended
  have sound : WriterThread.Sound plan True ⟨.done result.1, s⟩ := place
  rw [← related.data]
  exact (sound.safe valid trivial).data

/-- A writer with one file, in an empty directory. -/
theorem writerTurns_onDisk_oneFile :
    OnWin32 (Win32.Dependable (Permitted [⟨7, 64, 128⟩] True))
      (fun _ after => Safe [⟨7, 64, 128⟩] True after.view)
      ((writerTurns false [⟨7, 64, 128⟩] 5 (.outer true (-1))).carryOut carry ⟨none, 0⟩)
      (.start (fun _ => none) (fun _ => none) (fun _ => 0) 0) :=
  writerTurns_onDisk sevenFile_valid (List.cons_ne_nil _ _) 5 _ _ _ 0 0

end

end HyperPlotter.Pipeline

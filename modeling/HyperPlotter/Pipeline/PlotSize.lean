import HyperPlotter.Pipeline.PlotLayout

/-!
# The size of a plotted file

A `.plotting` file is created empty or was left by an earlier run, is allocated to
the size of its nonces, and no write ends behind that. So a file that starts no
longer than its nonces is submitted with exactly their size.
-/

namespace HyperPlotter.Pipeline

open Foundation Poc Interaction

/-- The number of bytes of a file's nonces. -/
def PlannedFile.bytes (file : PlannedFile) : Nat := file.nonces.toNat * 262144

variable {file : PlannedFile}

/-- The `.plotting` file and its submitted states are no longer than the nonces. -/
structure Sized (file : PlannedFile) (s : WriterState) : Prop where
  plotting : ∀ entry, s.plotting 0 = some entry → entry.size ≤ file.bytes
  submitted : ∀ complete entry, .submitted complete (some entry) ∈ s.history →
    entry.size ≤ file.bytes

/-- The requests of a writer with one file. -/
def WriterRequest.Single (file : PlannedFile) (request : WriterRequest) : Prop :=
  request = .pop ∨ request = .report ∨ request.OfFile 0 file

/-- The writer's program asks for its one file only. -/
theorem writerBody_single (control : WriterControl) :
    (writerBody false [file] control).Only (WriterRequest.Single file) := by
  cases control with
  | exited => trivial
  | outer success lastWriteTask =>
      cases success with
      | false => exact Only.perform (.inr (.inr trivial)) fun _ => trivial
      | true =>
          refine Only.perform (.inr (.inr trivial)) fun stop => ?_
          cases stop with
          | true => exact Only.perform (.inr (.inr trivial)) fun _ => trivial
          | false =>
              refine Only.perform (.inl rfl) fun popped => ?_
              cases popped with
              | none => trivial
              | some task =>
                  dsimp only
                  split
                  · exact Only.perform (.inr (.inr trivial)) fun _ => trivial
                  · rw [if_neg Bool.false_ne_true]
                    split
                    · exact Only.perform (.inr (.inr trivial)) fun _ => trivial
                    · trivial
  | attempt lastWriteTask task =>
      unfold writerBody writerAttempt
      simp only []
      split
      · trivial
      · rename_i other found
        obtain ⟨first, rfl⟩ : task.currentWriteTask.toNat = 0 ∧ file = other := by
          cases index : task.currentWriteTask.toNat with
          | zero => exact ⟨rfl, by simpa [index] using found⟩
          | succ index' => simp [index] at found
        rw [first]
        refine ((attemptWrite_ofFile 0 file task).mono fun _ ofFile => .inr (.inr ofFile)).bind ?_
        intro written
        cases written with
        | true => exact Only.perform (.inr (.inl rfl)) fun _ => trivial
        | false =>
            refine Only.perform (.inr (.inr trivial)) fun stop => ?_
            cases stop with
            | true => exact Only.perform (.inr (.inl rfl)) fun _ => trivial
            | false => trivial

/-- An earlier history has no more writes. -/
private theorem WritesWithin.earlier {plan : List PlannedFile} {history later : List WriterEvent}
    (within : WritesWithin plan (history ++ later)) : WritesWithin plan history :=
  fun i position count event => within i position count (List.mem_append_left later event)

/-- Replacing the `.plotting` file by one that is short enough. -/
private theorem Sized.replace {s t : WriterState} {index : Nat} {entry : FileEntry}
    (sized : Sized file s) (size : index = 0 → entry.size ≤ file.bytes)
    (plotting : t.plotting = Function.update s.plotting index (some entry))
    (history : ∀ complete other, .submitted complete (some other) ∈ t.history →
      .submitted complete (some other) ∈ s.history) : Sized file t := by
  constructor
  · intro other here
    rw [plotting] at here
    by_cases same : index = 0
    · subst same
      rw [Function.update_self] at here
      obtain rfl := Option.some.inj here
      exact size rfl
    · rw [Function.update_of_ne (Ne.symm same)] at here
      exact sized.plotting other here
  · exact fun complete other event => sized.submitted complete other (history complete other event)

section Operations

variable {s : WriterState} (before : Sized file s) (outcome : Outcome)
include before

private theorem Sized.openFile (index : Nat) (create : Bool) :
    Sized file (s.openFile outcome index create).2 := by
  unfold WriterState.openFile
  split
  · exact before
  · split
    · exact before
    · split
      · exact before.replace (fun _ => Nat.zero_le _) rfl fun _ _ event => event
      · split
        · exact ⟨before.plotting, before.submitted⟩
        · exact before

private theorem Sized.allocate : Sized file (s.allocate outcome file.bytes).2 := by
  unfold WriterState.allocate
  split
  · exact before
  · split
    · exact before
    · split
      · exact before.replace (fun _ => Nat.le_refl _) rfl fun _ _ event => event
      · exact ⟨before.plotting, before.submitted⟩

private theorem Sized.write {bytes : Nat}
    (within : WritesWithin [file] (s.write outcome bytes).2.history) :
    Sized file (s.write outcome bytes).2 := by
  unfold WriterState.write at within ⊢
  split
  · exact before
  · rename_i index entry opened
    simp only [opened] at within
    refine before.replace (fun first => ?_) rfl fun complete other event => by simpa using event
    subst first
    obtain ⟨other, found, inside⟩ := within 0 _ _
      (List.mem_append_right _ (List.mem_singleton_self _))
    obtain rfl : file = other := by simpa using found
    have here : s.plotting 0 = some entry := by
      unfold WriterState.opened at opened
      simp only [Option.bind_eq_some_iff, Option.map_eq_some_iff] at opened
      obtain ⟨_, _, _, plotting, same⟩ := opened
      obtain ⟨rfl, rfl⟩ := Prod.mk.inj same
      exact plotting
    have old := before.plotting entry here
    unfold PlannedFile.bytes at old ⊢
    dsimp only
    generalize (if outcome.ok = true then bytes else min outcome.amount bytes) = count at inside ⊢
    split <;> omega

private theorem Sized.submit (nonces initNonces : Int) :
    Sized file (s.submit 0 nonces initNonces).2 := by
  refine ⟨before.plotting, fun complete entry event => ?_⟩
  rcases List.mem_append.mp event with old | new
  · exact before.submitted complete entry old
  · obtain ⟨_, content⟩ : _ ∧ some entry = s.plotting 0 := by simpa using new
    exact before.plotting entry content.symm

private theorem Sized.rename : Sized file (s.rename outcome 0).2 := by
  have submitted : ∀ ok complete other,
      WriterEvent.submitted complete (some other) ∈ s.history ++ [.renamed ok] →
      other.size ≤ file.bytes := fun ok complete other event =>
    before.submitted complete other (by simpa using event)
  unfold WriterState.rename
  split
  · split
    · refine ⟨fun entry here => ?_, submitted true⟩
      simp at here
    · exact ⟨before.plotting, submitted false⟩
  · exact ⟨before.plotting, submitted false⟩

end Operations

/-- Requests only add to the history. -/
private theorem respond_history (choice : Choice) (s : WriterState) (request : WriterRequest) :
    ∃ events, (s.respond choice request).2.history = s.history ++ events := by
  cases request with
  | write bytes =>
      show ∃ events, (s.write choice.toOutcome bytes).2.history = s.history ++ events
      unfold WriterState.write
      split
      · exact ⟨[], (List.append_nil _).symm⟩
      · exact ⟨_, rfl⟩
  | openFile index create =>
      show ∃ events, (s.openFile choice.toOutcome index create).2.history = s.history ++ events
      refine ⟨[], ?_⟩
      rw [List.append_nil]
      unfold WriterState.openFile
      split
      · rfl
      · split
        · rfl
        · split
          · rfl
          · split <;> rfl
  | allocate bytes =>
      show ∃ events, (s.allocate choice.toOutcome bytes).2.history = s.history ++ events
      refine ⟨[], ?_⟩
      rw [List.append_nil]
      unfold WriterState.allocate
      split
      · rfl
      · split
        · rfl
        · split <;> rfl
  | seek offset =>
      show ∃ events, (s.seek choice.toOutcome offset).2.history = s.history ++ events
      refine ⟨[], ?_⟩
      rw [List.append_nil]
      unfold WriterState.seek
      split <;> rfl
  | submit index nonces initNonces => exact ⟨_, rfl⟩
  | rename index =>
      show ∃ events, (s.rename choice.toOutcome index).2.history = s.history ++ events
      unfold WriterState.rename
      split
      · split <;> exact ⟨_, rfl⟩
      · exact ⟨_, rfl⟩
  | _ => exact ⟨[], (List.append_nil _).symm⟩

variable (file) in
/-- Unless a write went outside the file, the sizes are right. -/
def SizedWithin (s : WriterState) : Prop := WritesWithin [file] s.history → Sized file s

/-- A request of the one file keeps its size, as long as the writes are in it. -/
private theorem SizedWithin.respond {choice : Choice} {s : WriterState} {request : WriterRequest}
    (single : request.Single file) (sized : SizedWithin file s) :
    SizedWithin file (s.respond choice request).2 := by
  intro within
  obtain ⟨events, history⟩ := respond_history choice s request
  have before : Sized file s := by
    rw [history] at within
    exact sized within.earlier
  have ofFile : request ≠ .pop → request ≠ .report → request.OfFile 0 file := fun pop report =>
    (single.resolve_left pop).resolve_left report
  cases request with
  | openFile index create => exact before.openFile choice.toOutcome index create
  | allocate bytes =>
      have size : (file.nonces * plotSize).toNat = file.bytes := by
        have unit : ((plotSize : Nat) : Int) = 262144 := rfl
        unfold PlannedFile.bytes
        rw [unit]
        omega
      obtain rfl : bytes = file.bytes := by
        rw [← size]
        exact ofFile (by simp) (by simp)
      exact before.allocate choice.toOutcome
  | write bytes => exact before.write choice.toOutcome within
  | submit index nonces initNonces =>
      obtain rfl : index = 0 := ofFile (by simp) (by simp)
      exact before.submit nonces initNonces
  | rename index =>
      obtain rfl : index = 0 := ofFile (by simp) (by simp)
      exact before.rename choice.toOutcome
  | seek offset =>
      show Sized file (s.seek choice.toOutcome offset).2
      unfold WriterState.seek
      split <;> exact ⟨before.plotting, before.submitted⟩
  | _ => exact ⟨before.plotting, before.submitted⟩

/-! ## The whole run -/

section Run

variable {outcomes : Nat → Outcome} {task : HasherTask} {block : Memory}

private theorem runPart_sized {point : WriterPoint} (sized : SizedWithin file point.state) :
    SizedWithin file (runPart [file] outcomes task block point).state :=
  (writerBody_single point.control).exec (SizedWithin file) sized point.position
    fun _ _ _ single held => held.respond single

private theorem runAttempts_sized (fuel : Nat) : ∀ {point : WriterPoint},
    SizedWithin file point.state →
    SizedWithin file (runAttempts [file] outcomes task block fuel point).state := by
  induction fuel with
  | zero => exact fun sized => sized
  | succ fuel ih =>
      intro point sized
      rw [runAttempts]
      split
      · exact ih (runPart_sized sized)
      · exact sized

end Run

variable {gws : Int} {run : PlotRun} {attempts : Nat}

private theorem plotLoop_sized (rounds : Nat) : ∀ (round : Nat) (state : PlotState),
    SizedWithin file state.point.state →
    SizedWithin file (plotLoop file gws run attempts rounds round state).point.state := by
  induction rounds with
  | zero => exact fun _ _ sized => sized
  | succ rounds ih =>
      intro round state sized
      rw [plotLoop]
      split
      · exact sized
      · exact ih _ _ (runAttempts_sized attempts (runPart_sized sized))

/-- No `.plotting` file longer than the nonces is there at the start. -/
def PlotRun.Clean (run : PlotRun) (file : PlannedFile) : Prop :=
  ∀ entry, run.plotting 0 = some entry → entry.size ≤ file.bytes

/-- The files of a clean run are no longer than their nonces. -/
theorem plotFile_sized (clean : run.Clean file)
    (within : WritesWithin [file] (plotFile file gws run attempts).point.state.history) :
    Sized file (plotFile file gws run attempts).point.state :=
  plotLoop_sized _ 0 (plotStart file run) (fun _ => ⟨clean, nofun⟩) within

end HyperPlotter.Pipeline

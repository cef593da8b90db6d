import HyperPlotter.Pipeline.PlotSize
import HyperPlotter.Pipeline.Whole

/-!
# Files under their final names

What a run does to the files that are there when it starts. A final name is taken by
a rename only, so what is under it is what was there before or a whole file. A file is
never made longer than its nonces.
-/

namespace HyperPlotter.Pipeline

open Foundation Poc Interaction

/-! ## The requests of a writer -/

/-- Only a rename changes what is under a final name. -/
theorem WriterState.respond_final (choice : Choice) (s : WriterState) (request : WriterRequest) :
    (s.respond choice request).2.final = s.final ∨
      ∃ index entry, request = .rename index ∧ s.plotting index = some entry ∧
        (s.respond choice request).2.final = Function.update s.final index (some entry) := by
  cases request with
  | rename index =>
      show (s.rename choice.toOutcome index).2.final = s.final ∨ ∃ other entry, _ ∧ _ ∧
        (s.rename choice.toOutcome index).2.final = _
      unfold WriterState.rename
      split
      · next entry there =>
          split
          · exact .inr ⟨index, entry, rfl, there, rfl⟩
          · exact .inl rfl
      · exact .inl rfl
  | openFile index create =>
      left
      show (s.openFile choice.toOutcome index create).2.final = s.final
      unfold WriterState.openFile
      split
      · rfl
      · split
        · rfl
        · split
          · rfl
          · split <;> rfl
  | allocate bytes =>
      left
      show (s.allocate choice.toOutcome bytes).2.final = s.final
      unfold WriterState.allocate
      split
      · rfl
      · split
        · rfl
        · split <;> rfl
  | seek offset =>
      left
      show (s.seek choice.toOutcome offset).2.final = s.final
      unfold WriterState.seek
      split <;> rfl
  | write bytes =>
      left
      show (s.write choice.toOutcome bytes).2.final = s.final
      unfold WriterState.write
      split <;> rfl
  | _ => exact .inl rfl

/-- A request that allocates nothing. -/
def WriterRequest.Plain : WriterRequest → Prop
  | .allocate _ => False
  | _ => True

/-- The inner loop only makes plain requests. -/
theorem chunkLoop_plain (curScoop : Int) (rounds : Nat) : ∀ nstart nonces : Int,
    (chunkLoop curScoop rounds nstart nonces).Only WriterRequest.Plain := by
  induction rounds with
  | zero => exact fun _ _ => Only.perform trivial fun _ => trivial
  | succ rounds ih =>
      intro nstart nonces
      rw [chunkLoop]
      refine Only.perform trivial fun stop => ?_
      split
      · trivial
      · refine Only.perform trivial fun _ => Only.perform trivial fun written => ?_
        cases written with
        | true => exact ih _ _
        | false => trivial

/-- The loop over the scoops only makes plain requests. -/
theorem scoopLoop_plain (file : PlannedFile) (task : HasherTask) (rest : Nat) :
    ∀ curScoop : Int, (scoopLoop file task rest curScoop).Only WriterRequest.Plain := by
  induction rest with
  | zero => exact fun _ => Only.perform trivial fun _ => trivial
  | succ rest ih =>
      intro curScoop
      rw [scoopLoop]
      refine Only.perform trivial fun stop => ?_
      cases stop with
      | true => trivial
      | false =>
          refine Only.perform trivial fun sought => ?_
          cases sought with
          | false => trivial
          | true =>
              refine (chunkLoop_plain _ _ _ _).bind fun written => ?_
              cases written with
              | true => exact ih _
              | false => trivial

/-- The open file is made as long as its nonces. -/
def AllocatesOwn (plan : List PlannedFile) (s : WriterState) (request : WriterRequest) : Prop :=
  ∀ bytes, request = .allocate bytes → ∀ index entry, s.opened = some (index, entry) →
    ∃ file, plan[index]? = some file ∧ bytes = file.bytes

/-- `Always` for the length of the open file. -/
abbrev Allocating {α : Type} (plan : List PlannedFile) (program : WriterProgram α)
    (s : WriterState) : Prop :=
  Always WriterState.respond (fun _ _ _ => True) (AllocatesOwn plan) (fun _ _ => True) program s

section

variable {plan : List PlannedFile} {s : WriterState}

private theorem WriterRequest.Plain.allocatesOwn {request : WriterRequest} (plain : request.Plain) :
    AllocatesOwn plan s request := by
  rintro bytes rfl
  exact absurd plain id

/-- A program that allocates nothing. -/
private theorem Allocating.of_plain {α : Type} {program : WriterProgram α}
    (only : program.Only WriterRequest.Plain) : Allocating plan program s :=
  only.always (fun _ _ plain => plain.allocatesOwn) s

/-- The rule for a request that allocates nothing. -/
private theorem Allocating.perform {α : Type} {request : WriterRequest}
    {next : request.Reply → WriterProgram α} (plain : request.Plain)
    (rest : ∀ choice, Allocating plan (next (s.respond choice request).1)
      (s.respond choice request).2) : Allocating plan (call request >>= next) s :=
  always_perform.mpr ⟨plain.allocatesOwn, fun choice _ => rest choice⟩

private theorem bytes_eq (file : PlannedFile) : (file.nonces * plotSize).toNat = file.bytes := by
  have unit : ((plotSize : Nat) : Int) = 262144 := rfl
  unfold PlannedFile.bytes
  rw [unit]
  omega

/-- With a closed handle, opening a file opens that one or none. -/
private theorem openFile_handle (closed : s.handle = none) (outcome : Outcome) (index : Nat)
    (create : Bool) : (s.openFile outcome index create).2.handle = none ∨
      (s.openFile outcome index create).2.handle = some index := by
  unfold WriterState.openFile
  rw [closed]
  split
  · next isOpen => cases isOpen
  · split
    · exact .inl closed
    · split
      · exact .inr rfl
      · split
        · exact .inr rfl
        · exact .inl closed

/-- The open file is that of the handle. -/
theorem opened_handle {index : Nat} {entry : FileEntry}
    (opened : s.opened = some (index, entry)) :
    s.handle = some index ∧ s.plotting index = some entry := by
  unfold WriterState.opened at opened
  simp only [Option.bind_eq_some_iff, Option.map_eq_some_iff] at opened
  obtain ⟨held, here, found, there, same⟩ := opened
  obtain ⟨rfl, rfl⟩ := Prod.mk.inj same
  exact ⟨here, there⟩

/-- A file that was just opened is the one that is allocated. -/
theorem openPlotting_allocating {index : Nat} {file : PlannedFile} (found : plan[index]? = some file) :
    Allocating plan (openPlotting index file) s := by
  refine Allocating.perform trivial fun choice => ?_
  have asked : s.respond choice .isOpen = (s.handle.isSome, s) := rfl
  rw [asked]
  cases handle : s.handle with
  | some other => exact trivial
  | none =>
      refine Allocating.perform trivial fun _ => Allocating.perform trivial fun opening => ?_
      refine always_perform.mpr ⟨?_, fun _ _ => trivial⟩
      rintro bytes ⟨⟩ other entry opened
      obtain ⟨here, _⟩ := opened_handle opened
      have same : other = index := by
        rcases openFile_handle handle opening.toOutcome index (!(s.plotting index).isSome)
          with closed | mine
        · exact absurd (closed.symm.trans here) nofun
        · exact Option.some.inj (here.symm.trans mine)
      subst same
      exact ⟨file, found, bytes_eq file⟩

/-- A write attempt allocates its own file only. -/
theorem attemptWrite_allocating {index : Nat} {file : PlannedFile}
    (found : plan[index]? = some file) (task : HasherTask) :
    Allocating plan (attemptWrite index file task) s := by
  refine (openPlotting_allocating found).bind fun _ s _ => ?_
  refine (Allocating.of_plain (scoopLoop_plain file task scoopsPerPlot 0)).bind fun written s _ => ?_
  cases written with
  | false => exact Allocating.perform trivial fun _ => trivial
  | true =>
      refine Allocating.perform trivial fun _ => ?_
      split
      · exact Allocating.perform trivial fun _ => Allocating.perform trivial fun _ => trivial
      · trivial

/-- A writer allocates its open files as long as their nonces. -/
theorem writerBody_allocating (bench : Bool) (control : WriterControl) :
    Allocating plan (writerBody bench plan control) s := by
  match control with
  | .exited => trivial
  | .outer false _ => exact Allocating.perform trivial fun _ => trivial
  | .outer true lastWriteTask =>
      refine Allocating.perform trivial fun _ => ?_
      split
      · exact Allocating.perform trivial fun _ => trivial
      · refine Allocating.perform trivial fun popping => ?_
        split
        · trivial
        · split
          · exact Allocating.perform trivial fun _ => trivial
          · split
            · exact Allocating.perform trivial fun _ => trivial
            · split
              · exact Allocating.perform trivial fun _ => trivial
              · trivial
  | .attempt lastWriteTask task =>
      show Allocating plan (writerAttempt plan lastWriteTask task) s
      unfold writerAttempt
      split
      · trivial
      · next file found =>
          refine (attemptWrite_allocating found task).bind fun ok s _ => ?_
          split
          · exact Allocating.perform trivial fun _ => trivial
          · refine Allocating.perform trivial fun _ => ?_
            split
            · exact Allocating.perform trivial fun _ => trivial
            · trivial

/-! ## Sizes -/

variable (plan) in
/-- No file is longer than its nonces, under either name. -/
def WithinSizes (s : WriterState) : Prop :=
  ∀ index file entry, plan[index]? = some file →
    s.plotting index = some entry ∨ s.final index = some entry → entry.size ≤ file.bytes

/-- Replacing a `.plotting` file by one that is short enough, or by none. -/
private theorem WithinSizes.replace {t : WriterState} {index : Nat} {content : Option FileEntry}
    (sizes : WithinSizes plan s) (plotting : t.plotting = Function.update s.plotting index content)
    (final : t.final = s.final) (short : ∀ file entry, plan[index]? = some file →
      content = some entry → entry.size ≤ file.bytes) : WithinSizes plan t := by
  rintro other file entry found (there | there)
  · rw [plotting] at there
    by_cases same : other = index
    · subst same
      rw [Function.update_self] at there
      exact short file entry found there
    · rw [Function.update_of_ne same] at there
      exact sizes other file entry found (.inl there)
  · rw [final] at there
    exact sizes other file entry found (.inr there)

private theorem WithinSizes.openFile (sizes : WithinSizes plan s) (outcome : Outcome) (index : Nat)
    (create : Bool) : WithinSizes plan (s.openFile outcome index create).2 := by
  unfold WriterState.openFile
  split
  · exact sizes
  · split
    · exact sizes
    · split
      · refine sizes.replace rfl rfl fun file entry _ made => ?_
        obtain rfl := Option.some.inj made
        exact Nat.zero_le _
      · split
        · exact sizes
        · exact sizes

private theorem WithinSizes.allocate (sizes : WithinSizes plan s) (outcome : Outcome) {bytes : Nat}
    (own : AllocatesOwn plan s (.allocate bytes)) :
    WithinSizes plan (s.allocate outcome bytes).2 := by
  unfold WriterState.allocate
  split
  · exact sizes
  · next index old opened =>
      split
      · exact sizes
      · split
        · refine sizes.replace rfl rfl fun file entry found made => ?_
          obtain rfl := Option.some.inj made
          obtain ⟨mine, here, size⟩ := own bytes rfl index old opened
          obtain rfl := Option.some.inj (here.symm.trans found)
          exact Nat.le_of_eq size
        · exact sizes

private theorem WithinSizes.write (sizes : WithinSizes plan s) (outcome : Outcome) {bytes : Nat}
    (within : WritesWithin plan (s.write outcome bytes).2.history) :
    WithinSizes plan (s.write outcome bytes).2 := by
  unfold WriterState.write at within ⊢
  split
  · exact sizes
  · next index old opened =>
      simp only [opened] at within
      obtain ⟨_, there⟩ := opened_handle opened
      refine sizes.replace rfl rfl fun file entry found made => ?_
      obtain rfl := Option.some.inj made
      have before := sizes index file old found (.inl there)
      obtain ⟨mine, here, inside⟩ := within index _ _
        (List.mem_append_right _ (List.mem_singleton_self _))
      obtain rfl := Option.some.inj (here.symm.trans found)
      unfold PlannedFile.bytes at before ⊢
      dsimp only
      generalize (if outcome.ok = true then bytes else min outcome.amount bytes) = count at inside ⊢
      split <;> omega

private theorem WithinSizes.rename (sizes : WithinSizes plan s) (outcome : Outcome) (index : Nat) :
    WithinSizes plan (s.rename outcome index).2 := by
  unfold WriterState.rename
  split
  · next old there =>
      split
      · rintro other file entry found (plotting | final)
        · simp only at plotting
          by_cases same : other = index
          · subst same
            rw [Function.update_self] at plotting
            cases plotting
          · rw [Function.update_of_ne same] at plotting
            exact sizes other file entry found (.inl plotting)
        · simp only at final
          by_cases same : other = index
          · subst same
            rw [Function.update_self] at final
            obtain rfl := Option.some.inj final
            exact sizes other file old found (.inl there)
          · rw [Function.update_of_ne same] at final
            exact sizes other file entry found (.inr final)
      · exact sizes
  · exact sizes

/-- A request keeps the sizes, as long as what it writes is in the file. -/
theorem WithinSizes.respond (sizes : WithinSizes plan s) {request : WriterRequest}
    (own : AllocatesOwn plan s request) (choice : Choice)
    (within : WritesWithin plan (s.respond choice request).2.history) :
    WithinSizes plan (s.respond choice request).2 := by
  cases request with
  | openFile index create => exact sizes.openFile choice.toOutcome index create
  | allocate bytes => exact sizes.allocate choice.toOutcome own
  | write bytes => exact sizes.write choice.toOutcome within
  | rename index => exact sizes.rename choice.toOutcome index
  | seek offset =>
      show WithinSizes plan (s.seek choice.toOutcome offset).2
      unfold WriterState.seek
      split <;> exact sizes
  | _ => exact sizes

end

namespace System

variable {setup : PlotterSetup} {start s t : System}

/-- The writers allocate their open files as long as their nonces. -/
private theorem reachable_allocating (reached : setup.machine.Reachable s) (i : Nat) :
    Allocating (setup.plan i) (s.threads i).program (s.threads i).state := by
  refine Machine.Reaches.invariant
    (fun s : System => ∀ i, Allocating (setup.plan i) (s.threads i).program (s.threads i).state)
    (fun starts i => ?_) (fun {_ event _} _ before _ taken i => ?_) reached i
  · obtain ⟨plotting, final, writeBuffer, thread⟩ := Start.threads starts i
    rw [thread]
    exact trivial
  · have here := before i
    cases step_thread taken i with
    | away _ same =>
        rw [same]
        exact here
    | turn _ _ turned =>
        rw [turned]
        exact writerBody_allocating _ _
    | answer _ asks answered =>
        rw [asks] at here
        rw [answered]
        exact here.2 _ trivial

/-- In a run where nothing disturbs the writers no file gets longer than its nonces. -/
theorem reaches_withinSizes (valid : setup.Valid) (plots : setup.bench = 0)
    (starts : start.Start setup) (short : ∀ i, i < setup.plans.length →
      WithinSizes (setup.plan i) (start.threads i).state)
    (run : (setup.machine.startingAt start).Reaches (Undisturbed True) s) :
    ∀ i, i < setup.plans.length → WithinSizes (setup.plan i) (s.threads i).state := by
  refine Machine.Reaches.invariant
    (fun s : System => ∀ i, i < setup.plans.length → WithinSizes (setup.plan i) (s.threads i).state)
    (fun same => ?_) (fun {s event t} reached before undisturbed taken i writer => ?_) run
  · obtain rfl := same
    exact short
  · have here := before i writer
    have reached : setup.machine.Reaches (Undisturbed True) s := reached.ofStartingAt starts
    have after := reaches_delivered valid plots (.step reached undisturbed taken)
    have anywhere : setup.machine.Reachable s := reached.mono fun _ _ _ => trivial
    have step : s.step setup event = some t := taken
    have safe := (after.sound i writer).safe (valid.plan i) trivial
    cases step_thread step i with
    | away _ same =>
        rw [same]
        exact here
    | turn _ _ turned =>
        rw [turned]
        exact here
    | answer _ asks answered =>
        have own := reachable_allocating anywhere i
        rw [asks] at own
        rw [answered] at safe ⊢
        exact here.respond own.1 _ safe.within

/-! ## What a run leaves -/

/-- What is under a final name changes only when the writer renames the file. -/
theorem step_final {event : SystemEvent} (taken : s.step setup event = some t) (i index : Nat) :
    (t.threads i).state.final index = (s.threads i).state.final index ∨
      ∃ next entry, (s.threads i).program = .ask (.rename index) next ∧
        (s.threads i).state.plotting index = some entry ∧
        (t.threads i).state.final index = some entry := by
  cases step_thread taken i with
  | away _ same => exact .inl (by rw [same])
  | turn _ _ turned => exact .inl (by rw [turned]; rfl)
  | @answer outcome request next _ asks answered =>
      rw [answered]
      rcases (s.threads i).state.respond_final (s.choice i outcome) request with same | renamed
      · exact .inl (congrFun same index)
      · obtain ⟨other, entry, rfl, there, renamed⟩ := renamed
        have final : ((s.threads i).answer (.rename other) next (s.choice i outcome)).state.final =
          Function.update (s.threads i).state.final other (some entry) := renamed
        rw [final]
        by_cases own : index = other
        · subst own
          exact .inr ⟨next, entry, asks, there, Function.update_self ..⟩
        · exact .inl (Function.update_of_ne own ..)

/-- What is under a final name was there at the start or has the PoC2 layout. -/
theorem reaches_finals (valid : setup.Valid) (plots : setup.Plots)
    (starts : start.Start setup)
    (run : (setup.machine.startingAt start).Reaches (Undisturbed False) s) :
    ∀ i, i < setup.plans.length → ∀ index,
      (s.threads i).state.final index = (start.threads i).state.final index ∨
        ∃ file entry, (setup.plan i)[index]? = some file ∧
          (s.threads i).state.final index = some entry ∧ PoC2Layout file entry := by
  refine Machine.Reaches.invariant (fun s : System => ∀ i, i < setup.plans.length → ∀ index,
      (s.threads i).state.final index = (start.threads i).state.final index ∨
        ∃ file entry, (setup.plan i)[index]? = some file ∧
          (s.threads i).state.final index = some entry ∧ PoC2Layout file entry)
    (fun same => ?_) (fun {s event t} reached before undisturbed taken i writer index => ?_) run
  · obtain rfl := same
    exact fun _ _ _ => .inl rfl
  · have reached : setup.machine.Reaches (Undisturbed False) s := reached.ofStartingAt starts
    have delivered := reaches_delivered valid plots.bench reached
    rcases step_final taken i index with same | ⟨next, entry, asks, there, final⟩
    · rw [same]
      exact before i writer index
    · obtain ⟨file, written, found, plotting, sequence, complete, holds⟩ :=
        ((delivered.sound i writer).guarded asks).rename index rfl
      obtain rfl : written = entry := Option.some.inj (plotting.symm.trans there)
      exact .inr ⟨file, written, found, final,
        delivered.layout valid plots writer (fun _ member => member) sequence found complete holds⟩

end System

end HyperPlotter.Pipeline

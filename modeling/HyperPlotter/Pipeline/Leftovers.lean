import HyperPlotter.Pipeline.Finals
import HyperPlotter.Pipeline.WriterProgress

/-!
# What a killed run leaves

A writer that finds none of its files there makes them one after the other. At
any moment the first files are renamed, the next one may be begun, and nothing is
there of the others, as long as no stop is read in the middle of a task and no
rename fails.
-/

namespace HyperPlotter.Pipeline

open Foundation Poc Interaction

/-- The first `k` files are renamed, and of the others only file `k` may be begun. -/
structure Begun (plan : List PlannedFile) (k : Nat) (s : WriterState) : Prop where
  renamed : ∀ j, j < k → s.plotting j = none ∧ (s.final j).isSome
  ahead : ∀ j, k ≤ j → j < plan.length → s.final j = none
  untouched : ∀ j, k < j → j < plan.length → s.plotting j = none
  handle : ∀ j, s.handle = some j → j = k
  counted : ∀ j file, j < k → plan[j]? = some file → s.submitted j = file.nonces

/-- The choices under which the rules hold, in states with what the requests need. -/
def PermittedSoundly (plan : List PlannedFile) (s : WriterState) (request : WriterRequest)
    (choice : Choice) : Prop :=
  Permitted plan True s request choice ∧ Guarded plan True s request

/-- `Always` for the files one after the other. -/
abbrev OneByOne {α : Type} (plan : List PlannedFile) (post : α → WriterState → Prop)
    (program : WriterProgram α) (s : WriterState) : Prop :=
  Always WriterState.respond (PermittedSoundly plan) (fun s _ => ∃ k, Begun plan k s) post program s

section

variable {plan : List PlannedFile} {k : Nat} {s t : WriterState}

/-- `Begun` looks at the files, the handle and the counters. -/
private theorem Begun.of_eq (begun : Begun plan k s) (plotting : t.plotting = s.plotting)
    (final : t.final = s.final) (handle : t.handle = s.handle)
    (submitted : t.submitted = s.submitted) : Begun plan k t := by
  constructor
  · simpa only [plotting, final] using begun.renamed
  · simpa only [final] using begun.ahead
  · simpa only [plotting] using begun.untouched
  · simpa only [handle] using begun.handle
  · simpa only [submitted] using begun.counted

/-- The file begun gets other contents. -/
private theorem Begun.replace (begun : Begun plan k s) {content : Option FileEntry}
    (plotting : t.plotting = Function.update s.plotting k content) (final : t.final = s.final)
    (handle : ∀ j, t.handle = some j → j = k) (submitted : t.submitted = s.submitted) :
    Begun plan k t := by
  have others : ∀ j, j ≠ k → t.plotting j = s.plotting j := by
    intro j differ
    rw [plotting, Function.update_of_ne differ]
  constructor
  · intro j before
    rw [others j (Nat.ne_of_lt before), final]
    exact begun.renamed j before
  · simpa only [final] using begun.ahead
  · intro j after inside
    rw [others j (Nat.ne_of_gt after)]
    exact begun.untouched j after inside
  · exact handle
  · simpa only [submitted] using begun.counted

/-- What an attempt asks before it submits keeps the files in order. -/
private theorem Begun.respond (begun : Begun plan k s) {file : PlannedFile}
    {request : WriterRequest} (writes : request.Writes k file) (choice : Choice) :
    Begun plan k (s.respond choice request).2 := by
  cases request with
  | openFile index create =>
      obtain rfl : index = k := writes
      show Begun plan index (s.openFile choice.toOutcome index create).2
      unfold WriterState.openFile
      split
      · exact begun
      · split
        · exact begun
        · split
          · exact begun.replace rfl rfl (fun j here => (Option.some.inj here).symm) rfl
          · split
            · exact begun.replace (Function.update_eq_self ..).symm rfl
                (fun j here => (Option.some.inj here).symm) rfl
            · exact begun
  | allocate bytes =>
      show Begun plan k (s.allocate choice.toOutcome bytes).2
      unfold WriterState.allocate
      split
      · exact begun
      · next index old opened =>
          obtain ⟨here, _⟩ := opened_handle opened
          obtain rfl := begun.handle index here
          split
          · exact begun
          · split
            · exact begun.replace rfl rfl begun.handle rfl
            · exact begun.of_eq rfl rfl rfl rfl
  | seek offset =>
      show Begun plan k (s.seek choice.toOutcome offset).2
      unfold WriterState.seek
      split
      · exact begun
      · exact begun.of_eq rfl rfl rfl rfl
  | write bytes =>
      show Begun plan k (s.write choice.toOutcome bytes).2
      unfold WriterState.write
      split
      · exact begun
      · next index old opened =>
          obtain ⟨here, _⟩ := opened_handle opened
          obtain rfl := begun.handle index here
          exact begun.replace rfl rfl begun.handle rfl
  | closeFile => exact ⟨begun.renamed, begun.ahead, begun.untouched, nofun, begun.counted⟩
  | stopped => exact begun
  | isOpen => exact begun
  | fileExists => exact begun
  | gather => exact begun.of_eq rfl rfl rfl rfl
  | pop => exact writes.elim
  | report => exact writes.elim
  | submit => exact writes.elim
  | rename => exact writes.elim

private theorem Begun.keeps {α : Type} {program : WriterProgram α} {file : PlannedFile}
    (begun : Begun plan k s) (only : program.Only (WriterRequest.Writes k file)) :
    OneByOne plan (fun _ => Begun plan k) program s :=
  only.keeps (Begun plan k) begun (fun choice _ _ writes _ begun => begun.respond writes choice)
    fun _ _ _ begun => ⟨k, begun⟩

/-- A complete file is renamed, and the next one is ahead. -/
private theorem Begun.rename (begun : Begun plan k s) (closed : s.handle = none)
    {file : PlannedFile} (found : plan[k]? = some file) (full : s.submitted k = file.nonces)
    {entry : FileEntry} (there : s.plotting k = some entry) {outcome : Outcome}
    (goes : outcome.ok = true) : Begun plan (k + 1) (s.rename outcome k).2 := by
  simp only [WriterState.rename, there, goes, if_true]
  constructor
  · intro j before
    by_cases same : j = k
    · subst same
      simp
    · simpa [Function.update_of_ne same] using begun.renamed j (by omega)
  · intro j after inside
    simpa [Function.update_of_ne (show j ≠ k by omega)] using begun.ahead j (by omega) inside
  · intro j after inside
    simpa [Function.update_of_ne (show j ≠ k by omega)] using
      begun.untouched j (by omega) inside
  · intro j here
    simp only at here
    rw [closed] at here
    cases here
  · intro j other before here
    by_cases same : j = k
    · subst same
      obtain rfl : file = other := Option.some.inj (found.symm.trans here)
      exact full
    · exact begun.counted j other (by omega) here

/-- Nonces are submitted for the file begun. -/
private theorem Begun.submit (begun : Begun plan k s) (nonces initNonces : Int) :
    Begun plan k (s.submit k nonces initNonces).2 ∧
      ((s.submit k nonces initNonces).1 = true →
        (s.submit k nonces initNonces).2.submitted k = initNonces) := by
  refine ⟨⟨begun.renamed, begun.ahead, begun.untouched, begun.handle, fun j file before found => ?_⟩,
    fun complete => ?_⟩
  · rw [← begun.counted j file before found]
    exact Function.update_of_ne (Nat.ne_of_lt before) ..
  · simpa [WriterState.submit, submitNonces] using complete

/-- An attempt at file `k` leaves it the file begun, or renamed. -/
theorem attemptWrite_oneByOne {file : PlannedFile} (found : plan[k]? = some file)
    (begun : Begun plan k s) (task : HasherTask) :
    OneByOne plan (fun ok s => Begun plan k s ∨ ok = true ∧ Begun plan (k + 1) s)
      (attemptWrite k file task) s := by
  have close : WriterRequest.closeFile.Writes k file := trivial
  refine (begun.keeps (openPlotting_writes k file)).bind fun _ s begun => ?_
  refine (begun.keeps (scoopLoop_writes k file task scoopsPerPlot 0)).bind fun written s begun => ?_
  cases written with
  | false =>
      apply always_perform.mpr
      exact ⟨⟨k, begun⟩, fun choice _ => .inl (begun.respond close choice)⟩
  | true =>
      refine always_perform.mpr ⟨⟨k, begun⟩, fun choice _ => ?_⟩
      have counted := begun.submit task.nonces file.nonces
      have answered : s.respond choice (.submit k task.nonces file.nonces) =
        s.submit k task.nonces file.nonces := rfl
      rw [answered]
      generalize s.submit k task.nonces file.nonces = reply at counted
      obtain ⟨complete, s⟩ := reply
      obtain ⟨begun, full⟩ := counted
      cases complete with
      | false => exact .inl begun
      | true =>
          refine always_perform.mpr ⟨⟨k, begun⟩, fun first _ => ?_⟩
          have closed : Begun plan k (s.respond first .closeFile).2 :=
            begun.respond close first
          refine always_perform.mpr ⟨⟨k, closed⟩, fun second goes => .inr ⟨rfl, ?_⟩⟩
          obtain ⟨permitted, guarded⟩ := goes
          obtain ⟨_, entry, _, there, _⟩ := guarded.rename k rfl
          exact closed.rename rfl found (full rfl) there (permitted trivial)

/-! ## The thread -/

/-- The outer loop leaves the files alone. -/
private theorem writerOuter_only (plan : List PlannedFile) (success : Bool) (lastWriteTask : Int) :
    (writerOuter false plan success lastWriteTask).Only fun request =>
      request = .pop ∨ request = .closeFile ∨ request = .stopped .outer := by
  unfold writerOuter leaveWriter
  cases success with
  | false => exact Only.perform (.inr (.inl rfl)) fun _ => trivial
  | true =>
      refine Only.perform (.inr (.inr rfl)) fun stop => ?_
      cases stop with
      | true => exact Only.perform (.inr (.inl rfl)) fun _ => trivial
      | false =>
          refine Only.perform (.inl rfl) fun popped => ?_
          cases popped with
          | none => trivial
          | some task =>
              dsimp only
              split
              · exact Only.perform (.inr (.inl rfl)) fun _ => trivial
              · split
                · contradiction
                · split
                  · exact Only.perform (.inr (.inl rfl)) fun _ => trivial
                  · trivial

/-- The outer loop makes the files one after the other. -/
theorem writerOuter_oneByOne (begun : Begun plan k s) (success : Bool) (lastWriteTask : Int) :
    OneByOne plan (fun _ s => ∃ k, Begun plan k s) (writerOuter false plan success lastWriteTask)
      s := by
  refine ((writerOuter_only plan success lastWriteTask).keeps (Begun plan k) begun ?_ ?_).mono
    fun _ s begun => ⟨k, begun⟩
  · rintro choice s request (rfl | rfl | rfl) _ begun
    · exact begun.of_eq rfl rfl rfl rfl
    · exact ⟨begun.renamed, begun.ahead, begun.untouched, nofun, begun.counted⟩
    · exact begun
  · exact fun s _ _ begun => ⟨k, begun⟩

/-- An attempt is made at the file begun. -/
private theorem Begun.eq_index (begun : Begun plan k s) {index : Nat} {file : PlannedFile}
    {task : HasherTask} {block : Memory} (attempting : Attempting plan True index file task block s) :
    k = index := by
  obtain ⟨disk, _, next, _⟩ := attempting
  have inside : index < plan.length := (List.getElem?_eq_some_iff.mp next.found).1
  apply Nat.le_antisymm
  · by_contra less
    rw [Nat.not_le] at less
    have full := begun.counted index file less next.found
    rw [disk.counted index file next.found] at full
    have fits := next.fits
    have positive := next.positive
    omega
  · by_contra less
    rw [Nat.not_le] at less
    have found : plan[k]? = some plan[k] := List.getElem?_eq_getElem (by omega)
    obtain ⟨entry, place, _⟩ := disk.complete k _ found (next.before k _ less found)
    rw [begun.ahead k (Nat.le_refl k) (by omega)] at place
    simp at place

/-- A write attempt makes its file after the earlier ones. -/
theorem writerAttempt_oneByOne (begun : Begun plan k s) {lastWriteTask : Int} {task : HasherTask}
    (place : WriterPlace plan True (.attempt lastWriteTask task) s) :
    OneByOne plan (fun _ s => ∃ k, Begun plan k s) (writerAttempt plan lastWriteTask task) s := by
  obtain ⟨_, index, file, block, attempting⟩ := place
  obtain rfl := begun.eq_index attempting
  have found := attempting.next.found
  have current : task.currentWriteTask.toNat = k := by
    have here := attempting.next.current
    omega
  unfold writerAttempt
  rw [current, found]
  refine (attemptWrite_oneByOne found begun task).bind fun ok s after => ?_
  have some_begun : ∃ k, Begun plan k s := after.elim (fun begun => ⟨k, begun⟩) fun ⟨_, begun⟩ => ⟨_, begun⟩
  have reports : ∀ choice, ∃ k, Begun plan k (s.respond choice .report).2 := fun choice =>
    some_begun.imp fun _ begun => begun.of_eq rfl rfl rfl rfl
  cases ok with
  | true => exact always_perform.mpr ⟨some_begun, fun choice _ => reports choice⟩
  | false =>
      refine always_perform.mpr ⟨some_begun, fun choice _ => ?_⟩
      have asked : s.respond choice (.stopped .retry) = (choice.stop, s) := rfl
      rw [asked]
      cases choice.stop with
      | true =>
          rw [if_pos rfl]
          exact always_perform.mpr ⟨some_begun, fun choice _ => reports choice⟩
      | false =>
          rw [if_neg Bool.false_ne_true]
          exact some_begun

/-- A part of `run` makes the files one after the other. -/
theorem writerBody_oneByOne (begun : Begun plan k s) {control : WriterControl}
    (place : WriterPlace plan True control s) :
    OneByOne plan (fun _ s => ∃ k, Begun plan k s) (writerBody false plan control) s := by
  cases control with
  | outer success lastWriteTask => exact writerOuter_oneByOne begun success lastWriteTask
  | attempt lastWriteTask task => exact writerAttempt_oneByOne begun place
  | exited => exact ⟨k, begun⟩

end

namespace System

variable {setup : PlotterSetup} {start s : System}

/-- No file of a plan is there under either name. -/
def Unplanned (setup : PlotterSetup) (s : System) : Prop :=
  ∀ i index, index < (setup.plan i).length →
    (s.threads i).state.plotting index = none ∧ (s.threads i).state.final index = none

/-- From nothing, the files of a writer are made one after the other. -/
private theorem reaches_oneByOne (valid : setup.Valid) (plots : setup.bench = 0)
    (starts : start.Start setup) (fresh : Unplanned setup start)
    (run : (setup.machine.startingAt start).Reaches (Undisturbed True) s) :
    ∀ i, i < setup.plans.length → OneByOne (setup.plan i) (fun _ s => ∃ k, Begun (setup.plan i) k s)
      (s.threads i).program (s.threads i).state := by
  refine Machine.Reaches.invariant (fun s : System => ∀ i, i < setup.plans.length →
    OneByOne (setup.plan i) (fun _ s => ∃ k, Begun (setup.plan i) k s)
      (s.threads i).program (s.threads i).state)
    (fun same i _ => ?_) (fun {s event t} reached before undisturbed taken i writer => ?_) run
  · obtain rfl := same
    have nothing := fresh i
    obtain ⟨plotting, final, writeBuffer, thread⟩ := Start.threads starts i
    rw [thread] at nothing ⊢
    refine ⟨0, ⟨fun j before => (Nat.not_lt_zero j before).elim, fun j _ inside => ?_,
      fun j _ inside => ?_, nofun, fun j _ before => (Nat.not_lt_zero j before).elim⟩⟩
    · exact (nothing j inside).2
    · exact (nothing j inside).1
  · have here := before i writer
    have reached : setup.machine.Reaches (Undisturbed True) s := reached.ofStartingAt starts
    have delivered := reaches_delivered valid plots reached
    have sound := delivered.sound i writer
    have step : s.step setup event = some t := taken
    cases step_thread step i with
    | away _ same => rwa [same]
    | @turn _ control _ done turned =>
        unfold WriterThread.Sound at sound
        rw [done] at here sound
        rw [turned, plots]
        obtain ⟨k, begun⟩ := here
        exact writerBody_oneByOne begun sound
    | answer own asks answered =>
        subst own
        have guarded := sound.guarded asks
        rw [asks] at here
        rw [answered]
        exact here.2 _ ⟨delivered.permitted writer asks undisturbed, guarded⟩

/-- At any moment the first files are renamed, the next may be begun, and nothing is
there of the others. -/
theorem reaches_begun (valid : setup.Valid) (plots : setup.bench = 0)
    (starts : start.Start setup) (fresh : Unplanned setup start)
    (run : (setup.machine.startingAt start).Reaches (Undisturbed True) s) :
    ∀ i, i < setup.plans.length → ∃ k, Begun (setup.plan i) k (s.threads i).state := by
  intro i writer
  have here := reaches_oneByOne valid plots starts fresh run i writer
  cases running : (s.threads i).program with
  | done control =>
      rw [running] at here
      exact here
  | ask request next =>
      rw [running] at here
      exact here.1

end System

end HyperPlotter.Pipeline

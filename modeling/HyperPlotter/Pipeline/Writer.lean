import Mathlib.Logic.Function.Basic
import HyperPlotter.Foundation.Interaction
import HyperPlotter.Pipeline.Tasks
import HyperPlotter.Poc.Address
import HyperPlotter.Poc.Base

/-!
# The writer thread

`writer_worker::run` and `perform_write_plot` as programs whose requests are
the polls of the stop flag, the operations on `osfile_` and the queues.
`respond` is what the operating system and the other threads do with them.
-/

namespace HyperPlotter.Pipeline

open Foundation Poc

/-- A file on disk. -/
structure FileEntry where
  size : Nat
  bytes : Memory

/-- The places where a writer polls `signal::stopped`: the outer loop, the retry
loop, and the two loops of `perform_write_plot` with their loop variables. -/
inductive Poll where
  | outer
  | retry
  | scoop (curScoop : Int)
  | chunk (nonces : Int)
deriving DecidableEq

/-- A poll inside `perform_write_plot` with data left to write. -/
def Poll.DataLeft : Poll → Prop
  | .scoop curScoop => curScoop < 4096
  | .chunk nonces => 0 < nonces
  | _ => False

/-- What a writer asks of its environment. Files are named by the position of
their task in `writer_tasks_`. -/
inductive WriterRequest where
  | stopped (poll : Poll)
  | pop
  | isOpen
  | fileExists (file : Nat)
  | openFile (file : Nat) (create : Bool)
  | allocate (bytes : Nat)
  | seek (offset : Nat)
  | gather (scoop nstart nsize : Int)
  | write (bytes : Nat)
  | closeFile
  | submit (file : Nat) (nonces initNonces : Int)
  | rename (file : Nat)
  | report
deriving DecidableEq

/-- The type of the answer. -/
@[reducible] def WriterRequest.Reply : WriterRequest → Type
  | .pop => Option HasherTask
  | .gather .. => Unit
  | .closeFile => Unit
  | .report => Unit
  | _ => Bool

/-- A program of the writer thread. -/
abbrev WriterProgram := Interaction WriterRequest WriterRequest.Reply

/-- One request of the writer thread. -/
abbrev call (request : WriterRequest) : WriterProgram request.Reply :=
  Interaction.perform request

/-- `SCOOPS_PER_WRITE`. -/
def scoopsPerWrite : Int := 16384

/-- The inner loop of `perform_write_plot`; a round takes at least one nonce. -/
def chunkLoop (curScoop : Int) : Nat → Int → Int → WriterProgram Bool
  | 0, _, nonces => do
    let _ ← call (.stopped (.chunk nonces))
    pure true
  | rounds + 1, nstart, nonces => do
    if (← call (.stopped (.chunk nonces))) || nonces ≤ 0 then pure true
    else
      call (.gather curScoop nstart (min nonces scoopsPerWrite))
      if ← call (.write (min nonces scoopsPerWrite * 64).toNat) then
        chunkLoop curScoop rounds (toInt32 (nstart + scoopsPerWrite)) (nonces - scoopsPerWrite)
      else pure false

/-- The first nonce of a hash task within its file, as `uint64_t`. -/
def HasherTask.offset (task : HasherTask) (file : PlannedFile) : Nat :=
  toUInt64 ((task.sn : Int) - file.sn)

/-- Where scoop `curScoop` of a hash task starts in the file, as `uint64_t`. -/
def scoopOffset (file : PlannedFile) (task : HasherTask) (curScoop : Int) : Nat :=
  toUInt64 ((toUInt64 ((task.offset file : Int) + curScoop * file.nonces) : Int) * 64)

/-- The outer loop of `perform_write_plot`. -/
def scoopLoop (file : PlannedFile) (task : HasherTask) : Nat → Int → WriterProgram Bool
  | 0, curScoop => do
    let _ ← call (.stopped (.scoop curScoop))
    pure true
  | rest + 1, curScoop => do
    if ← call (.stopped (.scoop curScoop)) then pure true
    else if ← call (.seek (scoopOffset file task curScoop)) then
      if ← chunkLoop curScoop task.nonces.toNat 0 task.nonces then
        scoopLoop file task rest (curScoop + 1)
      else pure false
    else pure false

/-- `perform_write_plot`. -/
def performWritePlot (file : PlannedFile) (task : HasherTask) : WriterProgram Bool :=
  scoopLoop file task scoopsPerPlot 0

/-- Open the `.plotting` file unless a handle is open. -/
def openPlotting (index : Nat) (file : PlannedFile) : WriterProgram Unit := do
  if ← call .isOpen then pure ()
  else
    let doCreate := !(← call (.fileExists index))
    let _ ← call (.openFile index doCreate)
    let _ ← call (.allocate (file.nonces * plotSize).toNat)
    pure ()

/-- The body of the `do ... while` loop: one attempt to write a hash task. -/
def attemptWrite (index : Nat) (file : PlannedFile) (task : HasherTask) : WriterProgram Bool := do
  openPlotting index file
  if ← performWritePlot file task then
    if ← call (.submit index task.nonces file.nonces) then
      call .closeFile
      let _ ← call (.rename index)
      pure true
    else pure true
  else
    call .closeFile
    pure false

/-- Where the writer thread is between two parts of its program. -/
inductive WriterControl where
  | outer (success : Bool) (lastWriteTask : Int)
  | attempt (lastWriteTask : Int) (task : HasherTask)
  | exited

/-- The end of `run`. -/
def leaveWriter : WriterProgram WriterControl := do
  call .closeFile
  pure .exited

/-- The head of the outer loop, up to the first attempt. -/
def writerOuter (bench : Bool) (plan : List PlannedFile) (success : Bool) (lastWriteTask : Int) :
    WriterProgram WriterControl :=
  if success then do
    if ← call (.stopped .outer) then leaveWriter
    else
      let popped : Option HasherTask ← call .pop
      match popped with
      | none => pure (.outer true lastWriteTask)
      | some task =>
        if task.currentWriteTask = -1 ∨ task.currentWriteTask ≥ plan.length then leaveWriter
        else if bench then do
          call .report
          pure (.outer true lastWriteTask)
        else if lastWriteTask ≠ task.currentWriteTask then do
          call .closeFile
          pure (.attempt task.currentWriteTask task)
        else pure (.attempt lastWriteTask task)
  else leaveWriter

/-- One attempt with what follows it: the report, the retry poll, or the next
attempt. -/
def writerAttempt (plan : List PlannedFile) (lastWriteTask : Int) (task : HasherTask) :
    WriterProgram WriterControl :=
  match plan[task.currentWriteTask.toNat]? with
  | none => pure .exited
  | some file => do
    if ← attemptWrite task.currentWriteTask.toNat file task then
      call .report
      pure (.outer true lastWriteTask)
    else if ← call (.stopped .retry) then
      call .report
      pure (.outer false lastWriteTask)
    else pure (.attempt lastWriteTask task)

/-- `writer_worker::run` from a given place on; `bench` is `bench_mode & 0x01`. -/
def writerBody (bench : Bool) (plan : List PlannedFile) :
    WriterControl → WriterProgram WriterControl
  | .outer success lastWriteTask => writerOuter bench plan success lastWriteTask
  | .attempt lastWriteTask task => writerAttempt plan lastWriteTask task
  | .exited => pure .exited

/-! ## The environment -/

/-- What happened to a writer's files, in order. A submission records the
`.plotting` file as it was then. -/
inductive WriterEvent where
  | wrote (file offset bytes : Nat)
  | submitted (complete : Bool) (content : Option FileEntry)
  | renamed (ok : Bool)

/-- The files of one writer, its local variables, and what it has been given:
the hash task in hand with the contents of its block, and those reported. -/
structure WriterState where
  plotting : Nat → Option FileEntry
  final : Nat → Option FileEntry
  handle : Option Nat
  position : Nat
  writeBuffer : Memory
  submitted : Nat → Int
  current : Option (HasherTask × Memory)
  finished : List (HasherTask × Memory)
  history : List WriterEvent

/-- How a file operation ends: whether it succeeds, how far a failing one gets,
and what unspecified memory holds. -/
structure Outcome where
  ok : Bool
  amount : Nat
  content : Memory

/-- One choice of the environment: an outcome, what the stop flag reads, what
the task's block holds, and what the queue hands out. -/
structure Choice extends Outcome where
  stop : Bool
  block : Memory
  task : Option HasherTask

namespace WriterState

/-- `util::file::open`; creating truncates. -/
def openFile (outcome : Outcome) (s : WriterState) (file : Nat) (create : Bool) :
    Bool × WriterState :=
  if s.handle.isSome then (true, s)
  else if !outcome.ok then (false, s)
  else if create then
    (true, { s with
      plotting := Function.update s.plotting file (some ⟨0, outcome.content⟩)
      handle := some file, position := 0 })
  else if (s.plotting file).isSome then (true, { s with handle := some file, position := 0 })
  else (false, s)

/-- The open file, when there is one. -/
def opened (s : WriterState) : Option (Nat × FileEntry) :=
  s.handle.bind fun file => (s.plotting file).map fun entry => (file, entry)

/-- `util::file::allocate`: the new part of the file holds anything. -/
def allocate (outcome : Outcome) (s : WriterState) (bytes : Nat) : Bool × WriterState :=
  match s.opened with
  | none => (false, s)
  | some (file, entry) =>
    if bytes ≤ entry.size then (true, s)
    else if outcome.ok ∨ outcome.amount ≠ 0 then
      (outcome.ok, { s with
        plotting := Function.update s.plotting file (some ⟨bytes, fun a =>
          if a < entry.size then entry.bytes a else outcome.content a⟩)
        position := outcome.amount })
    else (false, { s with position := outcome.amount })

/-- `util::file::seek`. -/
def seek (outcome : Outcome) (s : WriterState) (offset : Nat) : Bool × WriterState :=
  match s.opened with
  | none => (false, s)
  | some _ => (outcome.ok, { s with position := if outcome.ok then offset else outcome.amount })

/-- `util::file::write` from the write buffer: all bytes, or some of them
before an error. -/
def write (outcome : Outcome) (s : WriterState) (bytes : Nat) : Bool × WriterState :=
  match s.opened with
  | none => (false, s)
  | some (file, entry) =>
    let count := if outcome.ok then bytes else min outcome.amount bytes
    (outcome.ok, { s with
      plotting := Function.update s.plotting file (some
        ⟨if count = 0 then entry.size else max entry.size (s.position + count),
          entry.bytes.copy s.position s.writeBuffer 0 count⟩)
      position := s.position + count
      history := s.history ++ [.wrote file s.position count] })

/-- `util::file::rename` of `<name>.plotting` to `<name>`, replacing. -/
def rename (outcome : Outcome) (s : WriterState) (file : Nat) : Bool × WriterState :=
  match s.plotting file with
  | some entry =>
    if outcome.ok then
      (true, { s with
        plotting := Function.update s.plotting file none
        final := Function.update s.final file (some entry)
        history := s.history ++ [.renamed true] })
    else (false, { s with history := s.history ++ [.renamed false] })
  | none => (false, { s with history := s.history ++ [.renamed false] })

/-- `submit_nonces` of a writer task. -/
def submit (s : WriterState) (file : Nat) (nonces initNonces : Int) : Bool × WriterState :=
  let answer := submitNonces (s.submitted file) initNonces nonces
  (answer.1, { s with
    submitted := Function.update s.submitted file answer.2
    history := s.history ++ [.submitted answer.1 (s.plotting file)] })

/-- The answer to a request. -/
def respond (choice : Choice) (s : WriterState) :
    (request : WriterRequest) → request.Reply × WriterState
  | .stopped _ => (choice.stop, s)
  | .pop => (choice.task, { s with current := choice.task.map fun task => (task, choice.block) })
  | .isOpen => (s.handle.isSome, s)
  | .fileExists file => ((s.plotting file).isSome, s)
  | .openFile file create => s.openFile choice.toOutcome file create
  | .allocate bytes => s.allocate choice.toOutcome bytes
  | .seek offset => s.seek choice.toOutcome offset
  | .gather scoop nstart nsize =>
    ((), { s with writeBuffer := transposition choice.block s.writeBuffer scoop nstart nsize })
  | .write bytes => s.write choice.toOutcome bytes
  | .closeFile => ((), { s with handle := none })
  | .submit file nonces initNonces => s.submit file nonces initNonces
  | .rename file => s.rename choice.toOutcome file
  | .report => ((), { s with finished := s.finished ++ s.current.toList, current := none })

end WriterState

end HyperPlotter.Pipeline

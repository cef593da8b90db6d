import HyperPlotter.Foundation.Machine
import HyperPlotter.Pipeline.Dispatcher
import HyperPlotter.Pipeline.Hasher
import HyperPlotter.Pipeline.WriterThread

/-!
# All threads together

The dispatcher, the hasher and the writers with their queues, the blocks' bytes
and the stop flag, as one machine. Every access to something shared is an event
of its own; what a thread does alone in between belongs to the event before it.
A read of a queue's size may yield anything, because the counter is kept beside
the queue. A `pop` is one event, which can happen once there is a task or the queue
is stopped: the steps inside it, where `stop` can lose a wake-up, are not events
here.
-/

namespace HyperPlotter.Pipeline

open Foundation Poc

/-- The hasher's place in its loop; in a task, the calls of `plot` left. -/
inductive HasherPlace where
  | head
  | popping
  | hashing (task : HasherTask) (rest : List Chunk)
  | left

/-- The hash task in the hasher's hands. -/
def HasherPlace.task : HasherPlace → Option HasherTask
  | .hashing task _ => some task
  | _ => none

/-- The state of all threads. `memory` holds the bytes of each block from its
address on, and `exits` says which queues are stopped. -/
structure System where
  stopped : Bool
  dispatcher : Dispatcher
  hasherQueue : List HasherTask
  hasherExit : Bool
  hasher : HasherPlace
  devBuff : Memory
  memory : Nat → Memory
  queues : Nat → List HasherTask
  exits : Nat → Bool
  threads : Nat → WriterThread
  reports : List HasherTask

/-- What can happen next: a signal, or the next access of one of the threads with
what the system answers. -/
inductive SystemEvent where
  | interrupt
  | poll
  | receive (timeout : Bool)
  | dispatch (hasherSize : Nat) (writerSize : Nat → Nat) (choice : MemoryChoice)
  | close (worker : Nat)
  | hasher
  | writer (i : Nat) (outcome : Outcome)

namespace System

variable (setup : PlotterSetup) (s : System)

/-- `pop_for`: a report, or none when the time is over. -/
def receive (timeout : Bool) : Option System :=
  if timeout then some { s with dispatcher := s.dispatcher.receive setup none }
  else
    match s.reports with
    | [] => none
    | report :: rest =>
      some { s with dispatcher := s.dispatcher.receive setup (some report), reports := rest }

/-- The dispatcher decides and pushes. -/
def dispatch (hasherSize : Nat) (writerSize : Nat → Nat) (choice : MemoryChoice) : System :=
  let decided := s.dispatcher.dispatch setup hasherSize writerSize choice
  { s with dispatcher := decided.2, hasherQueue := s.hasherQueue ++ decided.1.toList }

/-- After the loop: `signal_stop`, then `stop` of each worker's queue. -/
def close (worker : Nat) : System :=
  if worker < setup.plans.length then
    { s with stopped := true, exits := Function.update s.exits worker true }
  else { s with stopped := true, hasherExit := true }

/-- The hasher's next access. -/
def hash : Option System :=
  match s.hasher with
  | .head => some { s with hasher := if s.stopped then .left else .popping }
  | .popping =>
    if s.hasherExit then some { s with hasher := .head }
    else
      match s.hasherQueue with
      | [] => none
      | task :: rest =>
        if task.currentWriteTask = -1 then some { s with hasher := .left, hasherQueue := rest }
        else
          some { s with
            hasher := .hashing task (if setup.bench.testBit 1 then []
              else task.chunks setup.gpu.globalWorkSize)
            hasherQueue := rest }
  | .hashing task (chunk :: rest) =>
    let plotted := plotChunk setup.gpu task.pid (s.devBuff, s.memory task.block) chunk
    some { s with
      hasher := .hashing task rest
      devBuff := plotted.1
      memory := Function.update s.memory task.block plotted.2 }
  | .hashing task [] =>
    some { s with
      hasher := .head
      queues := Function.update s.queues task.writer (s.queues task.writer ++ [task]) }
  | .left => none

/-- The environment of writer `i` as the other threads leave it. -/
def choice (i : Nat) (outcome : Outcome) : Choice where
  toOutcome := outcome
  stop := s.stopped
  task := if s.exits i then none else (s.queues i).head?
  block :=
    match (s.threads i).state.current with
    | some (task, _) => s.memory task.block
    | none => match (s.queues i).head? with
      | some task => s.memory task.block
      | none => fun _ => 0

/-- Writer `i` gets its answer. -/
def answer (i : Nat) (request : WriterRequest)
    (next : request.Reply → WriterProgram WriterControl) (outcome : Outcome) : System :=
  { s with
    threads := Function.update s.threads i
      ((s.threads i).answer request next (s.choice i outcome)) }

/-- The next access of writer `i`: a queue operation, or one that concerns the
writer alone. -/
def write (i : Nat) (outcome : Outcome) : Option System :=
  match (s.threads i).program with
  | .done .exited => none
  | .done control =>
    some { s with
      threads := Function.update s.threads i
        ((s.threads i).turn (setup.bench.testBit 0) (setup.plan i) control) }
  | .ask .pop next =>
    if s.exits i then some (s.answer i .pop next outcome)
    else if (s.queues i).isEmpty then none
    else some { s.answer i .pop next outcome with
      queues := Function.update s.queues i (s.queues i).tail }
  | .ask .report next =>
    some { s.answer i .report next outcome with
      reports := s.reports ++ ((s.threads i).state.current.map Prod.fst).toList }
  | .ask request next => some (s.answer i request next outcome)

/-- The effect of an event. -/
def step (s : System) : SystemEvent → Option System
  | .interrupt => some { s with stopped := true }
  | .poll =>
    if s.dispatcher.place = .head then some { s with dispatcher := s.dispatcher.poll s.stopped }
    else none
  | .receive timeout => if s.dispatcher.place = .reports then s.receive setup timeout else none
  | .dispatch hasherSize writerSize choice =>
    if s.dispatcher.place = .deciding ∧ ∀ data ∈ choice.fresh,
        s.dispatcher.allocator.Fresh ⟨data, setup.blockSize⟩ then
      some (s.dispatch setup hasherSize writerSize choice)
    else none
  | .close worker =>
    if s.dispatcher.place = .closing ∧ worker < setup.workers then some (s.close setup worker)
    else none
  | .hasher => s.hash setup
  | .writer i outcome => if i < setup.plans.length then s.write setup i outcome else none

/-- When the threads start: no task anywhere, any files and any bytes in the
buffers. -/
structure Start (s : System) : Prop where
  running : s.stopped = false
  dispatcher : s.dispatcher = Dispatcher.start setup
  hasherQueue : s.hasherQueue = []
  hasherExit : s.hasherExit = false
  hasher : s.hasher = .head
  queues : ∀ i, s.queues i = []
  exits : ∀ i, s.exits i = false
  threads : ∀ i, ∃ plotting final writeBuffer,
    s.threads i = WriterThread.start plotting final writeBuffer
  reports : s.reports = []

/-- A start with empty directories and cleared buffers. -/
def idle : System where
  stopped := false
  dispatcher := .start setup
  hasherQueue := []
  hasherExit := false
  hasher := .head
  devBuff _ := 0
  memory _ _ := 0
  queues _ := []
  exits _ := false
  threads _ := .start (fun _ => none) (fun _ => none) fun _ => 0
  reports := []

/-- The idle system is a start state. -/
theorem idle_start : (idle setup).Start setup :=
  ⟨rfl, rfl, rfl, rfl, rfl, fun _ => rfl, fun _ => rfl, fun _ => ⟨_, _, _, rfl⟩, rfl⟩

end System

/-- The machine of a plotter run. -/
def PlotterSetup.machine (setup : PlotterSetup) : Machine System SystemEvent where
  Start := System.Start setup
  step := System.step setup

/-- One writer with one file of eight nonces. -/
def oneFile : PlotterSetup where
  gpu := .inOrder 16
  buffers := 1
  maxMem := 16777216
  bench := 0
  plans := [[⟨1, 0, 8⟩]]

/-- One file of eight nonces can be started. -/
theorem oneFile_valid : oneFile.Valid where
  files := by
    rintro plan listed file member
    obtain rfl : plan = [⟨1, 0, 8⟩] := by simpa [oneFile] using listed
    obtain rfl : file = ⟨1, 0, 8⟩ := by simpa using member
    exact ⟨by decide, by decide, by decide⟩
  memory := by decide
  flying := by decide
  few := by decide
  planned := by decide
  total := by decide

/-- One writer with two files of eight nonces. -/
def twoFiles : PlotterSetup where
  gpu := .inOrder 16
  buffers := 1
  maxMem := 16777216
  bench := 0
  plans := [[⟨1, 0, 8⟩, ⟨1, 8, 8⟩]]

/-- So can two of them. -/
theorem twoFiles_valid : twoFiles.Valid where
  files := by
    rintro plan listed file member
    obtain rfl : plan = [⟨1, 0, 8⟩, ⟨1, 8, 8⟩] := by simpa [twoFiles] using listed
    rcases List.mem_cons.mp member with rfl | member
    · exact ⟨by decide, by decide, by decide⟩
    · obtain rfl : file = ⟨1, 8, 8⟩ := by simpa using member
      exact ⟨by decide, by decide, by decide⟩
  memory := by decide
  flying := by decide
  few := by decide
  planned := by decide
  total := by decide

end HyperPlotter.Pipeline

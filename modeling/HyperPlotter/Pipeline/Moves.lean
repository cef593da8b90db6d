import HyperPlotter.Pipeline.System
import HyperPlotter.Pipeline.WriterProgress

/-!
# What an event does

The effect of an event in a state where it can happen, one case for each thing
that happens.
-/

namespace HyperPlotter.Pipeline

open Foundation Poc

/-- The hash task a writer has in hand. -/
def WriterThread.inHand (thread : WriterThread) : List HasherTask :=
  (thread.state.current.map Prod.fst).toList

namespace System

variable (setup : PlotterSetup)

/-- From one state to another by an event. -/
inductive Move (s : System) : SystemEvent → System → Prop where
  | interrupt : Move s .interrupt { s with stopped := true }
  | poll (place : s.dispatcher.place = .head) :
      Move s .poll { s with dispatcher := s.dispatcher.poll s.stopped }
  | timeout (place : s.dispatcher.place = .reports) :
      Move s (.receive true) { s with dispatcher := s.dispatcher.receive setup none }
  | receive {report : HasherTask} {rest : List HasherTask} (place : s.dispatcher.place = .reports)
      (reported : s.reports = report :: rest) :
      Move s (.receive false)
        { s with
          dispatcher := s.dispatcher.receive setup (some report)
          reports := rest }
  | dispatch {hasherSize : Nat} {writerSize : Nat → Nat} {choice : MemoryChoice}
      (place : s.dispatcher.place = .deciding)
      (fresh : ∀ data ∈ choice.fresh, s.dispatcher.allocator.Fresh ⟨data, setup.blockSize⟩) :
      Move s (.dispatch hasherSize writerSize choice) (s.dispatch setup hasherSize writerSize choice)
  | close {worker : Nat} (place : s.dispatcher.place = .closing) (inside : worker < setup.workers) :
      Move s (.close worker) (s.close setup worker)
  | hasherHead (here : s.hasher = .head) :
      Move s .hasher { s with hasher := if s.stopped then .left else .popping }
  | hasherExit (here : s.hasher = .popping) (exit : s.hasherExit = true) :
      Move s .hasher { s with hasher := .head }
  | hasherLeave {task : HasherTask} {rest : List HasherTask} (here : s.hasher = .popping)
      (running : s.hasherExit = false) (queued : s.hasherQueue = task :: rest)
      (last : task.currentWriteTask = -1) :
      Move s .hasher
        { s with
          hasher := .left
          hasherQueue := rest }
  | hasherTake {task : HasherTask} {rest : List HasherTask} (here : s.hasher = .popping)
      (running : s.hasherExit = false) (queued : s.hasherQueue = task :: rest)
      (proceeds : task.currentWriteTask ≠ -1) :
      Move s .hasher
        { s with
          hasher := .hashing task
            (if setup.bench.testBit 1 then [] else task.chunks setup.gpu.globalWorkSize)
          hasherQueue := rest }
  | hasherPlot {task : HasherTask} {chunk : Chunk} {rest : List Chunk}
      (here : s.hasher = .hashing task (chunk :: rest)) :
      Move s .hasher
        { s with
          hasher := .hashing task rest
          devBuff := (plotChunk setup.gpu task.pid (s.devBuff, s.memory task.block) chunk).1
          memory := Function.update s.memory task.block
            (plotChunk setup.gpu task.pid (s.devBuff, s.memory task.block) chunk).2 }
  | hasherDeliver {task : HasherTask} (here : s.hasher = .hashing task []) :
      Move s .hasher
        { s with
          hasher := .head
          queues := Function.update s.queues task.writer (s.queues task.writer ++ [task]) }
  | turn {i : Nat} {outcome : Outcome} {control : WriterControl} (inside : i < setup.plans.length)
      (done : (s.threads i).program = .done control) :
      Move s (.writer i outcome)
        { s with
          threads := Function.update s.threads i
            ((s.threads i).turn (setup.bench.testBit 0) (setup.plan i) control) }
  | popNothing {i : Nat} {outcome : Outcome} {next : Option HasherTask → WriterProgram WriterControl}
      (inside : i < setup.plans.length) (asks : (s.threads i).program = .ask .pop next)
      (exit : s.exits i = true) : Move s (.writer i outcome) (s.answer i .pop next outcome)
  | pop {i : Nat} {outcome : Outcome} {next : Option HasherTask → WriterProgram WriterControl}
      {task : HasherTask} {rest : List HasherTask} (inside : i < setup.plans.length)
      (asks : (s.threads i).program = .ask .pop next) (running : s.exits i = false)
      (queued : s.queues i = task :: rest) :
      Move s (.writer i outcome)
        { s.answer i .pop next outcome with queues := Function.update s.queues i rest }
  | report {i : Nat} {outcome : Outcome} {next : Unit → WriterProgram WriterControl}
      (inside : i < setup.plans.length) (asks : (s.threads i).program = .ask .report next) :
      Move s (.writer i outcome)
        { s.answer i .report next outcome with reports := s.reports ++ (s.threads i).inHand }
  | other {i : Nat} {outcome : Outcome} {request : WriterRequest}
      {next : request.Reply → WriterProgram WriterControl} (inside : i < setup.plans.length)
      (asks : (s.threads i).program = .ask request next) (quiet : request.Quiet) :
      Move s (.writer i outcome) (s.answer i request next outcome)

variable {setup} {s t : System}

private theorem hash_move (taken : s.hash setup = some t) : Move setup s .hasher t := by
  unfold hash at taken
  split at taken
  · rename_i here
    obtain rfl := Option.some.inj taken
    exact .hasherHead here
  · rename_i here
    split at taken
    · rename_i exit
      obtain rfl := Option.some.inj taken
      exact .hasherExit here exit
    · rename_i exit
      have running : s.hasherExit = false := Bool.eq_false_of_not_eq_true exit
      split at taken
      · cases taken
      · rename_i task rest queued
        split at taken
        · rename_i last
          obtain rfl := Option.some.inj taken
          exact .hasherLeave here running queued last
        · rename_i proceeds
          obtain rfl := Option.some.inj taken
          exact .hasherTake here running queued proceeds
  · rename_i here
    obtain rfl := Option.some.inj taken
    exact .hasherPlot here
  · rename_i here
    obtain rfl := Option.some.inj taken
    exact .hasherDeliver here
  · cases taken

private theorem write_move {i : Nat} (inside : i < setup.plans.length) {outcome : Outcome}
    (taken : s.write setup i outcome = some t) : Move setup s (.writer i outcome) t := by
  unfold write at taken
  split at taken
  · cases taken
  · rename_i done
    obtain rfl := Option.some.inj taken
    exact .turn inside done
  · rename_i next asks
    split at taken
    · rename_i exit
      obtain rfl := Option.some.inj taken
      exact .popNothing inside asks exit
    · rename_i running
      split at taken
      · cases taken
      · rename_i queued
        obtain rfl := Option.some.inj taken
        obtain ⟨task, rest, queue⟩ := List.exists_cons_of_ne_nil fun empty =>
          queued (List.isEmpty_iff.mpr empty)
        rw [queue]
        exact .pop inside asks (Bool.eq_false_of_not_eq_true running) queue
  · rename_i next asks
    obtain rfl := Option.some.inj taken
    exact .report inside asks
  · rename_i request next notPop notReport asks
    obtain rfl := Option.some.inj taken
    refine .other inside asks ⟨?_, ?_⟩
    · rintro rfl
      exact notPop next rfl HEq.rfl
    · rintro rfl
      exact notReport next rfl HEq.rfl

/-- Every step is one of the moves. -/
theorem step_move {event : SystemEvent} (taken : s.step setup event = some t) :
    Move setup s event t := by
  cases event with
  | interrupt =>
      obtain rfl := Option.some.inj taken
      exact .interrupt
  | poll =>
      obtain ⟨place, same⟩ := Option.ite_none_right_eq_some.mp taken
      obtain rfl := Option.some.inj same
      exact .poll place
  | receive timeout =>
      obtain ⟨place, taken⟩ := Option.ite_none_right_eq_some.mp taken
      unfold receive at taken
      cases timeout with
      | true =>
          obtain rfl := Option.some.inj taken
          exact .timeout place
      | false =>
          cases reported : s.reports with
          | nil => simp [reported] at taken
          | cons report rest =>
              simp only [reported, Bool.false_eq_true, if_false] at taken
              obtain rfl := Option.some.inj taken
              exact .receive place reported
  | dispatch hasherSize writerSize choice =>
      obtain ⟨⟨place, fresh⟩, same⟩ := Option.ite_none_right_eq_some.mp taken
      obtain rfl := Option.some.inj same
      exact .dispatch place fresh
  | close worker =>
      obtain ⟨⟨place, inside⟩, same⟩ := Option.ite_none_right_eq_some.mp taken
      obtain rfl := Option.some.inj same
      exact .close place inside
  | hasher => exact hash_move taken
  | writer i outcome =>
      obtain ⟨inside, taken⟩ := Option.ite_none_right_eq_some.mp taken
      exact write_move inside taken

/-- What writer `i` finds at the head of its queue. -/
theorem choice_task {i : Nat} {outcome : Outcome} {task : HasherTask} {rest : List HasherTask}
    (running : s.exits i = false) (queued : s.queues i = task :: rest) :
    (s.choice i outcome).task = some task := by
  unfold choice
  rw [running, queued]
  rfl

/-- A stopped queue hands out nothing. -/
theorem choice_nothing {i : Nat} {outcome : Outcome} (exit : s.exits i = true) :
    (s.choice i outcome).task = none := if_pos exit

end System

end HyperPlotter.Pipeline

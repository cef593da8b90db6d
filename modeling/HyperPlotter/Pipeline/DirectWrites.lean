import Mathlib.Algebra.BigOperators.Ring.List
import HyperPlotter.Pipeline.HandOut
import HyperPlotter.Pipeline.Writer

/-!
# Unbuffered writes

A file opened without buffering takes offsets and lengths that are multiples of a
sector only. A planned file has a multiple of eight nonces, so every seek and every
write of `perform_write_plot` is one, and each scoop is written to its last nonce.
-/

namespace HyperPlotter.Pipeline

open Foundation Poc Interaction

/-- The file of a writer as its requests see it: the running offset, the lengths of
the writes after each seek, the last seek first, and whether a stop was polled. -/
structure DirectFile where
  position : Nat
  scoops : List (List Nat)
  stopped : Bool

namespace DirectFile

/-- Some answer to every request. -/
abbrev Replies := (request : WriterRequest) → request.Reply

/-- A request is answered and noted. -/
def respond (replies : Replies) (s : DirectFile) :
    (request : WriterRequest) → request.Reply × DirectFile
  | .stopped poll => (replies (.stopped poll), { s with stopped := replies (.stopped poll) })
  | .seek offset => (replies (.seek offset), { s with position := offset, scoops := [] :: s.scoops })
  | .write bytes => (replies (.write bytes),
      { s with
        position := s.position + bytes
        scoops := (s.scoops.headD [] ++ [bytes]) :: s.scoops.tail })
  | request => (replies request, s)

/-- A stop is for good. -/
def Allowed (s : DirectFile) (request : WriterRequest) (replies : Replies) : Prop :=
  match request with
  | .stopped poll => s.stopped = true → replies (.stopped poll) = true
  | _ => True

/-- The request is for whole sectors. -/
def Sectors (s : DirectFile) : WriterRequest → Prop
  | .seek offset => 512 ∣ offset
  | .write bytes => 512 ∣ s.position ∧ 512 ∣ bytes
  | _ => True

/-- The writes of every scoop but the last one, and of all scoops if no stop was
polled, make up the given length. -/
structure Whole (length : Int) (ok : Bool) (s : DirectFile) : Prop where
  earlier : ∀ lengths ∈ s.scoops.tail, (lengths.sum : Int) = length
  all : ok = true → s.stopped = false →
    s.scoops.length = 4096 ∧ ∀ lengths ∈ s.scoops, (lengths.sum : Int) = length

/-- Whatever the file operations answer, `perform_write_plot` asks for whole sectors
and writes each scoop of the task to its end. -/
def WritesSectors (file : PlannedFile) (task : HasherTask) : Prop :=
  ∀ position : Nat, Always respond Allowed Sectors (Whole (task.nonces * 64))
    (performWritePlot file task) ⟨position, [], false⟩

/-! ## One task -/

variable {file : PlannedFile} {task : HasherTask}

/-- Before a round of the inner loop: `nonces` are left of the scoop. -/
structure Scooping (total nonces : Int) (done : List (List Nat)) (s : DirectFile) : Prop where
  current : ∃ lengths, s.scoops = lengths :: done ∧
    (lengths.sum : Int) = (total - max 0 nonces) * 64
  aligned : 512 ∣ s.position
  whole : ∀ lengths ∈ done, (lengths.sum : Int) = total * 64

/-- The inner loop writes the scoop to its end unless it is stopped. -/
theorem chunkLoop_sectors {total : Int} {done : List (List Nat)} (curScoop : Int) (rounds : Nat) :
    ∀ {nstart nonces : Int} {s : DirectFile}, nonces ≤ rounds → 8 ∣ nonces →
      Scooping total nonces done s →
      Always respond Allowed Sectors
        (fun ok t => ∃ nonces, Scooping total nonces done t ∧
          (ok = true → t.stopped = false → nonces ≤ 0))
        (chunkLoop curScoop rounds nstart nonces) s := by
  induction rounds with
  | zero =>
      intro nstart nonces s enough eighths scooping
      rw [chunkLoop]
      refine always_perform.mpr ⟨trivial, fun replies _ => ?_⟩
      exact ⟨nonces, ⟨scooping.current, scooping.aligned, scooping.whole⟩, fun _ _ => enough⟩
  | succ rounds ih =>
      intro nstart nonces s enough eighths scooping
      rw [chunkLoop]
      refine always_perform.mpr ⟨trivial, fun replies _ => ?_⟩
      have polled : Scooping total nonces done { s with stopped := replies (.stopped (.chunk nonces)) } :=
        ⟨scooping.current, scooping.aligned, scooping.whole⟩
      show Always _ _ _ _ (if (replies (.stopped (.chunk nonces)) || decide (nonces ≤ 0)) = true
        then _ else _) { s with stopped := replies (.stopped (.chunk nonces)) }
      split
      · next ends =>
          refine ⟨nonces, polled, fun _ running => ?_⟩
          rw [show replies (.stopped (.chunk nonces)) = false from running, Bool.false_or] at ends
          exact of_decide_eq_true ends
      · next goes =>
          have more : ¬nonces ≤ 0 := fun none => goes (by simp [none])
          obtain ⟨lengths, scoops, written⟩ := scooping.current
          refine always_perform.mpr ⟨trivial, fun gathering _ => ?_⟩
          have sectors : 512 ∣ (min nonces scoopsPerWrite * 64).toNat := by
            unfold scoopsPerWrite
            omega
          refine always_perform.mpr ⟨⟨scooping.aligned, sectors⟩, fun writing _ => ?_⟩
          have next : Scooping total (nonces - scoopsPerWrite) done
              ⟨s.position + (min nonces scoopsPerWrite * 64).toNat,
                (s.scoops.headD [] ++ [(min nonces scoopsPerWrite * 64).toNat]) :: s.scoops.tail,
                replies (.stopped (.chunk nonces))⟩ := by
            refine ⟨⟨lengths ++ [(min nonces scoopsPerWrite * 64).toNat], ?_, ?_⟩, ?_, scooping.whole⟩
            · rw [scoops]
              rfl
            · rw [List.sum_append, List.sum_singleton]
              unfold scoopsPerWrite
              omega
            · exact Nat.dvd_add scooping.aligned sectors
          show Always _ _ _ _ (if writing (.write (min nonces scoopsPerWrite * 64).toNat) = true
            then _ else _) (DirectFile.mk ..)
          split
          · refine ih (by unfold scoopsPerWrite; omega) ?_ next
            unfold scoopsPerWrite
            omega
          · exact ⟨_, next, fun ok => by cases ok⟩

/-- The offset of a scoop is one of a sector. -/
theorem scoopOffset_sectors (start : 8 ∣ task.offset file) (eighths : 8 ∣ file.nonces)
    (curScoop : Int) : 512 ∣ scoopOffset file task curScoop := by
  have row : 8 ∣ curScoop * file.nonces := Dvd.dvd.mul_left eighths curScoop
  unfold scoopOffset toUInt64
  generalize curScoop * file.nonces = row at *
  omega

/-- The outer loop writes the remaining scoops. -/
theorem scoopLoop_sectors (positive : 0 < task.nonces) (eighths : 8 ∣ task.nonces)
    (start : 8 ∣ task.offset file) (fileEighths : 8 ∣ file.nonces) (rest : Nat) :
    ∀ {curScoop : Int} {s : DirectFile}, s.scoops.length + rest = 4096 →
      (s.stopped = false → ∀ lengths ∈ s.scoops, (lengths.sum : Int) = task.nonces * 64) →
      (∀ lengths ∈ s.scoops.tail, (lengths.sum : Int) = task.nonces * 64) →
      Always respond Allowed Sectors (Whole (task.nonces * 64)) (scoopLoop file task rest curScoop)
        s := by
  have went_on : ∀ {s : DirectFile} {poll : Poll} {replies : Replies},
      Allowed s (.stopped poll) replies → replies (.stopped poll) = false → s.stopped = false := by
    intro s poll replies sticky running
    rw [Bool.eq_false_iff]
    intro stopped
    rw [sticky stopped] at running
    cases running
  induction rest with
  | zero =>
      intro curScoop s count whole earlier
      rw [scoopLoop]
      refine always_perform.mpr ⟨trivial, fun replies sticky => ⟨earlier, fun _ running => ?_⟩⟩
      exact ⟨count, whole (went_on sticky running)⟩
  | succ rest ih =>
      intro curScoop s count whole earlier
      rw [scoopLoop]
      refine always_perform.mpr ⟨trivial, fun replies sticky => ?_⟩
      show Always _ _ _ _ (if replies (.stopped (.scoop curScoop)) = true then _ else _)
        (DirectFile.mk ..)
      split
      · next stops =>
          refine ⟨earlier, fun _ running => ?_⟩
          rw [show replies (.stopped (.scoop curScoop)) = false from running] at stops
          cases stops
      · next goes =>
          have running := Bool.eq_false_iff.mpr goes
          have done := whole (went_on sticky running)
          have sought := scoopOffset_sectors start fileEighths curScoop
          refine always_perform.mpr ⟨sought, fun seeking _ => ?_⟩
          show Always _ _ _ _ (if seeking (.seek (scoopOffset file task curScoop)) = true
            then _ else _) (DirectFile.mk ..)
          split
          · have scooping : Scooping task.nonces task.nonces s.scoops
                ⟨scoopOffset file task curScoop, [] :: s.scoops,
                  replies (.stopped (.scoop curScoop))⟩ := by
              refine ⟨⟨[], rfl, ?_⟩, sought, done⟩
              rw [List.sum_nil]
              omega
            refine (chunkLoop_sectors curScoop task.nonces.toNat (by omega) eighths scooping).bind ?_
            rintro ok t ⟨nonces, ⟨⟨lengths, scoops, sum⟩, aligned, complete⟩, ended⟩
            cases ok with
            | false =>
                refine ⟨?_, fun ok => by cases ok⟩
                rw [scoops]
                exact complete
            | true =>
                refine ih ?_ (fun running => ?_) ?_
                · rw [scoops, List.length_cons]
                  omega
                · have last := ended rfl running
                  rw [scoops]
                  refine List.forall_mem_cons.mpr ⟨?_, complete⟩
                  rw [sum, max_eq_left last, Int.sub_zero]
                · rw [scoops]
                  exact complete
          · exact ⟨done, fun ok => by cases ok⟩

end DirectFile

/-! ## The tasks of a planned file -/

/-- What the tasks cut off files of multiples of eight nonces keep. -/
structure Eighths (plan : List PlannedFile) (task : HasherTask) : Prop where
  nonces : 8 ∣ task.nonces
  offset : ∀ (index : Nat) (file : PlannedFile), task.currentWriteTask = (index : Int) →
    plan[index]? = some file → 8 ∣ task.offset file

section Calls

variable {plan : List PlannedFile} (writer : Nat) {gws : Nat → Int} (blocks : Nat → Nat)

/-- Files of multiples of eight nonces are cut into such tasks. -/
theorem calls_eighths (typed : ∀ file ∈ plan, file.Typed)
    (multiples : ∀ file ∈ plan, 8 ∣ file.nonces) (positive : ∀ n, 0 < gws n)
    (aligned : ∀ n, 16 ∣ gws n) (n : Nat) :
    ∀ task ∈ (calls plan writer gws blocks n).1, Eighths plan task := by
  induction n with
  | zero => exact List.forall_mem_nil _
  | succ n ih =>
      intro task member
      rcases List.mem_append.mp member with old | new
      · exact ih task old
      · obtain ⟨_, _, index, file, next, size⟩ :=
          (callAnswer_answer writer blocks typed positive n).task task (Option.mem_toList.mp new)
        have issued : 8 ∣ issuedNonces index (calls plan writer gws blocks n).1 := by
          rw [issuedNonces_eq_sum]
          refine List.dvd_sum fun nonces listed => ?_
          obtain ⟨other, inside, rfl⟩ := List.mem_map.mp listed
          exact (ih other (List.mem_of_mem_filter inside)).nonces
        have whole := multiples file (List.mem_of_getElem? next.found)
        have work := aligned n
        refine ⟨by omega, fun i other current found => ?_⟩
        obtain rfl : index = i := Int.natCast_inj.mp (next.current.symm.trans current)
        obtain rfl : file = other := Option.some.inj (next.found.symm.trans found)
        unfold HasherTask.offset
        rw [next.start]
        unfold toUInt64
        omega

/-- Every hash task of files of multiples of eight nonces, cut with work sizes of
multiples of sixteen, is written in whole sectors and to the end of each scoop. -/
theorem performWritePlot_sectors (typed : ∀ file ∈ plan, file.Typed)
    (multiples : ∀ file ∈ plan, 8 ∣ file.nonces) (positive : ∀ n, 0 < gws n)
    (aligned : ∀ n, 16 ∣ gws n) (n : Nat) :
    ∀ task ∈ (calls plan writer gws blocks n).1, ∀ (index : Nat) (file : PlannedFile),
      task.currentWriteTask = (index : Int) → plan[index]? = some file →
      DirectFile.WritesSectors file task := by
  intro task member index file current found position
  have eighths := calls_eighths writer blocks typed multiples positive aligned n task member
  have some_nonces := (calls_issued writer blocks typed positive n).sequence.positive member
  exact DirectFile.scoopLoop_sectors some_nonces eighths.nonces (eighths.offset index file current found)
    (multiples file (List.mem_of_getElem? found)) scoopsPerPlot rfl
    (fun _ => List.forall_mem_nil _) (List.forall_mem_nil _)

end Calls

/-- The short last task of a file of 40 nonces. -/
theorem performWritePlot_sectors_tail :
    DirectFile.WritesSectors ⟨1, 0, 40⟩ ⟨1, 32, 8, 0, 0, 0⟩ := by
  refine @performWritePlot_sectors [⟨1, 0, 40⟩] 0 (fun _ => 32) (fun _ => 0) ?_ ?_
    (fun _ => by decide) (fun _ => by decide) 2 _ ?_ 0 _ rfl rfl
  · exact List.forall_mem_singleton.mpr ⟨by decide, by decide, by decide⟩
  · exact List.forall_mem_singleton.mpr (by decide)
  · decide

end HyperPlotter.Pipeline

import HyperPlotter.Pipeline.Dispatcher
import HyperPlotter.Pipeline.HandOut
import HyperPlotter.Pipeline.Hasher
import HyperPlotter.Pipeline.Stored
import Mathlib.Data.Int.ConditionallyCompleteOrder
import Mathlib.Data.Set.Function
import Mathlib.Data.Set.Prod
import Mathlib.Order.Interval.Set.Defs

/-!
# Lanes and their addresses

The work size the options and the device give, the hash tasks that are cut with
it, and the `int` addresses of their lanes, in `transposition` and in the
kernel. They are exact exactly when no hash task has more than 32768 nonces.
-/

namespace HyperPlotter.Pipeline

open Foundation Poc

/-! ## The work size -/

/-- What the device reports of itself. -/
structure Device where
  computeUnits : Nat
  maxWorkGroupSize : Nat
  maxMemoryAllocSize : Nat

/-- `global_work_size_` of a plotter made with the `lws` and `gws` options. -/
def Device.globalWorkSize (device : Device) (lws gws : Nat) : Nat :=
  let lws := if lws = 0 then device.maxWorkGroupSize else lws
  let globalWorkSize := if gws = 0 then toUInt64 (device.computeUnits * lws) else gws
  let maxNonces := device.maxMemoryAllocSize / plotSize
  let globalWorkSize := min maxNonces globalWorkSize / lws * lws
  if globalWorkSize < 16 then 16 else globalWorkSize

/-- `buffer_size` of the `buffers` option. -/
def bufferFactor (buffers : Int) (globalWorkSize : Nat) : Nat :=
  let bufferSize := (buffers % 8).toNat
  if bufferSize = 0 then if globalWorkSize ≥ 8192 then 1 else 2 else bufferSize

/-- The workers are started on the device with these options. -/
structure PlotterSetup.MadeFrom (setup : PlotterSetup) (device : Device) (lws gws : Nat)
    (buffers : Int) : Prop where
  globalWorkSize : setup.gpu.globalWorkSize = device.globalWorkSize lws gws
  buffers : setup.buffers = bufferFactor buffers setup.gpu.globalWorkSize
  valid : setup.Valid

/-! ## The hash tasks of a writer -/

section HandOut

variable (setup : PlotterSetup) (writer : Nat) (blocks : Nat → Nat)

/-- The hash tasks of the first `n` calls of `next_hasher_task`, and what they leave
of the writer's files. -/
def handOut : Nat → List HasherTask × Nat × List WriterTask
  | 0 => ([], 0, (setup.plan writer).map WriterTask.new)
  | n + 1 =>
    let before := handOut n
    let answer := nextHasherTask (toInt32 setup.workSize) writer (blocks n) before.2.1 before.2.2
    (before.1 ++ answer.1.toList, answer.2.1, answer.2.2)

/-- A task has at most the work size of nonces. -/
theorem nextHasherTask_le {gws : Int} {writer block cur : Nat} {tasks : List WriterTask}
    {task : HasherTask} (answered : (nextHasherTask gws writer block cur tasks).1 = some task) :
    task.nonces ≤ gws := by
  obtain ⟨next, _, _, answer⟩ := nextHasherTask_cases gws writer block cur tasks
  generalize nextHasherTask gws writer block cur tasks = result at answer answered
  cases answer with
  | none => cases answered
  | @cut task here proceed =>
      have unfinished : task.nonces ≠ 0 := fun done => proceed (by rw [WriterTask.next_done done])
      obtain rfl := Option.some.inj answered
      rw [WriterTask.next_cut unfinished]
      exact Int.min_le_left ..

/-- No hash task is larger than the work size. -/
theorem handOut_le (n : Nat) : ∀ task ∈ (handOut setup writer blocks n).1,
    task.nonces ≤ toInt32 setup.workSize := by
  induction n with
  | zero => exact List.forall_mem_nil _
  | succ n ih =>
      intro task member
      rcases List.mem_append.mp member with old | new
      · exact ih task old
      · exact nextHasherTask_le (Option.mem_toList.mp new)

variable {setup}

/-- The hash tasks cut so far, each of the full work size but the last of a file. -/
structure HandedOut (setup : PlotterSetup) (writer : Nat)
    (out : List HasherTask × Nat × List WriterTask) : Prop where
  issued : Issued (setup.plan writer) out.1 out.2.1 out.2.2
  size : ∀ task ∈ out.1, ∀ (index : Nat) (file : PlannedFile),
    task.currentWriteTask = index → (setup.plan writer)[index]? = some file →
    task.nonces = min (toInt32 setup.workSize) (file.nonces - task.offset file)

/-- What `n` calls hand out. -/
theorem handOut_handedOut (valid : setup.Valid) (positive : 0 < toInt32 setup.workSize) (n : Nat) :
    HandedOut setup writer (handOut setup writer blocks n) := by
  have files := valid.plan writer
  induction n with
  | zero => exact ⟨.initial (PlannedFile.typed files), List.forall_mem_nil _⟩
  | succ n ih =>
      have answer := ih.issued.nextHasherTask_answer (PlannedFile.typed files) positive writer (blocks n)
      refine ⟨answer.state, fun task member index file current found => ?_⟩
      rcases List.mem_append.mp member with old | new
      · exact ih.size task old index file current found
      · obtain ⟨_, _, index', file', next, size⟩ := answer.task task (Option.mem_toList.mp new)
        obtain rfl : index' = index := by
          have := next.current
          omega
        obtain rfl : file' = file := Option.some.inj (next.found.symm.trans found)
        rw [size, next.offset_eq files ih.issued.sequence]

variable {writer} in
/-- No hash task is larger than its file. -/
theorem HandedOut.le_file (valid : setup.Valid) {out : List HasherTask × Nat × List WriterTask}
    (handed : HandedOut setup writer out) {task : HasherTask} (member : task ∈ out.1) :
    0 < task.nonces ∧ ∃ plan ∈ setup.plans, ∃ file ∈ plan, task.nonces ≤ file.nonces := by
  obtain ⟨earlier, later, split⟩ := List.append_of_mem member
  have sequence := handed.issued.sequence
  rw [split] at sequence
  obtain ⟨index, file, next⟩ := sequence.continues
  have fits := next.fits
  have lower := (sequence.of_append _).issued_le (PlannedFile.typed (valid.plan writer)) next.found
  have listed : setup.plan writer ∈ setup.plans := by
    have inside := (List.getElem?_eq_some_iff.mp next.found).1
    unfold PlotterSetup.plan at inside ⊢
    rw [List.getD_eq_getElem?_getD] at inside ⊢
    cases found : setup.plans[writer]? with
    | none => simp [found] at inside
    | some plan => exact List.mem_of_getElem? found
  exact ⟨next.positive, _, listed, file, List.mem_of_getElem? next.found, by omega⟩

/-- The tasks handed out are those of the calls with one work size. -/
theorem handOut_eq_calls (n : Nat) : handOut setup writer blocks n =
    calls (setup.plan writer) writer (fun _ => toInt32 setup.workSize) blocks n := by
  induction n with
  | zero => rfl
  | succ n ih =>
      rw [handOut, ih]
      rfl

/-- After enough calls every file is handed out. -/
theorem handOut_complete (valid : setup.Valid) (positive : 0 < toInt32 setup.workSize) :
    ∃ n, ∀ (index : Nat) (file : PlannedFile), (setup.plan writer)[index]? = some file →
      issuedNonces index (handOut setup writer blocks n).1 = file.nonces := by
  have typed := PlannedFile.typed (valid.plan writer)
  obtain ⟨n, none⟩ := exists_callAnswer_none writer blocks typed fun _ => positive
  refine ⟨n, ?_⟩
  rw [handOut_eq_calls]
  exact (callAnswer_answer writer blocks typed (fun _ => positive) n).exhausted none

/-- The first hash task of a file is of the full work size or the whole file. -/
theorem handOut_first (valid : setup.Valid) (positive : 0 < toInt32 setup.workSize) {index : Nat}
    {file : PlannedFile} (found : (setup.plan writer)[index]? = some file) :
    ∃ n, ∃ task ∈ (handOut setup writer blocks n).1,
      task.nonces = min (toInt32 setup.workSize) file.nonces := by
  have files := valid.plan writer
  have nonempty := (files file (List.mem_of_getElem? found)).nonempty
  obtain ⟨n, complete⟩ := handOut_complete writer blocks valid positive
  have handed := handOut_handedOut writer blocks valid positive n
  have all := complete index file found
  obtain ⟨task, member, current, lower, _⟩ := handed.issued.sequence.covers files found
    (x := 0) (by omega)
  have size := handed.size task member index file current found
  rw [show task.offset file = 0 by omega] at size
  exact ⟨n, task, member, by omega⟩

end HandOut

/-! ## The addresses -/

/-- The macro's exact value. -/
def exactAddress (nonce hash word : Int) : Int :=
  (nonce - nonce % 16) * 65536 + hash * 128 + word * 16 + nonce % 16

/-! ### The exact value -/

/-- The words of the lanes below `n`: nonce, hash and word. -/
def laneWords (n : Int) : Set (Int × Int × Int) := Set.Ico 0 n ×ˢ Set.Ico 0 8192 ×ˢ Set.Ico 0 8

/-- The words of some lanes. -/
theorem mem_laneWords {n nonce hash word : Int} : (nonce, hash, word) ∈ laneWords n ↔
    (0 ≤ nonce ∧ nonce < n) ∧ (0 ≤ hash ∧ hash < 8192) ∧ 0 ≤ word ∧ word < 8 := Iff.rfl

/-- Chunks with their own lane numbers lie one behind the other. -/
theorem exactAddress_chunk {g : Int} (aligned : 16 ∣ g) (k j hash word : Int) :
    exactAddress (k * g + j) hash word = k * g * 65536 + exactAddress j hash word := by
  have position : (k * g + j) % 16 = j % 16 := by
    obtain ⟨blocks, rfl⟩ := aligned
    rw [Int.mul_left_comm, Int.mul_add_emod_self_left]
  unfold exactAddress
  rw [position]
  generalize k * g = start
  omega

/-- The address is the digits of word, hash and nonce in the radices 16, 8, 8192. -/
theorem exactAddress_eq_iff {nonce hash word m : Int} (hashBound : 0 ≤ hash ∧ hash < 8192)
    (wordBound : 0 ≤ word ∧ word < 8) : exactAddress nonce hash word = m ↔
      nonce = m / 1048576 * 16 + m % 16 ∧ hash = m / 128 % 8192 ∧ word = m / 16 % 8 := by
  unfold exactAddress
  omega

/-- The words of whole blocks of lanes are below the end of the blocks. -/
theorem exactAddress_mem {n nonce hash word : Int} (aligned : 16 ∣ n)
    (inside : (nonce, hash, word) ∈ laneWords n) :
    0 ≤ exactAddress nonce hash word ∧ exactAddress nonce hash word < n * 65536 := by
  obtain ⟨nonceBound, hashBound, wordBound⟩ := mem_laneWords.mp inside
  unfold exactAddress
  omega

/-- Different words have different addresses. -/
theorem exactAddress_injOn (n : Int) :
    Set.InjOn (fun p : Int × Int × Int => exactAddress p.1 p.2.1 p.2.2) (laneWords n) := by
  rintro ⟨nonce, hash, word⟩ mem ⟨nonce', hash', word'⟩ mem' same
  obtain ⟨-, hashBound, wordBound⟩ := mem_laneWords.mp mem
  obtain ⟨-, hashBound', wordBound'⟩ := mem_laneWords.mp mem'
  obtain ⟨rfl, rfl, rfl⟩ := (exactAddress_eq_iff hashBound wordBound).mp same
  obtain ⟨nonce_eq, hash_eq, word_eq⟩ := (exactAddress_eq_iff hashBound' wordBound').mp rfl
  exact Prod.ext nonce_eq.symm (Prod.ext hash_eq.symm word_eq.symm)

/-- Whole blocks of lanes fill their words without a gap and nothing else, and
chunks of whole blocks lie one behind the other. -/
theorem exactAddress_bijOn {n : Int} (aligned : 16 ∣ n) :
    Set.BijOn (fun p : Int × Int × Int => exactAddress p.1 p.2.1 p.2.2) (laneWords n)
        (Set.Ico 0 (n * 65536)) ∧
      ∀ k j hash word : Int,
        exactAddress (k * n + j) hash word = k * n * 65536 + exactAddress j hash word := by
  refine ⟨⟨?_, exactAddress_injOn n, ?_⟩, exactAddress_chunk aligned⟩
  · rintro ⟨nonce, hash, word⟩ mem
    exact exactAddress_mem aligned mem
  · rintro m ⟨lower, upper⟩
    have hashBound : 0 ≤ m / 128 % 8192 ∧ m / 128 % 8192 < 8192 := by omega
    have wordBound : 0 ≤ m / 16 % 8 ∧ m / 16 % 8 < 8 := by omega
    refine ⟨(m / 1048576 * 16 + m % 16, m / 128 % 8192, m / 16 % 8), ?_, ?_⟩
    · refine mem_laneWords.mpr ⟨?_, hashBound, wordBound⟩
      omega
    · exact (exactAddress_eq_iff hashBound wordBound).mpr ⟨rfl, rfl, rfl⟩

/-- A block of sixteen lanes. -/
theorem exactAddress_bijOn_block :
    Set.BijOn (fun p : Int × Int × Int => exactAddress p.1 p.2.1 p.2.2) (laneWords 16)
        (Set.Ico 0 (16 * 65536)) ∧
      ∀ k j hash word : Int,
        exactAddress (k * 16 + j) hash word = k * 16 * 65536 + exactAddress j hash word :=
  exactAddress_bijOn (by decide)

/-! ### The `int` value -/

/-- The addresses of all words of the lanes below `nonces` are exact. -/
def AddressesExact (nonces : Int) : Prop :=
  ∀ nonce hash word : Int, 0 ≤ nonce → nonce < nonces → 0 ≤ hash → hash < 8192 → 0 ≤ word →
    word < 8 → addressInt nonce hash word = exactAddress nonce hash word

/-- The addresses are exact up to `2^15` lanes. -/
theorem addressesExact_iff {nonces : Int} : AddressesExact nonces ↔ nonces ≤ 32768 := by
  constructor
  · intro exact
    by_contra wide
    have wrapped := exact 32768 0 0 (by decide) (by omega) (by decide) (by decide) (by decide)
      (by decide)
    exact absurd wrapped (by decide)
  · intro small nonce hash word lower upper hashLower hashUpper wordLower wordUpper
    rw [addressInt_eq lower (by omega) hashLower hashUpper wordLower wordUpper, laneIndex_eq]
    unfold exactAddress
    omega

/-- The addresses of a hash task: those of its lanes in `transposition`, and those
of the work items of each of its launches. -/
structure TaskExact (globalWorkSize : Nat) (task : HasherTask) : Prop where
  gathered : AddressesExact task.nonces
  launched : ∀ chunk ∈ task.chunks globalWorkSize,
    AddressesExact (min (toUInt64 chunk.nonces) globalWorkSize : Nat)

/-- The calls of `plot` are for at most the nonces of the task. -/
private theorem hashChunks_le {gws : Nat} (signed : 0 ≤ toInt32 gws) (fuel : Nat) :
    ∀ (total : Int) (sn : Nat) (hostBuff : Int), total < 2147483648 →
      ∀ chunk ∈ hashChunks gws fuel total sn hostBuff, 0 ≤ chunk.nonces ∧ chunk.nonces ≤ total := by
  induction fuel with
  | zero => exact fun _ _ _ _ => List.forall_mem_nil _
  | succ fuel ih =>
      intro total sn hostBuff small chunk member
      rw [hashChunks] at member
      split at member
      · rename_i more
        rcases List.mem_cons.mp member with rfl | later
        · exact ⟨by simp only []; omega, Int.min_le_left ..⟩
        · have left : toInt32 (total - min total (toInt32 gws)) = total - min total (toInt32 gws) :=
            toInt32_eq (by omega) (by omega)
          rw [left] at later
          have bounds := ih _ _ _ (by omega) chunk later
          omega
      · cases member

/-- A task of at most 32768 nonces has exact addresses. -/
private theorem TaskExact.of_le {gws : Nat} (signed : 0 ≤ toInt32 gws) {task : HasherTask}
    (small : task.nonces ≤ 32768) : TaskExact gws task := by
  refine ⟨addressesExact_iff.mpr small, fun chunk member => addressesExact_iff.mpr ?_⟩
  obtain ⟨lower, upper⟩ := hashChunks_le signed _ _ _ _ (by omega) chunk member
  unfold toUInt64
  omega

/-- A work size that fits an `int` but is made of a global work size that does not
starts more lanes than it has. -/
private theorem not_taskExact {gws : Nat} (negative : toInt32 gws < 0) {task : HasherTask}
    (positive : 0 < task.nonces) : ¬TaskExact gws task := by
  intro exact
  obtain ⟨fuel, count⟩ : ∃ fuel, task.nonces.toNat = fuel + 1 := ⟨task.nonces.toNat - 1, by omega⟩
  have first : (⟨task.sn, toInt32 gws, 0⟩ : Chunk) ∈ task.chunks gws := by
    unfold HasherTask.chunks
    rw [count, hashChunks, if_pos (by omega), show min task.nonces (toInt32 gws) = toInt32 gws by omega]
    exact List.mem_cons_self ..
  have small := addressesExact_iff.mp (exact.launched _ first)
  have wide : 2147483648 ≤ gws := by
    by_contra narrow
    rw [toInt32_eq (by omega) (by omega)] at negative
    omega
  simp only [] at small
  unfold toUInt64 at small
  unfold toInt32 at small negative
  omega

/-- The sizes with which every address is exact: no hash task has more than 32768
nonces, and the global work size is not beyond an `int`. -/
structure LanesFit (setup : PlotterSetup) : Prop where
  tasks : toInt32 setup.workSize ≤ 32768 ∨
    ∀ plan ∈ setup.plans, ∀ file ∈ plan, file.nonces ≤ 32768
  signed : 0 < toInt32 setup.workSize → 0 ≤ toInt32 setup.gpu.globalWorkSize

/-- A planned file is one of some writer's. -/
private theorem exists_writer {setup : PlotterSetup} {plan : List PlannedFile}
    (listed : plan ∈ setup.plans) {file : PlannedFile} (member : file ∈ plan) :
    ∃ writer index : Nat, (setup.plan writer)[index]? = some file := by
  obtain ⟨writer, found⟩ := List.getElem?_of_mem listed
  obtain ⟨index, here⟩ := List.getElem?_of_mem member
  refine ⟨writer, index, ?_⟩
  rw [PlotterSetup.plan, List.getD_eq_getElem?_getD, found]
  exact here

/-- Some file is planned. -/
private theorem exists_file {setup : PlotterSetup} (planned : setup.totalNonces ≠ 0) :
    ∃ plan ∈ setup.plans, ∃ file, file ∈ plan := by
  by_contra none
  refine planned ?_
  have empty : setup.plans.flatten = [] := by
    rw [List.flatten_eq_nil_iff]
    intro plan listed
    exact List.eq_nil_iff_forall_not_mem.mpr fun file member => none ⟨plan, listed, file, member⟩
  rw [PlotterSetup.totalNonces, empty]
  rfl

section

variable {setup : PlotterSetup} {device : Device} {lws gws : Nat} {buffers : Int}

private theorem lanesFit_of_exact (valid : setup.Valid)
    (exact : ∀ writer blocks n, ∀ task ∈ (handOut setup writer blocks n).1,
      TaskExact setup.gpu.globalWorkSize task) : LanesFit setup := by
  constructor
  · by_contra wide
    obtain ⟨workSize, larger⟩ := not_or.mp wide
    refine larger fun plan listed file member => ?_
    by_contra big
    obtain ⟨writer, index, found⟩ := exists_writer listed member
    obtain ⟨n, task, handed, size⟩ := handOut_first writer (fun _ => 0) valid (by omega) found
    have small := addressesExact_iff.mp (exact writer _ n task handed).gathered
    omega
  · intro positive
    by_contra negative
    obtain ⟨plan, listed, file, member⟩ := exists_file valid.planned
    obtain ⟨writer, index, found⟩ := exists_writer listed member
    obtain ⟨n, task, handed, _⟩ := handOut_first writer (fun _ => 0) valid positive found
    have some_nonces := ((handOut_handedOut writer _ valid positive n).le_file valid handed).1
    exact not_taskExact (by omega) some_nonces (exact writer _ n task handed)

private theorem exact_of_lanesFit (valid : setup.Valid) (fit : LanesFit setup) (writer : Nat)
    (blocks : Nat → Nat) (n : Nat) : ∀ task ∈ (handOut setup writer blocks n).1,
      TaskExact setup.gpu.globalWorkSize task := by
  intro task member
  have within := handOut_le setup writer blocks n task member
  by_cases positive : 0 < toInt32 setup.workSize
  · refine TaskExact.of_le (fit.signed positive) ?_
    rcases fit.tasks with narrow | short
    · omega
    · obtain ⟨_, plan, listed, file, planned, bound⟩ :=
        (handOut_handedOut writer blocks valid positive n).le_file valid member
      have small := short plan listed file planned
      omega
  · have none : task.chunks setup.gpu.globalWorkSize = [] := by
      rw [HasherTask.chunks, show task.nonces.toNat = 0 by omega]
      rfl
    refine ⟨addressesExact_iff.mpr (by omega), ?_⟩
    rw [none]
    exact List.forall_mem_nil _

/-- Every address of every hash task is exact just when the sizes fit. -/
theorem lanesExact_iff (made : setup.MadeFrom device lws gws buffers) :
    (∀ writer blocks n, ∀ task ∈ (handOut setup writer blocks n).1,
      TaskExact setup.gpu.globalWorkSize task) ↔ LanesFit setup :=
  ⟨lanesFit_of_exact made.valid, exact_of_lanesFit made.valid⟩

end

/-- A device with 8192 work items and eight gigabytes a buffer. -/
def largeDevice : Device := ⟨32, 256, 8589934592⟩

/-- Seven buffers of that device's work items on one file of 65536 nonces. -/
def sevenBuffers : PlotterSetup where
  gpu := .inOrder 8192
  buffers := 7
  maxMem := 17179869184
  bench := 0
  plans := [[⟨1, 0, 65536⟩]]

private theorem sevenBuffers_made : sevenBuffers.MadeFrom largeDevice 0 0 7 where
  globalWorkSize := by decide
  buffers := by decide
  valid := {
    files := by
      rintro plan listed file member
      obtain rfl : plan = [⟨1, 0, 65536⟩] := by simpa [sevenBuffers] using listed
      obtain rfl : file = ⟨1, 0, 65536⟩ := by simpa using member
      exact ⟨by decide, by decide, by decide⟩
    memory := by decide
    flying := by decide
    few := by decide
    planned := by decide
    total := by decide }

/-- Seven buffers of 8192 lanes. -/
theorem lanesExact_iff_sevenBuffers :
    (∀ writer blocks n, ∀ task ∈ (handOut sevenBuffers writer blocks n).1,
      TaskExact sevenBuffers.gpu.globalWorkSize task) ↔ LanesFit sevenBuffers :=
  lanesExact_iff sevenBuffers_made

/-- The first hash task of seven buffers has 57344 lanes. -/
theorem not_lanesExact_sevenBuffers : sevenBuffers.MadeFrom largeDevice 0 0 7 ∧
    ∃ task ∈ (handOut sevenBuffers 0 (fun _ => 0) 1).1, ¬AddressesExact task.nonces := by
  refine ⟨sevenBuffers_made, ⟨1, 0, 57344, 0, 0, 0⟩, by decide, ?_⟩
  rw [addressesExact_iff]
  decide

end HyperPlotter.Pipeline

import HyperPlotter.Pipeline.PlotFile

/-!
# The layout of a plotted file

When the pipeline submits a file as complete, its bytes are the PoC2 layout of
its nonces, as long as a hash task fits the `int` product that moves the host
pointer. Beyond that a task keeps in lane `gws` what its block held before.
-/

namespace HyperPlotter.Pipeline

open Foundation Poc

/-- Scoop `c` of nonce `k` of the file is at offset `(c * N + k) * 64`. -/
def PoC2Layout (file : PlannedFile) (entry : FileEntry) : Prop :=
  ∀ c k b : Nat, c < 4096 → (k : Int) < file.nonces → b < 64 →
    (c * file.nonces.toNat + k) * 64 + b < entry.size ∧
    entry.bytes ((c * file.nonces.toNat + k) * 64 + b : Nat) =
      scoopByte (BitVec.ofNat 64 file.pid) (BitVec.ofNat 64 (file.sn + k)) c b

/-- The bytes gathered from a finished lane. -/
theorem laneByte_plotted {block : Memory} {plotId nonce : BitVec 64} {k c b : Nat}
    (lane : k < 32768) (plotted : LanePlotted (seedWords plotId nonce) k block) (scoop : c < 4096)
    (byte : b < 64) : laneByte block c k b = scoopByte plotId nonce c b := by
  have gathered := transposition_laneByte block block c k (n := 1) (t := 0) (by omega) byte
  have plottedByte := transposition_plotted block (n := 1) (t := 0) lane plotted scoop
    (by omega) byte
  exact gathered.symm.trans plottedByte

/-- A byte gathered from a lane that still holds what the block held. -/
theorem laneByte_stale {block : Memory} {g k : Nat} (aligned : g % 16 = 0) (behind : g ≤ k)
    (bound : k < 32768) {v : Byte} (stale : ∀ a : Int, 262144 * (g : Int) ≤ a → block a = v) :
    laneByte block 0 k 0 = v := by
  unfold laneByte scoopSource
  rw [if_pos (by omega), addressInt_eq (by omega) (by omega) (by omega) (by omega) (by omega)
    (by omega)]
  refine (Memory.byte_read32 block _ (by omega)).trans (stale _ ?_)
  unfold laneIndex
  omega

/-- From lane 32768 on the `int` product of the macro wraps: the bytes come from
in front of the block. -/
theorem laneByte_wrapped {block : Memory} {k : Nat} (wide : 32768 ≤ k) (bound : k < 65536)
    {v : Byte} (outside : ∀ a : Int, a < 0 → block a = v) : laneByte block 0 k 0 = v := by
  unfold laneByte scoopSource
  rw [if_pos (by omega)]
  refine (Memory.byte_read32 block _ (by omega)).trans (outside _ ?_)
  have index : 2147483648 ≤ laneIndex k (8 * ((0 : Nat) * 2) + (0 / 4 : Nat)) ∧
      laneIndex k (8 * ((0 : Nat) * 2) + (0 / 4 : Nat)) < 4294967296 := by
    unfold laneIndex
    omega
  rw [addressInt_wrap, toInt32_above index.1 index.2]
  omega

/-- A hash task starts at its offset within the file. -/
theorem nonce_offset {file : PlannedFile} {task : HasherTask} {x : Nat}
    (lower : task.offset file ≤ x) :
    BitVec.ofNat 64 (task.sn + (x - task.offset file)) = BitVec.ofNat 64 (file.sn + x) := by
  refine BitVec.eq_of_toNat_eq ?_
  rw [BitVec.toNat_ofNat, BitVec.toNat_ofNat]
  unfold HasherTask.offset toUInt64 at *
  omega

/-- A slot with a finished lane of a task's block holds its nonce. -/
theorem SlotHolds.plotted {file : PlannedFile} {task : HasherTask} {block : Memory}
    (pid : task.pid = file.pid) {x : Nat} (lower : task.offset file ≤ x)
    (bounded : x - task.offset file < 32768)
    (lane : LanePlotted (seedWords (BitVec.ofNat 64 task.pid)
      (BitVec.ofNat 64 (task.sn + (x - task.offset file)))) (x - task.offset file : Nat) block)
    {entry : FileEntry} {c b : Nat}
    (slot : SlotHolds entry (c * file.nonces.toNat + x) block c (x - task.offset file))
    (scoop : c < 4096) (byte : b < 64) :
    (c * file.nonces.toNat + x) * 64 + b < entry.size ∧
      entry.bytes ((c * file.nonces.toNat + x) * 64 + b : Nat) =
        scoopByte (BitVec.ofNat 64 file.pid) (BitVec.ofNat 64 (file.sn + x)) c b := by
  rw [pid, nonce_offset lower] at lane
  have inside := slot.inside
  refine ⟨by omega, ?_⟩
  rw [← laneByte_plotted bounded lane scoop byte, ← slot.bytes b byte]
  exact congrArg _ (by omega)

/-- A slot with the lane of a hashed task holds its nonce, while the bytes of a
chunk fit an `int` or the task is one chunk. -/
theorem SlotHolds.layout {gpu : GpuPlotter} (supported : gpu.Supported) {file : PlannedFile}
    {task : HasherTask} (devBuff prior : Memory) (pid : task.pid = file.pid)
    (upper : task.nonces < 2147483648)
    (exact : gpu.globalWorkSize < 8192 ∨ task.nonces ≤ gpu.globalWorkSize) {x : Nat}
    (lower : task.offset file ≤ x) (within : (x : Int) < task.offset file + task.nonces)
    (bounded : x - task.offset file < 32768)
    {entry : FileEntry} {c b : Nat} (slot : SlotHolds entry (c * file.nonces.toNat + x)
      (hashTask gpu devBuff prior task).2 c (x - task.offset file))
    (scoop : c < 4096) (byte : b < 64) :
    (c * file.nonces.toNat + x) * 64 + b < entry.size ∧
      entry.bytes ((c * file.nonces.toNat + x) * 64 + b : Nat) =
        scoopByte (BitVec.ofNat 64 file.pid) (BitVec.ofNat 64 (file.sn + x)) c b := by
  have lanes := hashTask_plotted supported devBuff prior task (by omega) (by omega) exact
  have lane := lanes (x - task.offset file) (by omega)
  rw [Nat.zero_add] at lane
  exact slot.plotted pid lower bounded lane scoop byte

/-- While a file is incomplete no submission answers true. -/
theorem Submissions.incomplete {file : PlannedFile} {tasks : List (HasherTask × Memory)}
    {answers : List (Bool × Option FileEntry)} (submissions : Submissions [file] tasks answers)
    (sequence : Sequence [file] (tasks.map Prod.fst))
    (unfinished : issuedNonces 0 (tasks.map Prod.fst) < file.nonces) :
    answers.map Prod.fst = List.replicate tasks.length false := by
  induction submissions with
  | nil => rfl
  | @snoc tasks answers task block complete content index other prior current found verdict whole ih =>
      rw [List.map_append, List.map_singleton] at sequence unfinished
      obtain ⟨earlier, _, _, next⟩ := sequence.continues_last
      obtain ⟨rfl, rfl⟩ := only_file found
      have positive : 0 < task.nonces := next.positive
      rw [issuedNonces_append, issuedNonces_singleton, if_pos current] at unfinished
      simp only [] at unfinished
      have open_ : complete = false := by
        cases complete with
        | false => rfl
        | true =>
            have := verdict.mp rfl
            omega
      rw [List.map_append, ih earlier (by omega), open_, List.length_append, List.length_singleton,
        List.replicate_succ', List.map_singleton]

/-- The submission that completes a file is the last one, and the only one that
answers true. -/
theorem Submissions.complete {file : PlannedFile} (valid : file.Valid)
    {tasks : List (HasherTask × Memory)} {answers : List (Bool × Option FileEntry)}
    (submissions : Submissions [file] tasks answers)
    (sequence : Sequence [file] (tasks.map Prod.fst))
    (finished : issuedNonces 0 (tasks.map Prod.fst) = file.nonces) :
    answers.map Prod.fst = List.replicate (tasks.length - 1) false ++ [true] ∧
    ∃ entry, answers.getLast? = some (true, some entry) ∧ FileHolds entry file 0 tasks := by
  cases submissions with
  | nil =>
      have nonempty := valid.nonempty
      rw [List.map_nil, issuedNonces_nil] at finished
      omega
  | @snoc tasks answers task block complete content index other prior current found verdict whole =>
      rw [List.map_append, List.map_singleton] at sequence finished
      obtain ⟨earlier, _, _, next⟩ := sequence.continues_last
      obtain ⟨rfl, rfl⟩ := only_file found
      have positive : 0 < task.nonces := next.positive
      rw [issuedNonces_append, issuedNonces_singleton, if_pos current] at finished
      simp only [] at finished
      obtain rfl : complete = true := verdict.mpr finished
      obtain ⟨entry, contentEq, holds⟩ := whole rfl
      constructor
      · rw [List.map_append, prior.incomplete earlier (by omega), List.length_append,
          List.length_singleton, Nat.add_sub_cancel, List.map_singleton]
      · exact ⟨entry, by rw [contentEq, List.getLast?_concat], holds⟩

section

variable {file : PlannedFile} {gws : Int} {run : PlotRun}

/-- A complete file was submitted as complete once, at its last task, with all
its tasks in it. -/
theorem PlotState.Growing.submitted (valid : file.Valid) {state : PlotState}
    (growing : state.Growing file gws run) (finished : issuedNonces 0 state.handed = file.nonces) :
    (submissions state.point.state.history).map Prod.fst =
      List.replicate (state.handed.length - 1) false ++ [true] ∧
    ∃ entry, (submissions state.point.state.history).getLast? = some (true, some entry) ∧
      FileHolds entry file 0 state.point.state.finished := by
  obtain ⟨_, _, place⟩ := growing.place
  have tasks : state.point.state.finished.map Prod.fst = state.handed := growing.reported
  have complete := place.1.answers.complete valid (by rw [tasks]; exact growing.issued.sequence)
    (by rw [tasks, finished])
  rwa [← List.length_map (f := Prod.fst), tasks] at complete

/-- Hash tasks of the full size but the last one. -/
private theorem issued_rounds (valid : file.Valid) {tasks : List HasherTask}
    (sequence : Sequence [file] tasks)
    (sizes : ∀ task ∈ tasks, task.nonces = min gws (file.nonces - task.offset file)) :
    issuedNonces 0 tasks = min (gws * tasks.length) file.nonces := by
  have nonempty := valid.nonempty
  induction sequence with
  | nil =>
      rw [issuedNonces_nil, List.length_nil, Int.natCast_zero, Int.mul_zero]
      omega
  | @snoc earlier task index other prior next ih =>
      obtain ⟨rfl, rfl⟩ := only_file next.found
      have before := ih fun earlierTask member =>
        sizes earlierTask (List.mem_append_left _ member)
      have offset := next.offset_eq (by simpa using valid) prior
      have size := sizes task (List.mem_append_right _ (List.mem_singleton_self _))
      have positive := next.positive
      rw [issuedNonces_append, issuedNonces_singleton, if_pos next.current, List.length_append,
        List.length_singleton, Int.natCast_add, Int.natCast_one, Int.mul_add, Int.mul_one]
      omega

/-- The task of a nonce, the nonce's lane in it, and what the slot holds. -/
theorem PlotState.Growing.lane (valid : file.Valid) {state : PlotState}
    (growing : state.Growing file gws run) (finished : issuedNonces 0 state.handed = file.nonces)
    {entry : FileEntry} (holds : FileHolds entry file 0 state.point.state.finished) {c x : Nat}
    (scoop : c < 4096) (nonce : (x : Int) < file.nonces) :
    ∃ task devBuff round, task.pid = file.pid ∧ task.offset file ≤ x ∧
      (x : Int) < task.offset file + task.nonces ∧
      task.nonces = min gws (file.nonces - task.offset file) ∧
      ((x - task.offset file : Nat) : Int) = x % gws ∧
      SlotHolds entry (c * file.nonces.toNat + x)
        (hashTask run.gpu devBuff (run.prior round) task).2 c (x - task.offset file) := by
  have validPlan : ∀ other ∈ [file], other.Valid := by simpa using valid
  have tasks : state.point.state.finished.map Prod.fst = state.handed := growing.reported
  have sequence := growing.issued.sequence
  obtain ⟨task, block, member, current, lower, within, slot⟩ := holds.slot validPlan
    (by rw [tasks]; exact sequence) rfl (by rw [tasks, finished]) scoop nonce
  have sizes : ∀ other ∈ state.handed, other.nonces = min gws (file.nonces - other.offset file) := by
    intro other listed
    rw [← tasks] at listed
    obtain ⟨⟨_, data⟩, paired, rfl⟩ := List.mem_map.mp listed
    exact (growing.hashed _ data paired).2.1
  obtain ⟨pid, size, devBuff, round, hashed⟩ := growing.hashed task block member
  -- the tasks before it are all of the full size
  have listed : task ∈ state.handed := by
    rw [← tasks]
    exact List.mem_map_of_mem (f := Prod.fst) member
  obtain ⟨earlier, later, split⟩ := List.append_of_mem listed
  rw [split] at sequence sizes
  have prior : Sequence [file] earlier := sequence.of_append _
  obtain ⟨index, other, next⟩ := sequence.continues
  obtain ⟨rfl, rfl⟩ := only_file next.found
  have offset := next.offset_eq validPlan prior
  have rounds := issued_rounds valid prior fun other before =>
    sizes other (List.mem_append_left _ before)
  have positive := next.positive
  rw [hashed] at slot
  refine ⟨task, devBuff, round, pid, lower, within, size, ?_, slot⟩
  have full : (task.offset file : Int) = gws * earlier.length := by omega
  have remainder : (x : Int) = ((x - task.offset file : Nat) : Int) + gws * earlier.length := by
    omega
  rw [remainder, Int.add_mul_emod_self_left, Int.emod_eq_of_lt (by omega) (by omega)]

/-- A file that holds every task, with every task hashed, holds each nonce that is
in the first 32768 lanes of its task. -/
theorem PlotState.Growing.plotted (valid : file.Valid) (supported : run.gpu.Supported)
    (exact : run.gpu.globalWorkSize < 8192 ∨ gws ≤ run.gpu.globalWorkSize ∨
      file.nonces ≤ run.gpu.globalWorkSize) {state : PlotState}
    (growing : state.Growing file gws run) (finished : issuedNonces 0 state.handed = file.nonces)
    {entry : FileEntry} (holds : FileHolds entry file 0 state.point.state.finished) {c x b : Nat}
    (scoop : c < 4096) (nonce : (x : Int) < file.nonces) (bounded : x % gws < 32768)
    (byte : b < 64) :
    (c * file.nonces.toNat + x) * 64 + b < entry.size ∧
      entry.bytes ((c * file.nonces.toNat + x) * 64 + b : Nat) =
        scoopByte (BitVec.ofNat 64 file.pid) (BitVec.ofNat 64 (file.sn + x)) c b := by
  have upper := valid.bounded
  obtain ⟨task, devBuff, round, pid, lower, within, size, lane, slot⟩ :=
    growing.lane valid finished holds scoop nonce
  exact slot.layout supported devBuff _ pid (by omega) (by omega) lower within (by omega) scoop byte

/-- With hash tasks of at most 32768 nonces that is the whole layout. -/
theorem PlotState.Growing.layout (valid : file.Valid) (supported : run.gpu.Supported)
    (positive : 0 < gws) (bounded : gws ≤ 32768)
    (exact : run.gpu.globalWorkSize < 8192 ∨ gws ≤ run.gpu.globalWorkSize ∨
      file.nonces ≤ run.gpu.globalWorkSize) {state : PlotState}
    (growing : state.Growing file gws run) (finished : issuedNonces 0 state.handed = file.nonces)
    {entry : FileEntry} (holds : FileHolds entry file 0 state.point.state.finished) :
    PoC2Layout file entry := by
  intro c x b scoop nonce byte
  have lane := Int.emod_lt_of_pos x positive
  exact growing.plotted valid supported exact finished holds scoop nonce (by omega) byte

/-- From 8192 work items on, the lanes of a hash task from `gws` on keep their bytes. -/
theorem PlotState.Growing.stale (valid : file.Valid) {v : Byte}
    (prior : ∀ round a, run.prior round a = v) (aligned : run.gpu.globalWorkSize % 16 = 0)
    (wide : 8192 ≤ run.gpu.globalWorkSize) (narrow : run.gpu.globalWorkSize ≤ 16384)
    {state : PlotState} (growing : state.Growing file gws run)
    (finished : issuedNonces 0 state.handed = file.nonces) {entry : FileEntry}
    (holds : FileHolds entry file 0 state.point.state.finished) {x : Nat}
    (nonce : (x : Int) < file.nonces) (behind : (run.gpu.globalWorkSize : Int) ≤ x % gws)
    (bounded : x % gws < 32768) : entry.bytes (64 * x : Nat) = v := by
  have upper := valid.bounded
  obtain ⟨task, devBuff, round, _, lower, within, size, lane, slot⟩ :=
    growing.lane valid finished holds (c := 0) (by omega) nonce
  have byte := slot.bytes 0 (by omega)
  rw [laneByte_stale aligned (by omega) (by omega) (v := v)] at byte
  · rw [← byte]
    exact congrArg _ (by omega)
  · intro a beyond
    rw [hashTask_stale wide narrow devBuff _ task (by omega) beyond, prior]

/-- Below 8192 work items the lanes of a hash task from 32768 on come from in front
of the block. -/
theorem PlotState.Growing.wrapped (valid : file.Valid) (supported : run.gpu.Supported) {v : Byte}
    (prior : ∀ round a, run.prior round a = v) (narrow : run.gpu.globalWorkSize < 8192)
    {state : PlotState} (growing : state.Growing file gws run)
    (finished : issuedNonces 0 state.handed = file.nonces) {entry : FileEntry}
    (holds : FileHolds entry file 0 state.point.state.finished) {x : Nat}
    (nonce : (x : Int) < file.nonces) (behind : 32768 ≤ x % gws) (bounded : x % gws < 65536) :
    entry.bytes (64 * x : Nat) = v := by
  have upper := valid.bounded
  obtain ⟨task, devBuff, round, _, lower, within, size, lane, slot⟩ :=
    growing.lane valid finished holds (c := 0) (by omega) nonce
  have byte := slot.bytes 0 (by omega)
  rw [laneByte_wrapped (by omega) (by omega) (v := v)] at byte
  · rw [← byte]
    exact congrArg _ (by omega)
  · intro a outside
    rw [hashTask_outside supported devBuff _ task (by omega) (by omega) (.inl narrow) outside, prior]

end

/-! ## Which files are plotted well -/

/-- Only finitely many file operations fail. -/
def PlotRun.Settles (run : PlotRun) : Prop :=
  ∃ settled, ∀ j, settled ≤ j → (run.outcomes j).ok = true

/-- The file was plotted: every task that was handed out is reported and there is
no further one, the file was submitted as complete once, at the last task, with
its layout, and no write was outside it. -/
structure PlotCompleted (file : PlannedFile) (gws : Int) (state : PlotState) : Prop where
  reported : state.point.state.reported = state.handed
  exhausted : (nextHasherTask gws 0 0 state.cur state.tasks).1 = none
  once : (submissions state.point.state.history).map Prod.fst =
    List.replicate (state.handed.length - 1) false ++ [true]
  layout : ∃ entry, (submissions state.point.state.history).getLast? = some (true, some entry) ∧
    PoC2Layout file entry
  within : WritesWithin [file] state.point.state.history

/-- Every run with `g` work items and `b` buffers plots the file, given enough
attempts for each of its tasks. -/
def PlotsWell (file : PlannedFile) (g b : Nat) : Prop :=
  ∀ run : PlotRun, run.gpu.Supported → run.gpu.globalWorkSize = g → run.Settles →
    ∃ enough, ∀ attempts, enough ≤ attempts →
      PlotCompleted file (g * b : Nat) (plotFile file (g * b : Nat) run attempts)

section

variable {file : PlannedFile} {g b : Nat}

/-- All that `PlotCompleted` says but the layout. -/
theorem plotFile_growing (valid : file.Valid) (gws : Int) (positive : 0 < gws)
    {run : PlotRun} {settled attempts : Nat}
    (smooth : ∀ j, settled ≤ j → (run.outcomes j).ok = true) (enough : settled < attempts) :
    (plotFile file gws run attempts).Growing file gws run ∧
      issuedNonces 0 (plotFile file gws run attempts).handed = file.nonces := by
  have nonempty := valid.nonempty
  refine plotLoop_growing valid positive smooth enough _ 0 _ (plotStart_growing valid) ?_
  rw [show (plotStart file run).handed = [] from rfl, issuedNonces_nil]
  omega

/-- The exhausted file has no further hash task. -/
private theorem PlotState.Growing.exhausted (valid : file.Valid) {gws : Int} (positive : 0 < gws)
    {run : PlotRun} {state : PlotState} (growing : state.Growing file gws run)
    (finished : issuedNonces 0 state.handed = file.nonces) :
    (nextHasherTask gws 0 0 state.cur state.tasks).1 = none := by
  have answer := growing.issued.nextHasherTask_answer (PlannedFile.typed (by simpa using valid)) positive 0 0
  cases handed : (nextHasherTask gws 0 0 state.cur state.tasks).1 with
  | none => rfl
  | some task =>
      obtain ⟨_, _, index, other, next, _⟩ := answer.task task handed
      obtain ⟨rfl, rfl⟩ := only_file next.found
      have fits := next.fits
      have some_nonces := next.positive
      omega

private theorem plotsWell_of_exact (valid : file.Valid) (positive : 0 < g) (buffers : 0 < b)
    (bounded : g * b ≤ 32768) (exact : g < 8192 ∨ b = 1 ∨ file.nonces ≤ g) :
    PlotsWell file g b := by
  rintro run supported rfl ⟨settled, smooth⟩
  refine ⟨settled + 1, fun attempts enough => ?_⟩
  have gws : (0 : Int) < (run.gpu.globalWorkSize * b : Nat) :=
    Int.natCast_pos.mpr (Nat.mul_pos positive buffers)
  obtain ⟨growing, finished⟩ := plotFile_growing valid _ gws smooth enough
  obtain ⟨once, entry, last, holds⟩ := growing.submitted valid finished
  obtain ⟨_, _, place⟩ := growing.place
  refine ⟨growing.reported, growing.exhausted valid gws finished, once, ⟨entry, last, ?_⟩,
    place.1.within⟩
  refine growing.layout valid supported gws (by omega) ?_ finished holds
  rcases exact with narrow | single | short
  · exact .inl narrow
  · subst single
    exact .inr (.inl (by omega))
  · exact .inr (.inr short)

/-- A run whose blocks hold one value everywhere and where nothing fails. -/
def filledRun (gpu : GpuPlotter) (v : Byte) : PlotRun where
  gpu := gpu
  plotting _ := none
  final _ := none
  writeBuffer _ := 0
  devBuff _ := 0
  prior _ _ := v
  outcomes _ := ⟨true, 0, fun _ => 0⟩

private theorem not_plotsWell (valid : file.Valid) (aligned : g % 16 = 0) (wide : 8192 ≤ g)
    (several : 2 ≤ b) (bounded : g * b ≤ 32768) (longer : (g : Int) < file.nonces) :
    ¬PlotsWell file g b := by
  intro well
  have twice : g * 2 ≤ g * b := Nat.mul_le_mul_left g several
  have held : ∀ v : Byte,
      scoopByte (BitVec.ofNat 64 file.pid) (BitVec.ofNat 64 (file.sn + g)) 0 0 = v := by
    intro v
    obtain ⟨enough, completes⟩ := well (filledRun (GpuPlotter.inOrder g) v)
      (GpuPlotter.inOrder_supported (by omega) aligned (by omega)) rfl ⟨0, fun _ _ => rfl⟩
    have completed := completes (enough + 1) (by omega)
    obtain ⟨growing, finished⟩ := plotFile_growing valid (g * b : Nat) (by omega)
      (fun _ _ => rfl : ∀ j, 0 ≤ j → ((filledRun (GpuPlotter.inOrder g) v).outcomes j).ok = true)
      (Nat.succ_pos enough)
    obtain ⟨_, entry, last, holds⟩ := growing.submitted valid finished
    obtain ⟨entry', last', layout⟩ := completed.layout
    obtain ⟨_, same⟩ := Prod.mk.inj (Option.some.inj (last.symm.trans last'))
    obtain rfl : entry = entry' := Option.some.inj same
    have lane : (g : Int) % (g * b : Nat) = g := Int.emod_eq_of_lt (by omega) (by omega)
    have gws : (filledRun (GpuPlotter.inOrder g) v).gpu.globalWorkSize = g := rfl
    have stale := growing.stale valid (fun _ _ => rfl) aligned wide (by omega) finished holds longer
      (by omega) (by omega)
    rw [← (layout 0 g 0 (by omega) longer (by omega)).2, ← stale]
    exact congrArg _ (by omega)
  exact absurd ((held 0).symm.trans (held 0xFF)) (by decide)

/-- The pipeline plots a file well exactly when no hash task needs a second chunk
at a byte offset that leaves the `int` range. -/
theorem plotsWell_iff (valid : file.Valid) (positive : 0 < g) (aligned : g % 16 = 0)
    (buffers : 1 ≤ b ∧ b ≤ 7) (bounded : g * b ≤ 32768) :
    PlotsWell file g b ↔ g < 8192 ∨ b = 1 ∨ file.nonces ≤ g := by
  constructor
  · intro well
    by_contra beyond
    exact not_plotsWell valid aligned (by omega) (by omega) bounded (by omega) well
  · exact plotsWell_of_exact valid positive buffers.1 bounded

end

/-- Forty nonces with a work size of 16 and two buffers. -/
theorem plotsWell_iff_sixteen :
    PlotsWell ⟨1, 0, 40⟩ 16 2 ↔ 16 < 8192 ∨ 2 = 1 ∨ (40 : Int) ≤ (16 : Nat) :=
  plotsWell_iff ⟨by decide, by decide, by decide⟩ (by decide) (by decide) (by decide) (by decide)

/-- Two buffers of 8192 work items leave half of every block unhashed. -/
theorem not_plotsWell_twoBuffers : ¬PlotsWell ⟨1, 0, 16384⟩ 8192 2 :=
  not_plotsWell ⟨by decide, by decide, by decide⟩ (by decide) (by decide) (by decide) (by decide)
    (by decide)

end HyperPlotter.Pipeline

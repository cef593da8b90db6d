import HyperPlotter.Pipeline.Tasks
import HyperPlotter.Poc.GpuPlotter

/-!
# The hasher thread's work on one task

The loop of `hasher_worker::run` cuts a hash task into calls of
`gpu_plotter::plot` and moves the host pointer by an `int` product. While that
product fits, every lane of the task ends up with its nonce.
-/

namespace HyperPlotter.Pipeline

open Foundation Poc

/-- One call of `plot`: start nonce, nonce count, and the byte offset of the
host pointer from the block. -/
structure Chunk where
  startNonce : Nat
  nonces : Int
  hostBuff : Int

/-- The loop `while (total_nonces > 0)`; `fuel` bounds the rounds, each of which
takes at least one nonce. -/
def hashChunks (gws : Nat) : Nat → Int → Nat → Int → List Chunk
  | 0, _, _, _ => []
  | fuel + 1, totalNonces, startNonces, hostBuff =>
    if totalNonces > 0 then
      let nonces := min totalNonces (toInt32 gws)
      ⟨startNonces, nonces, hostBuff⟩ :: hashChunks gws fuel (toInt32 (totalNonces - nonces))
        (toUInt64 (startNonces + nonces)) (hostBuff + toInt32 (nonces * plotSize))
    else []

/-- The calls for one hash task. -/
def HasherTask.chunks (gws : Nat) (task : HasherTask) : List Chunk :=
  hashChunks gws task.nonces.toNat task.nonces task.sn 0

/-- One call of `plot` on the device buffer and the host memory. -/
def plotChunk (gpu : GpuPlotter) (pid : Nat) (buffers : Memory × Memory) (chunk : Chunk) :
    Memory × Memory :=
  gpu.plot buffers.1 (BitVec.ofNat 64 pid) (BitVec.ofNat 64 chunk.startNonce)
    (toUInt64 chunk.nonces) buffers.2 chunk.hostBuff

/-- What hashing a task leaves in the device buffer and in the task's block. -/
def hashTask (gpu : GpuPlotter) (devBuff block : Memory) (task : HasherTask) : Memory × Memory :=
  (task.chunks gpu.globalWorkSize).foldl (plotChunk gpu task.pid) (devBuff, block)

/-- The lanes of a block hold the nonces from `sn` on. -/
def LanesPlotted (pid sn first count : Nat) (block : Memory) : Prop :=
  ∀ k : Nat, k < count → LanePlotted
    (seedWords (BitVec.ofNat 64 pid) (BitVec.ofNat 64 (sn + k))) (first + k : Nat) block

/-- Lane `k` of a chunk that starts at a multiple of sixteen. -/
private theorem laneIndex_chunk {base k j : Nat} (aligned : base % 16 = 0) :
    laneIndex (base + k : Nat) j = 65536 * (base : Int) + laneIndex k j := by
  unfold laneIndex
  omega

private theorem laneSeed_eq (pid sn k : Nat) :
    laneSeed (BitVec.ofNat 64 pid) (BitVec.ofNat 64 sn) k =
      seedWords (BitVec.ofNat 64 pid) (BitVec.ofNat 64 (sn + k)) := by
  unfold laneSeed
  rw [← BitVec.ofNat_add]

private theorem seed_wrap (pid sn g k : Nat) :
    seedWords (BitVec.ofNat 64 pid) (BitVec.ofNat 64 (toUInt64 ((sn : Int) + g) + k)) =
      seedWords (BitVec.ofNat 64 pid) (BitVec.ofNat 64 (sn + g + k)) := by
  refine congrArg (seedWords _) (BitVec.eq_of_toNat_eq ?_)
  rw [BitVec.toNat_ofNat, BitVec.toNat_ofNat]
  unfold toUInt64
  omega

/-- The lanes of one chunk, and nothing below them changed. -/
private theorem plotChunk_plotted {gpu : GpuPlotter} (supported : gpu.Supported) (pid : Nat)
    (buffers : Memory × Memory) {base : Nat} (sn : Nat) {n : Nat} (aligned : base % 16 = 0)
    (fits : n ≤ gpu.globalWorkSize) :
    LanesPlotted pid sn base n (plotChunk gpu pid buffers ⟨sn, n, 262144 * base⟩).2 ∧
    ∀ a : Int, a < 262144 * base →
      (plotChunk gpu pid buffers ⟨sn, n, 262144 * base⟩).2 a = buffers.2 a := by
  have bounded := supported.bounded
  have count : toUInt64 (n : Int) = n := toUInt64_natCast (by omega)
  unfold plotChunk
  rw [count]
  constructor
  · intro k lane j bound
    have word := GpuPlotter.read32_plot supported buffers.1 (BitVec.ofNat 64 pid)
      (BitVec.ofNat 64 sn) buffers.2 (65536 * (base : Int)) fits lane bound
    rw [laneSeed_eq, ← laneIndex_chunk aligned,
      show 4 * (65536 * (base : Int)) = 262144 * base by omega] at word
    exact word
  · intro a below
    refine GpuPlotter.plot_outside _ _ _ _ _ fun within => ?_
    exact absurd within.1 (Int.not_le.mpr below)

/-- Lanes below the bytes that changed stay plotted. -/
private theorem LanesPlotted.of_below {pid sn first count : Nat} {block block' : Memory}
    (plotted : LanesPlotted pid sn first count block) {bound : Nat} (aligned : bound % 16 = 0)
    (below : first + count ≤ bound)
    (same : ∀ a : Int, a < 262144 * bound → block' a = block a) :
    LanesPlotted pid sn first count block' := by
  intro k lane j small
  rw [← plotted k lane j small]
  apply Memory.read32_congr
  intro b lower upper
  refine same _ ?_
  unfold laneIndex
  omega

/-- The rounds of the loop, from lane `base` on. -/
private theorem hashChunks_plotted {gpu : GpuPlotter} (supported : gpu.Supported) (pid : Nat)
    (fuel : Nat) : ∀ (total base sn : Nat) (buffers : Memory × Memory), total ≤ fuel →
      base % 16 = 0 → gpu.globalWorkSize < 8192 ∨ total ≤ gpu.globalWorkSize →
      total < 2147483648 →
      let result := (hashChunks gpu.globalWorkSize fuel total sn (262144 * base)).foldl
        (plotChunk gpu pid) buffers
      LanesPlotted pid sn base total result.2 ∧
      ∀ a : Int, a < 262144 * base → result.2 a = buffers.2 a := by
  have positive := supported.positive
  have bounded := supported.bounded
  have alignedSize := supported.aligned
  have size : ((plotSize : Nat) : Int) = 262144 := rfl
  have gws : toInt32 gpu.globalWorkSize = gpu.globalWorkSize :=
    toInt32_eq (by omega) (by omega)
  induction fuel with
  | zero =>
      intro total base sn buffers enough _ _ _
      obtain rfl : total = 0 := by omega
      exact ⟨nofun, fun _ _ => rfl⟩
  | succ fuel ih =>
      intro total base sn buffers enough aligned exact small
      rw [hashChunks]
      by_cases none : total = 0
      · subst none
        rw [if_neg (by omega)]
        exact ⟨nofun, fun _ _ => rfl⟩
      · rw [if_pos (by omega), gws]
        simp only [List.foldl_cons]
        by_cases last : total ≤ gpu.globalWorkSize
        · -- the last chunk takes all that is left
          have chunk : min (total : Int) gpu.globalWorkSize = (total : Int) := by omega
          have finished : ∀ rest host, hashChunks gpu.globalWorkSize fuel
              (toInt32 ((total : Int) - total)) rest host = [] := by
            intro rest host
            rw [Int.sub_self, toInt32_eq (by omega) (by omega)]
            cases fuel with
            | zero => rfl
            | succ fuel => rw [hashChunks, if_neg (by omega)]
          rw [chunk, finished]
          exact plotChunk_plotted supported pid buffers sn aligned last
        · have chunk : min (total : Int) gpu.globalWorkSize = (gpu.globalWorkSize : Int) := by
            omega
          have narrow : gpu.globalWorkSize < 8192 := by omega
          obtain ⟨here, kept⟩ := plotChunk_plotted supported pid buffers sn aligned
            (Nat.le_refl gpu.globalWorkSize)
          have advance : 262144 * (base : Int) + toInt32 ((gpu.globalWorkSize : Int) * plotSize) =
              262144 * ((base + gpu.globalWorkSize : Nat) : Int) := by
            rw [size, toInt32_eq (by omega) (by omega)]
            omega
          have left : toInt32 ((total : Int) - gpu.globalWorkSize) =
              ((total - gpu.globalWorkSize : Nat) : Int) := by
            rw [toInt32_eq (by omega) (by omega)]
            omega
          rw [chunk, advance, left]
          obtain ⟨later, untouched⟩ := ih (total - gpu.globalWorkSize)
            (base + gpu.globalWorkSize) (toUInt64 ((sn : Int) + gpu.globalWorkSize))
            (plotChunk gpu pid buffers ⟨sn, gpu.globalWorkSize, 262144 * base⟩) (by omega) (by omega) (.inl narrow) (by omega)
          have firstChunk := here.of_below (by omega) (Nat.le_refl _) untouched
          refine ⟨fun k lane => ?_, fun a below => ?_⟩
          · by_cases first : k < gpu.globalWorkSize
            · exact firstChunk k first
            · have plotted := later (k - gpu.globalWorkSize) (by omega)
              rw [seed_wrap, show sn + gpu.globalWorkSize + (k - gpu.globalWorkSize) = sn + k by omega,
                show base + gpu.globalWorkSize + (k - gpu.globalWorkSize) = base + k by omega]
                at plotted
              exact plotted
          · rw [untouched a (by omega), kept a below]

/-- While the pointer product fits, or there is one chunk, the block of a task
holds its nonces, whatever it held before. -/
theorem hashTask_plotted {gpu : GpuPlotter} (supported : gpu.Supported) (devBuff block : Memory)
    (task : HasherTask) (lower : 0 ≤ task.nonces) (upper : task.nonces < 2147483648)
    (exact : gpu.globalWorkSize < 8192 ∨ task.nonces ≤ gpu.globalWorkSize) :
    LanesPlotted task.pid task.sn 0 task.nonces.toNat (hashTask gpu devBuff block task).2 := by
  have count : ((task.nonces.toNat : Nat) : Int) = task.nonces := Int.toNat_of_nonneg lower
  have plotted := hashChunks_plotted supported task.pid task.nonces.toNat task.nonces.toNat 0
    task.sn (devBuff, block) (Nat.le_refl _) rfl (by omega) (by omega)
  rw [count] at plotted
  exact plotted.1

/-- Then nothing in front of the block changes. -/
theorem hashTask_outside {gpu : GpuPlotter} (supported : gpu.Supported) (devBuff block : Memory)
    (task : HasherTask) (lower : 0 ≤ task.nonces) (upper : task.nonces < 2147483648)
    (exact : gpu.globalWorkSize < 8192 ∨ task.nonces ≤ gpu.globalWorkSize) {a : Int}
    (outside : a < 0) : (hashTask gpu devBuff block task).2 a = block a := by
  have count : ((task.nonces.toNat : Nat) : Int) = task.nonces := Int.toNat_of_nonneg lower
  have plotted := hashChunks_plotted supported task.pid task.nonces.toNat task.nonces.toNat 0
    task.sn (devBuff, block) (Nat.le_refl _) rfl (by omega) (by omega)
  rw [count] at plotted
  exact plotted.2 a (by omega)

/-- From 8192 work items on the `int` product leaves its range, and the host
pointer never moves up: no chunk reaches the bytes behind the first one. -/
private theorem hashChunks_stale {gpu : GpuPlotter} (pid : Nat)
    (wide : 8192 ≤ gpu.globalWorkSize) (narrow : gpu.globalWorkSize ≤ 16384) (fuel : Nat) :
    ∀ (total : Int) (sn : Nat) (hostBuff : Int) (buffers : Memory × Memory),
      total < 2147483648 → ∀ a : Int, hostBuff + 262144 * (gpu.globalWorkSize : Int) ≤ a →
      ((hashChunks gpu.globalWorkSize fuel total sn hostBuff).foldl (plotChunk gpu pid) buffers).2 a =
        buffers.2 a := by
  have size : ((plotSize : Nat) : Int) = 262144 := rfl
  have span : ((gpu.globalWorkSize * plotSize : Nat) : Int) = 262144 * gpu.globalWorkSize := by
    rw [Int.natCast_mul, size, Int.mul_comm]
  have gws : toInt32 gpu.globalWorkSize = gpu.globalWorkSize :=
    toInt32_eq (by omega) (by omega)
  induction fuel with
  | zero => exact fun _ _ _ _ _ _ _ => rfl
  | succ fuel ih =>
      intro total sn hostBuff buffers small a beyond
      rw [hashChunks]
      by_cases more : total > 0
      · rw [if_pos more, gws]
        simp only [List.foldl_cons]
        have untouched : (plotChunk gpu pid buffers
            ⟨sn, min total gpu.globalWorkSize, hostBuff⟩).2 a = buffers.2 a := by
          refine GpuPlotter.plot_outside _ _ _ _ _ fun within => ?_
          rw [span] at within
          exact absurd within.2 (by simp only []; omega)
        by_cases last : total ≤ gpu.globalWorkSize
        · have chunk : min total gpu.globalWorkSize = total := by omega
          have finished : ∀ rest host, hashChunks gpu.globalWorkSize fuel
              (toInt32 (total - total)) rest host = [] := by
            intro rest host
            rw [Int.sub_self, toInt32_eq (by omega) (by omega)]
            cases fuel with
            | zero => rfl
            | succ fuel => rw [hashChunks, if_neg (by omega)]
          rw [chunk] at untouched ⊢
          rw [finished]
          exact untouched
        · have chunk : min total gpu.globalWorkSize = (gpu.globalWorkSize : Int) := by omega
          have back : toInt32 ((gpu.globalWorkSize : Int) * plotSize) ≤ 0 := by
            rw [size]
            unfold toInt32
            omega
          rw [chunk] at untouched ⊢
          rw [ih _ _ _ _ (by rw [toInt32_eq (by omega) (by omega)]; omega) a (by omega), untouched]
      · rw [if_neg more]
        rfl

/-- A task of more than one chunk keeps what its block held behind lane `gws`. -/
theorem hashTask_stale {gpu : GpuPlotter} (wide : 8192 ≤ gpu.globalWorkSize)
    (narrow : gpu.globalWorkSize ≤ 16384) (devBuff block : Memory) (task : HasherTask)
    (upper : task.nonces < 2147483648) {a : Int}
    (beyond : 262144 * (gpu.globalWorkSize : Int) ≤ a) :
    (hashTask gpu devBuff block task).2 a = block a :=
  hashChunks_stale task.pid wide narrow _ _ _ 0 _ upper a (by omega)

/-- With 8192 work items the product is exactly `-2^31`: later chunks end in front
of the block, and the lanes of the first one stay. -/
theorem hashTask_first {gpu : GpuPlotter} (supported : gpu.Supported)
    (wide : gpu.globalWorkSize = 8192) (devBuff block : Memory) (task : HasherTask)
    (longer : 8192 < task.nonces) (upper : task.nonces < 2147483648) :
    LanesPlotted task.pid task.sn 0 8192 (hashTask gpu devBuff block task).2 := by
  have size : ((plotSize : Nat) : Int) = 262144 := rfl
  have gws : toInt32 gpu.globalWorkSize = 8192 := by
    rw [wide]
    rfl
  obtain ⟨fuel, rounds⟩ : ∃ fuel, task.nonces.toNat = fuel + 1 :=
    ⟨task.nonces.toNat - 1, by omega⟩
  have chunks : task.chunks gpu.globalWorkSize = ⟨task.sn, 8192, 0⟩ ::
      hashChunks gpu.globalWorkSize fuel (toInt32 (task.nonces - 8192))
        (toUInt64 ((task.sn : Int) + 8192)) (-2147483648) := by
    unfold HasherTask.chunks
    rw [rounds, hashChunks, if_pos (by omega), gws, size,
      show min task.nonces 8192 = 8192 by omega]
    rfl
  have first : LanesPlotted task.pid task.sn 0 8192
      (plotChunk gpu task.pid (devBuff, block) ⟨task.sn, 8192, 0⟩).2 :=
    (plotChunk_plotted supported task.pid (devBuff, block) task.sn (show 0 % 16 = 0 by decide)
      (show 8192 ≤ gpu.globalWorkSize by omega)).1
  unfold hashTask
  rw [chunks, List.foldl_cons]
  refine fun k lane j bound => (Memory.read32_congr ?_).trans (first k lane j bound)
  intro b lower _
  refine hashChunks_stale task.pid (by omega) (by omega) fuel _ _ _ _
    (by rw [toInt32_eq (by omega) (by omega)]; omega) _ ?_
  rw [wide]
  unfold laneIndex
  omega

end HyperPlotter.Pipeline

import HyperPlotter.Foundation.Tasks
import HyperPlotter.Poc.Kernel

/-!
# The GPU plotter

`gpu_plotter::plot`: the launches of one call, each running every work item
once in an order the device chooses, and the read-back of the whole device
buffer. After the call every lane below `nonces` holds its nonce.
-/

namespace HyperPlotter.Poc

open Foundation

/-- A plotter on a device. `order` is the order in which the work items of the
launch from hash `i` run, `junk` what their unset registers hold. -/
structure GpuPlotter where
  globalWorkSize : Nat
  step : Int
  order : Int → List (Fin globalWorkSize)
  order_perm : ∀ i, (order i).Perm (List.finRange globalWorkSize)
  junk : Digest

namespace GpuPlotter

variable (gpu : GpuPlotter)

/-- `enqueue_1d_range_kernel`: every work item once. -/
def launch (args : KernelArgs) (devBuff : Memory) : Memory :=
  (gpu.order args.first).foldl
    (fun buffer globalId => plottingKernel gpu.junk args buffer globalId.val) devBuff

/-- The arguments of the launch from hash `i`; `end` is `i - step_ - !(i ^ step_)`. -/
def launchArgs (plotId startNonce : BitVec 64) (nonces : Nat) (i : Int) : KernelArgs where
  startnonce := startNonce
  numericIdBe := htonUll plotId
  first := i
  last := toInt32 (toInt32 (i - gpu.step) - if i = gpu.step then 1 else 0)
  nonces := nonces

/-- The loop `for (int i = 8192; i > 0; i -= step_)`. -/
def launchLoop (plotId startNonce : BitVec 64) (nonces : Nat) : Nat → Int → Memory → Memory
  | 0, _, devBuff => devBuff
  | fuel + 1, i, devBuff =>
    if i > 0 then
      launchLoop plotId startNonce nonces fuel (toInt32 (i - gpu.step))
        (gpu.launch (gpu.launchArgs plotId startNonce nonces i) devBuff)
    else devBuff

/-- The launches of one call. `i` takes a positive value at most `2^31` times
before it ends or wraps, whatever nonzero step there is. -/
def compute (devBuff : Memory) (plotId startNonce : BitVec 64) (nonces : Nat) : Memory :=
  gpu.launchLoop plotId startNonce (min nonces gpu.globalWorkSize) 2147483648 8192 devBuff

/-- `gpu_plotter::plot` into `host_buff + des`: the new device buffer and the
new host memory. -/
def plot (devBuff : Memory) (plotId startNonce : BitVec 64) (nonces : Nat) (hostBuff : Memory)
    (des : Int) : Memory × Memory :=
  let devBuff := gpu.compute devBuff plotId startNonce nonces
  (devBuff, hostBuff.copy des devBuff 0 (gpu.globalWorkSize * plotSize))

variable {gpu}

/-- The shape of a device the plotter can use: full vectors of sixteen lanes,
addresses within the kernel's `int`, and launches that end at hash 0. -/
structure Supported (gpu : GpuPlotter) : Prop where
  positive : 0 < gpu.globalWorkSize
  aligned : gpu.globalWorkSize % 16 = 0
  bounded : gpu.globalWorkSize ≤ 32768
  stepPositive : 1 ≤ gpu.step
  stepDivides : gpu.step ∣ 8192

/-- A device that runs its work items in index order. -/
def inOrder (globalWorkSize : Nat) : GpuPlotter where
  globalWorkSize := globalWorkSize
  step := 32
  order _ := List.finRange globalWorkSize
  order_perm _ := List.Perm.refl _
  junk := Vector.replicate 8 0

/-- A device that runs its work items in order, with whole vectors. -/
theorem inOrder_supported {g : Nat} (positive : 0 < g) (aligned : g % 16 = 0)
    (bounded : g ≤ 32768) : (inOrder g).Supported :=
  ⟨positive, aligned, bounded, show (1 : Int) ≤ 32 by decide, show (32 : Int) ∣ 8192 by decide⟩

/-- Work items of one launch do not disturb each other. -/
private theorem launch_independent (supported : gpu.Supported) (args : KernelArgs)
    (plotId : BitVec 64) {c : Nat} (first : args.first = 8192 - c) (count : c ≤ 8192)
    (After : Fin gpu.globalWorkSize → Memory → Prop)
    (establishes : ∀ {k : Fin gpu.globalWorkSize} {buffer : Memory}, (k.val < args.nonces →
      LaneChain (laneSeed plotId args.startnonce k) k c buffer) →
      After k (plottingKernel gpu.junk args buffer k))
    (stable : ∀ {k : Fin gpu.globalWorkSize} {left right : Memory},
      SameLane k.val left right → After k right → After k left) :
    Independent (fun buffer (k : Fin gpu.globalWorkSize) =>
        plottingKernel gpu.junk args buffer k.val)
      (fun k buffer => k.val < args.nonces →
        LaneChain (laneSeed plotId args.startnonce k) k c buffer) After where
  establishes := establishes
  keepsBefore := by
    intro k other buffer differ ready active
    have bound := other.isLt
    have bounded := supported.bounded
    exact (ready active).of_same count (plottingKernel_other (by omega)
      (fun same => differ (Fin.ext same.symm)) first buffer)
  keepsAfter := by
    intro k other buffer differ done
    have bound := other.isLt
    have bounded := supported.bounded
    exact stable (plottingKernel_other (by omega) (fun same => differ (Fin.ext same.symm))
      first buffer) done

/-- A launch runs every work item, in whatever order. -/
private theorem launch_after (supported : gpu.Supported) (args : KernelArgs)
    (plotId : BitVec 64) {c : Nat} (first : args.first = 8192 - c) (count : c ≤ 8192)
    (After : Fin gpu.globalWorkSize → Memory → Prop)
    (establishes : ∀ {k : Fin gpu.globalWorkSize} {buffer : Memory}, (k.val < args.nonces →
      LaneChain (laneSeed plotId args.startnonce k) k c buffer) →
      After k (plottingKernel gpu.junk args buffer k))
    (stable : ∀ {k : Fin gpu.globalWorkSize} {left right : Memory},
      SameLane k.val left right → After k right → After k left) {devBuff : Memory}
    (ready : ∀ k : Nat, k < args.nonces →
      LaneChain (laneSeed plotId args.startnonce k) k c devBuff) (k : Fin gpu.globalWorkSize) :
    After k (gpu.launch args devBuff) := by
  have perm := gpu.order_perm args.first
  have distinct : (gpu.order args.first).Nodup :=
    perm.nodup_iff.mpr (List.nodup_finRange _)
  exact (launch_independent supported args plotId first count After establishes stable).foldl distinct
    (fun other _ active => ready other active) k (perm.mem_iff.mpr (List.mem_finRange k))

/-- A launch that is not the last one appends to the chain of every lane. -/
private theorem launch_chain (supported : gpu.Supported) {plotId startNonce : BitVec 64}
    {nonces c m : Nat} (within : nonces ≤ gpu.globalWorkSize) (step : (m : Int) = gpu.step)
    (count : c + m < 8192) {devBuff : Memory}
    (ready : ∀ k : Nat, k < nonces → LaneChain (laneSeed plotId startNonce k) k c devBuff) :
    ∀ k : Nat, k < nonces → LaneChain (laneSeed plotId startNonce k) k (c + m)
      (gpu.launch (gpu.launchArgs plotId startNonce nonces (8192 - c)) devBuff) := by
  have bounded := supported.bounded
  have last : (gpu.launchArgs plotId startNonce nonces (8192 - c)).last = 8192 - c - m := by
    unfold launchArgs
    rw [← step, if_neg (by omega), Int.sub_zero, toInt32_eq (x := 8192 - c - m) (by omega)
      (by omega), toInt32_eq (by omega) (by omega)]
  have after := launch_after supported (gpu.launchArgs plotId startNonce nonces (8192 - c))
    plotId rfl (by omega) (fun k buffer => k.val < nonces →
      LaneChain (laneSeed plotId startNonce k) k (c + m) buffer)
    (fun {k} {_} held active => plottingKernel_chain rfl (Nat.lt_of_lt_of_le k.isLt bounded)
      active (by omega) rfl last (held active))
    (fun same done active => (done active).of_same (by omega) same) ready
  exact fun k active => after ⟨k, by omega⟩ active

/-- The last launch finishes every lane. -/
private theorem launch_plotted (supported : gpu.Supported) {plotId startNonce : BitVec 64}
    {nonces c : Nat} (within : nonces ≤ gpu.globalWorkSize) (final : (8192 : Int) - c = gpu.step)
    {devBuff : Memory}
    (ready : ∀ k : Nat, k < nonces → LaneChain (laneSeed plotId startNonce k) k c devBuff) :
    ∀ k : Nat, k < nonces → LanePlotted (laneSeed plotId startNonce k) k
      (gpu.launch (gpu.launchArgs plotId startNonce nonces (8192 - c)) devBuff) := by
  have bounded := supported.bounded
  have stepPositive := supported.stepPositive
  have last : (gpu.launchArgs plotId startNonce nonces (8192 - c)).last = -1 := by
    unfold launchArgs
    rw [final, if_pos rfl, Int.sub_self]
    rfl
  have after := launch_after supported (gpu.launchArgs plotId startNonce nonces (8192 - c))
    plotId rfl (by omega) (fun k buffer => k.val < nonces →
      LanePlotted (laneSeed plotId startNonce k) k buffer)
    (fun {k} {_} held active => plottingKernel_plotted rfl (Nat.lt_of_lt_of_le k.isLt bounded)
      active (by omega) rfl last (held active))
    (fun same done active => (done active).of_same same) ready
  exact fun k active => after ⟨k, by omega⟩ active

/-- `rounds + 1` launches from `c` hashes on finish every lane. -/
private theorem launchLoop_plotted (supported : gpu.Supported) {plotId startNonce : BitVec 64}
    {nonces : Nat} (within : nonces ≤ gpu.globalWorkSize) (fuel : Nat) :
    ∀ (c rounds : Nat) {devBuff : Memory}, (8192 : Int) - c = gpu.step * (rounds + 1) →
      rounds < fuel →
      (∀ k : Nat, k < nonces → LaneChain (laneSeed plotId startNonce k) k c devBuff) →
      ∀ k : Nat, k < nonces → LanePlotted (laneSeed plotId startNonce k) k
        (gpu.launchLoop plotId startNonce nonces fuel (8192 - c) devBuff) := by
  have stepPositive := supported.stepPositive
  induction fuel with
  | zero =>
      intro c rounds _ _ enough
      omega
  | succ fuel ih =>
      intro c rounds devBuff remaining enough ready
      rw [Int.mul_add, Int.mul_one] at remaining
      have product : 0 ≤ gpu.step * rounds := Int.mul_nonneg (by omega) (by omega)
      rw [launchLoop, if_pos (by omega), toInt32_eq (by omega) (by omega)]
      cases rounds with
      | zero =>
          have final : (8192 : Int) - c = gpu.step := by omega
          have finished : ∀ buffer, gpu.launchLoop plotId startNonce nonces fuel
              ((8192 : Int) - c - gpu.step) buffer = buffer := by
            intro buffer
            cases fuel with
            | zero => rfl
            | succ fuel => rw [launchLoop, if_neg (by omega)]
          rw [finished]
          exact launch_plotted supported within final ready
      | succ rounds =>
          rw [Int.natCast_succ, Int.mul_add, Int.mul_one] at remaining product
          have earlier : 0 ≤ gpu.step * (rounds : Int) := Int.mul_nonneg (by omega) (by omega)
          have place : (8192 : Int) - c - gpu.step =
              8192 - ((c + gpu.step.toNat : Nat) : Int) := by omega
          rw [place]
          refine ih (c + gpu.step.toNat) rounds ?_ (by omega)
            (launch_chain supported within (by omega) (by omega) ready)
          rw [Int.mul_add, Int.mul_one]
          omega

/-- After the launches of one call every lane below `nonces` holds its nonce,
whatever the device buffer held before. -/
theorem compute_plotted (supported : gpu.Supported) (devBuff : Memory)
    (plotId startNonce : BitVec 64) {nonces k : Nat} (within : nonces ≤ gpu.globalWorkSize)
    (lane : k < nonces) : LanePlotted (laneSeed plotId startNonce k) k
      (gpu.compute devBuff plotId startNonce nonces) := by
  obtain ⟨rounds, total⟩ := supported.stepDivides
  have stepPositive := supported.stepPositive
  have roundsPositive : 1 ≤ rounds := by
    by_contra none
    have := Int.mul_nonneg (show 0 ≤ gpu.step by omega) (show 0 ≤ -rounds by omega)
    rw [Int.mul_neg] at this
    omega
  have roundsBounded : rounds ≤ 8192 := by
    have := Int.mul_le_mul_of_nonneg_right stepPositive (show 0 ≤ rounds by omega)
    omega
  unfold compute
  rw [Nat.min_eq_left within]
  refine launchLoop_plotted supported within 2147483648 0 (rounds - 1).toNat ?_ (by omega)
    (fun other _ j bound => absurd bound (by omega)) k lane
  rw [show (((rounds - 1).toNat : Nat) : Int) + 1 = rounds by omega, ← total]
  rfl

/-- A lane of the device buffer stays within the bytes read back. -/
private theorem laneIndex_lt {g k j : Nat} (aligned : g % 16 = 0) (lane : k < g)
    (bound : j < 65536) : laneIndex k j < 65536 * g := by
  unfold laneIndex
  omega

/-- A lane of the nonces of one call after the read-back to word `d` of the
host memory. -/
theorem read32_plot (supported : gpu.Supported) (devBuff : Memory) (plotId startNonce : BitVec 64)
    {nonces k j : Nat} (hostBuff : Memory) (d : Int) (within : nonces ≤ gpu.globalWorkSize)
    (lane : k < nonces) (bound : j < 65536) :
    (gpu.plot devBuff plotId startNonce nonces hostBuff (4 * d)).2.read32 (d + laneIndex k j) =
      plotWord (laneSeed plotId startNonce k) j := by
  have plotted := compute_plotted supported devBuff plotId startNonce within lane j bound
  have below := laneIndex_lt supported.aligned (Nat.lt_of_lt_of_le lane within) bound
  have above : 0 ≤ laneIndex k j := by
    unfold laneIndex
    omega
  have size : gpu.globalWorkSize * plotSize = 4 * (65536 * gpu.globalWorkSize) := by
    unfold plotSize scoopsPerPlot scoopSize hashesPerScoop hashSize
    omega
  unfold plot
  rw [size]
  refine (Memory.read32_copy hostBuff _ d 0 _ _).trans ?_
  rw [if_pos (by omega), ← plotted]
  exact congrArg _ (by omega)

/-- The read-back overwrites `globalWorkSize` nonces of host memory and no more. -/
theorem plot_outside (devBuff : Memory) (plotId startNonce : BitVec 64) (nonces : Nat)
    (hostBuff : Memory) {des a : Int}
    (outside : ¬(des ≤ a ∧ a < des + ((gpu.globalWorkSize * plotSize : Nat) : Int))) :
    (gpu.plot devBuff plotId startNonce nonces hostBuff des).2 a = hostBuff a :=
  Memory.copy_outside hostBuff _ 0 outside

end GpuPlotter

/-- Gathering a scoop from a finished lane. -/
theorem read32_transposition_plotted {data : Memory} (writeBuff : Memory)
    {plotId nonce : BitVec 64} {nstart n t c w : Nat} (lane : nstart + t < 32768)
    (plotted : LanePlotted (seedWords plotId nonce) (nstart + t : Nat) data) (scoop : c < 4096)
    (inside : t < n) (word : w < 16) :
    (transposition data writeBuff c nstart n).read32 (16 * t + w : Nat) =
      scoopWord plotId nonce c w := by
  rw [read32_transposition _ _ _ _ inside word]
  unfold scoopSource scoopWord
  by_cases first : w < 8
  · rw [if_pos first, if_pos first, addressInt_eq (by omega) (by omega) (by omega) (by omega)
      (by omega) (by omega), ← plotted _ (by omega)]
    exact congrArg (fun j => data.read32 (laneIndex (nstart + t : Nat) j)) (by omega)
  · rw [if_neg first, if_neg first, addressInt_eq (by omega) (by omega) (by omega) (by omega)
      (by omega) (by omega), ← plotted _ (by omega)]
    exact congrArg (fun j => data.read32 (laneIndex (nstart + t : Nat) j)) (by omega)

/-- The bytes of a gathered scoop. -/
theorem transposition_plotted {data : Memory} (writeBuff : Memory) {plotId nonce : BitVec 64}
    {nstart n t c b : Nat} (lane : nstart + t < 32768)
    (plotted : LanePlotted (seedWords plotId nonce) (nstart + t : Nat) data) (scoop : c < 4096)
    (inside : t < n) (byte : b < 64) :
    transposition data writeBuff c nstart n (64 * t + b : Nat) = scoopByte plotId nonce c b := by
  have word := read32_transposition_plotted writeBuff lane plotted scoop inside
    (w := b / 4) (by omega)
  rw [scoopByte, ← word, Memory.byte_read32 _ _ (by omega)]
  exact congrArg _ (by omega)

end HyperPlotter.Poc

import HyperPlotter.Verify.Verifier

/-!
# The windows of the verifier

Which windows the loop of `run_plot_verify` visits, where they lie in the file,
and which nonces are left out between them.
-/

namespace HyperPlotter.Verify

open Foundation Poc Pipeline

/-- The value of `i` in round `k`, as the loop's comparison sees it. -/
def windowStart (v : Verifier) (k : Nat) : Nat :=
  toUInt64 ((k : Int) * (v.gpu.globalWorkSize + toInt32 v.step))

@[simp] theorem windowStart_zero (v : Verifier) : windowStart v 0 = 0 := by
  unfold windowStart toUInt64
  omega

/-- The loop goes from start to start. -/
theorem nextWindow_start (v : Verifier) (k : Nat) :
    nextWindow v (windowStart v k) = windowStart v (k + 1) := by
  have step : ((k + 1 : Nat) : Int) * (v.gpu.globalWorkSize + toInt32 v.step) =
      (k : Int) * (v.gpu.globalWorkSize + toInt32 v.step) +
        (v.gpu.globalWorkSize + toInt32 v.step) := by
    rw [Int.natCast_add, Int.add_mul]
    omega
  unfold nextWindow windowStart
  rw [step]
  generalize (k : Int) * (v.gpu.globalWorkSize + toInt32 v.step) = start
  unfold toUInt64
  omega

/-- Nonce `x` of the file is in a window the loop visits. -/
def Covered (v : Verifier) (nonces x : Nat) : Prop :=
  ∃ k, (∀ j ≤ k, windowStart v j < nonces) ∧ x + windowStart v k < nonces ∧
    nonces ≤ x + windowStart v k + v.gpu.globalWorkSize

variable {v : Verifier} {nonces : Nat}

/-- Where a window lies in the file. -/
theorem windowOffset_eq {gws i : Nat} (before : i < nonces) (small : nonces < 70368744177664)
    (narrow : gws < 67108864) : windowOffset nonces gws i = (nonces - i - gws : Nat) := by
  unfold windowOffset
  rw [toInt64_eq (by omega) (by omega)]
  omega

/-- How many nonces a window has. -/
theorem windowSize_eq {gws i : Nat} (before : i < nonces) (small : nonces < 70368744177664)
    (narrow : gws < 67108864) : windowSize nonces gws i = (min (nonces - i) gws : Nat) := by
  have left : toUInt64 ((nonces : Int) - i) = nonces - i := by
    unfold toUInt64
    omega
  unfold windowSize
  rw [left, toInt64_eq (by omega) (by omega)]

/-- Strides no longer than a window leave nothing out. -/
theorem covered_of_stride (small : nonces < 70368744177664)
    (narrow : v.gpu.globalWorkSize < 67108864) (overlapping : toInt32 v.step ≤ 0)
    (forward : 0 < v.gpu.globalWorkSize + toInt32 v.step) {x : Nat} (inside : x < nonces) :
    Covered v nonces x := by
  obtain ⟨stride, strideEq⟩ : ∃ stride : Nat, (stride : Int) =
      v.gpu.globalWorkSize + toInt32 v.step := ⟨_, Int.toNat_of_nonneg (Int.le_of_lt forward)⟩
  have starts : ∀ j, j * stride < nonces → windowStart v j = j * stride := by
    intro j below
    unfold windowStart toUInt64
    rw [← strideEq, ← Int.natCast_mul]
    omega
  have positive : 0 < stride := by omega
  have lower := Nat.div_mul_le_self (nonces - 1 - x) stride
  have upper := Nat.lt_div_mul_add positive (a := nonces - 1 - x)
  have start := starts ((nonces - 1 - x) / stride) (by omega)
  refine ⟨(nonces - 1 - x) / stride, fun j early => ?_, by omega, by omega⟩
  have before : j * stride ≤ (nonces - 1 - x) / stride * stride := Nat.mul_le_mul_right _ early
  rw [starts j (by omega)]
  omega

/-- Without a step back no start wraps before the loop ends. -/
private theorem windowStart_eq {stride : Nat}
    (strideEq : (v.gpu.globalWorkSize : Int) + toInt32 v.step = stride)
    (narrow : stride < 4294967296) (small : nonces < 70368744177664) {k : Nat}
    (visited : ∀ j < k, windowStart v j < nonces) : windowStart v k = k * stride := by
  induction k with
  | zero => rw [windowStart_zero, Nat.zero_mul]
  | succ k ih =>
      have before := visited k (Nat.lt_succ_self k)
      rw [ih fun j early => visited j (by omega)] at before
      have next : (k + 1) * stride = k * stride + stride := Nat.succ_mul k stride
      unfold windowStart toUInt64
      rw [strideEq, ← Int.natCast_mul]
      omega

/-- Which nonces are visited, when the loop never goes back. -/
theorem covered_iff {stride : Nat}
    (strideEq : (v.gpu.globalWorkSize : Int) + toInt32 v.step = stride)
    (narrow : stride < 4294967296) (small : nonces < 70368744177664)
    (positive : 0 < v.gpu.globalWorkSize) (forward : v.gpu.globalWorkSize ≤ stride) {x : Nat} :
    Covered v nonces x ↔
      x < nonces ∧ (nonces - 1 - x) % stride < v.gpu.globalWorkSize := by
  constructor
  · rintro ⟨k, visited, upper, lower⟩
    rw [windowStart_eq strideEq narrow small fun j early => visited j (by omega)] at upper lower
    refine ⟨by omega, ?_⟩
    rw [show nonces - 1 - x = nonces - 1 - x - k * stride + stride * k by
      rw [Nat.mul_comm stride k]
      omega, Nat.add_mul_mod_self_left, Nat.mod_eq_of_lt (by omega)]
    omega
  · rintro ⟨inside, here⟩
    have split := Nat.div_add_mod (nonces - 1 - x) stride
    rw [Nat.mul_comm] at split
    have starts : ∀ j, j ≤ (nonces - 1 - x) / stride → windowStart v j = j * stride ∧
        j * stride < nonces := by
      intro j early
      have before : j * stride ≤ (nonces - 1 - x) / stride * stride := Nat.mul_le_mul_right _ early
      refine ⟨?_, by omega⟩
      unfold windowStart toUInt64
      rw [strideEq, ← Int.natCast_mul]
      omega
    have start := starts _ (Nat.le_refl _)
    refine ⟨(nonces - 1 - x) / stride, fun j early => ?_, by omega, by omega⟩
    have earlier := starts j early
    omega

/-- The file offset of a scoop of a window. -/
theorem scoop_offset {off c : Nat} (scoop : c < 4096) (inside : off < nonces)
    (small : nonces < 70368744177664) :
    toUInt64 ((toUInt64 ((off : Int) + (c : Int) * nonces) : Int) * 64) =
      (c * nonces + off) * 64 := by
  have rows : c * nonces ≤ 4095 * nonces := Nat.mul_le_mul_right _ (by omega)
  rw [← Int.natCast_mul]
  unfold toUInt64
  omega

/-- The lanes of the host buffer after a call. -/
theorem plot_lane {gpu : GpuPlotter} (supported : gpu.Supported) (devBuff hostBuff : Memory)
    (plotId : BitVec 64) (first : Nat) {n t : Nat} (within : n ≤ gpu.globalWorkSize) (lane : t < n) :
    LanePlotted (seedWords plotId (BitVec.ofNat 64 (first + t))) (t : Nat)
      (gpu.plot devBuff plotId (BitVec.ofNat 64 first) n hostBuff 0).2 := by
  intro j bound
  have word := GpuPlotter.read32_plot supported devBuff plotId (BitVec.ofNat 64 first) hostBuff 0
    within lane bound
  rw [Int.mul_zero, Int.zero_add] at word
  rw [word]
  unfold laneSeed
  rw [← BitVec.ofNat_add]

/-! ## The name -/

/-- The name is read as that of a plot file. -/
def ReadsAs (name : Text) (plotId startNonce nonces : Nat) : Prop :=
  ∃ first second third, split name '_' = [first, second, third] ∧ stoull first = some plotId ∧
    stoull second = some startNonce ∧ stoll third = some (nonces : Int)

/-- The numbers a stream wrote are read back. -/
theorem readsAs_plotName {plotId startNonce nonces : Nat} (pid : plotId < 18446744073709551616)
    (sn : startNonce < 18446744073709551616) (count : nonces < 9223372036854775808) :
    ReadsAs (plotName plotId startNonce nonces) plotId startNonce nonces :=
  ⟨_, _, _, split_plotName plotId startNonce nonces, stoull_decimal pid, stoull_decimal sn,
    stoll_decimal count⟩

end HyperPlotter.Verify

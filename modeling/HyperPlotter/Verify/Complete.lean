import HyperPlotter.Verify.Windows

/-!
# Which files are accepted

A file that holds the plot wherever a window is visited is reported `GOOD!` when
no file operation fails, and every read stays within the file and the buffers.
-/

namespace HyperPlotter.Verify

open Foundation Poc Pipeline

variable {v : Verifier} {entry : FileEntry} {plotId startNonce nonces : Nat}

/-- No file operation fails. -/
structure Verifier.Smooth (v : Verifier) : Prop where
  opens : v.opens = true
  succeeds : ∀ i, v.succeeds i = true

/-- A read of at most `gws` nonces of one scoop, within the file. -/
def InFile (nonces gws : Nat) (read : Nat × Nat) : Prop :=
  ∃ n, 0 < n ∧ n ≤ gws ∧ read.2 = 64 * n ∧ read.1 + read.2 ≤ nonces * 262144

/-- Scoop `c` of nonce `x` of the file is that of the plot. -/
def Stored (entry : FileEntry) (plotId startNonce nonces x : Nat) : Prop :=
  ∀ c b : Nat, c < 4096 → b < 64 → entry.bytes ((c * nonces + x) * 64 + b : Nat) =
    scoopByte (BitVec.ofNat 64 plotId) (BitVec.ofNat 64 (startNonce + x)) c b

section Scoops

variable {off n : Nat}

/-- The host buffer holds the nonces of the window. -/
def Plotted (plotId startNonce off n : Nat) (s : VerifyState) : Prop :=
  ∀ t : Nat, t < n → LanePlotted (seedWords (BitVec.ofNat 64 plotId)
    (BitVec.ofNat 64 (startNonce + (off + t)))) t s.hasherBuffer

/-- A scoop of stored nonces passes. -/
private theorem verifyScoop_passes (smooth : v.Smooth) (size : entry.size = nonces * 262144)
    (small : nonces < 35184372088832) (positive : 0 < n) (narrow : n ≤ 32768)
    (inside : off + n ≤ nonces) (stored : ∀ t, t < n →
      Stored entry plotId startNonce nonces (off + t)) {c : Nat} (scoop : c < 4096) {s : VerifyState}
    (plotted : Plotted plotId startNonce off n s) :
    ∃ t, verifyScoop v entry startNonce nonces off n c s = (none, t) ∧
      Plotted plotId startNonce off n t ∧ t.reads = s.reads ++ [((c * nonces + off) * 64, 64 * n)] := by
  have rows : c * nonces ≤ 4095 * nonces := Nat.mul_le_mul_right _ (by omega)
  have bytes : toUInt64 (64 * (n : Int)) = 64 * n := by
    unfold toUInt64
    omega
  have count : 64 * n % 4294967296 = 64 * n := Nat.mod_eq_of_lt (by omega)
  have chunk : toInt32 (n : Int) = n := toInt32_eq (by omega) (by omega)
  have reachable : (c * nonces + off) * 64 < 9223372036854775808 := by omega
  have within : (c * nonces + off) * 64 + 64 * n ≤ entry.size := by omega
  have equal : ∀ a : Nat, a < 64 * n → transposition s.hasherBuffer s.hasherCache c 0 n a =
      s.fileCache.copy 0 entry.bytes ((c * nonces + off) * 64 : Nat) (64 * n) a := by
    intro a below
    have lane := plotted (a / 64) (by omega)
    rw [← Nat.zero_add (a / 64)] at lane
    have gathered := transposition_plotted s.hasherCache (show 0 + a / 64 < 32768 by omega) lane
      scoop (show a / 64 < n by omega) (Nat.mod_lt a (show 0 < 64 by omega))
    rw [Nat.zero_add, Nat.div_add_mod] at gathered
    rw [Memory.copy_inside _ _ _ (by omega)]
    have held := stored (a / 64) (by omega) c (a % 64) scoop (by omega)
    refine gathered.trans (held.symm.trans (congrArg _ ?_))
    omega
  unfold verifyScoop
  simp only [scoop_offset scoop (show off < nonces by omega) (Nat.lt_trans small (by decide)), bytes, count, chunk,
    smooth.succeeds, Bool.true_and, decide_eq_true reachable, decide_eq_true within, Bool.not_true,
    Bool.or_self, Bool.false_eq_true, if_false]
  rw [if_pos equal]
  exact ⟨_, rfl, plotted, rfl⟩

/-- The scoops of a window of stored nonces pass. -/
private theorem verifyScoops_pass (smooth : v.Smooth) (size : entry.size = nonces * 262144)
    (small : nonces < 35184372088832) (positive : 0 < n) (narrow : n ≤ 32768)
    (inside : off + n ≤ nonces) (stored : ∀ t, t < n →
      Stored entry plotId startNonce nonces (off + t)) {gws : Nat} (fits : n ≤ gws) (rest : Nat) :
    ∀ (c : Nat) (s : VerifyState), c + rest ≤ 4096 → Plotted plotId startNonce off n s →
      (∀ read ∈ s.reads, InFile nonces gws read) →
      ∃ t, verifyScoops v entry startNonce nonces off n rest c s = (none, t) ∧
        ∀ read ∈ t.reads, InFile nonces gws read := by
  induction rest with
  | zero => exact fun c s _ _ reads => ⟨s, rfl, reads⟩
  | succ rest ih =>
      intro c s count plotted reads
      obtain ⟨t, passes, still, read⟩ := verifyScoop_passes smooth size small positive narrow inside
        stored (show c < 4096 by omega) plotted
      have here : InFile nonces gws ((c * nonces + off) * 64, 64 * n) := by
        have rows : c * nonces ≤ 4095 * nonces := Nat.mul_le_mul_right _ (by omega)
        exact ⟨n, positive, fits, rfl, by omega⟩
      rw [verifyScoops, passes]
      refine ih (c + 1) t (by omega) still fun other member => ?_
      rw [read] at member
      rcases List.mem_append.mp member with old | new
      · exact reads other old
      · rw [List.mem_singleton.mp new]
        exact here

end Scoops

/-- A window of stored nonces passes. -/
private theorem verifyWindow_passes (supported : v.gpu.Supported) (smooth : v.Smooth)
    (size : entry.size = nonces * 262144) (small : nonces < 35184372088832) {i : Nat}
    (before : i < nonces) (stored : ∀ x, x + i < nonces →
      nonces ≤ x + i + v.gpu.globalWorkSize → Stored entry plotId startNonce nonces x)
    {s : VerifyState} (reads : ∀ read ∈ s.reads, InFile nonces v.gpu.globalWorkSize read) :
    ∃ t, verifyWindow v entry plotId startNonce nonces i s = (none, t) ∧
      ∀ read ∈ t.reads, InFile nonces v.gpu.globalWorkSize read := by
  have bounded := supported.bounded
  have positive := supported.positive
  unfold verifyWindow
  rw [windowOffset_eq before (by omega) (by omega), windowSize_eq before (by omega) (by omega)]
  generalize offEq : nonces - i - v.gpu.globalWorkSize = off
  generalize sizeEq : min (nonces - i) v.gpu.globalWorkSize = n
  have count : toUInt64 (n : Int) = n := toUInt64_natCast (by omega)
  simp only [count]
  refine verifyScoops_pass smooth size small (by omega) (by omega) (by omega) (fun t lane =>
    stored (off + t) (by omega) (by omega)) (by omega) scoopsPerPlot 0 _ (Nat.le_refl _) ?_ reads
  intro t lane
  have plotted := plot_lane supported s.devBuff s.hasherBuffer (BitVec.ofNat 64 plotId)
    (toUInt64 (startNonce + off)) (show n ≤ v.gpu.globalWorkSize by omega) lane
  have nonce : BitVec.ofNat 64 (toUInt64 ((startNonce : Int) + off) + t) =
      BitVec.ofNat 64 (startNonce + (off + t)) := by
    refine BitVec.eq_of_toNat_eq ?_
    rw [BitVec.toNat_ofNat, BitVec.toNat_ofNat]
    unfold toUInt64
    omega
  rw [nonce] at plotted
  exact plotted

/-- The loop from round `k` on, when it never goes back. -/
private theorem verifyLoop_good (supported : v.gpu.Supported) (smooth : v.Smooth)
    (forward : 0 ≤ toInt32 v.step) (size : entry.size = nonces * 262144)
    (small : nonces < 35184372088832) (stored : ∀ x, Covered v nonces x →
      Stored entry plotId startNonce nonces x) (rounds : Nat) :
    ∀ (k : Nat) (s : VerifyState), 0 < rounds → nonces < windowStart v k + rounds →
      (∀ j, j < k → windowStart v j < nonces) →
      (∀ read ∈ s.reads, InFile nonces v.gpu.globalWorkSize read) →
      ∃ t, verifyLoop v entry plotId startNonce nonces rounds (windowStart v k) s = (.good, t) ∧
        ∀ read ∈ t.reads, InFile nonces v.gpu.globalWorkSize read := by
  have positive := supported.positive
  have bounded := supported.bounded
  have stride : toInt32 v.step < 2147483648 := by
    unfold toInt32
    omega
  induction rounds with
  | zero => exact fun _ _ some_rounds => absurd some_rounds (Nat.lt_irrefl 0)
  | succ rounds ih =>
      intro k s _ enough visited reads
      rw [verifyLoop]
      by_cases before : windowStart v k < nonces
      · have upTo : ∀ j ≤ k, windowStart v j < nonces := by
          intro j early
          by_cases same : j = k
          · rwa [same]
          · exact visited j (by omega)
        obtain ⟨t, passes, inFile⟩ := verifyWindow_passes supported smooth size small before
          (fun x upper lower => stored x ⟨k, upTo, upper, lower⟩) reads
        have next : (windowStart v (k + 1) : Int) =
            windowStart v k + (v.gpu.globalWorkSize + toInt32 v.step) := by
          rw [← nextWindow_start]
          unfold nextWindow toUInt64
          omega
        rw [if_pos before, passes, nextWindow_start]
        exact ih (k + 1) t (by omega) (by omega) (fun j early => upTo j (by omega)) inFile
      · rw [if_neg before]
        exact ⟨s, rfl, reads⟩

/-- A file of an even number of nonces that holds the plot in every window visited
is reported `GOOD!`, and every read is in the file and fits the buffers. -/
theorem runPlotVerify_good (supported : v.gpu.Supported) (smooth : v.Smooth)
    (forward : 0 ≤ toInt32 v.step) {name : Text} (reads : ReadsAs name plotId startNonce nonces)
    (even : nonces % 2 = 0) (size : entry.size = nonces * 262144)
    (small : nonces < 35184372088832) (stored : ∀ x, Covered v nonces x →
      Stored entry plotId startNonce nonces x) :
    ∃ t, runPlotVerify v name (some entry) (nonces + 1) = (.good, t) ∧
      ∀ read ∈ t.reads, InFile nonces v.gpu.globalWorkSize read := by
  obtain ⟨first, second, third, pieces, readId, readStart, readTotal⟩ := reads
  have count : entry.size / 256 / 1024 = nonces := by omega
  have total : toUInt64 (nonces : Int) = nonces := toUInt64_natCast (by omega)
  have whole : toUInt64 ((nonces * 256 * 1024 : Nat) : Int) = entry.size := by
    unfold toUInt64
    omega
  have mask : nonces &&& (decide (7 ≠ nonces)).toNat = 0 := by
    rw [decide_eq_true (show 7 ≠ nonces by omega), Bool.toNat_true, Nat.and_one_is_mod, even]
  have accepted : ¬(nonces ≠ toUInt64 (nonces : Int) ∨
      nonces &&& (decide (7 ≠ nonces)).toNat ≠ 0 ∨
      toUInt64 ((nonces * 256 * 1024 : Nat) : Int) ≠ entry.size) := by
    rintro (other | odd | other)
    · exact other total.symm
    · exact odd mask
    · exact other whole
  obtain ⟨t, good, inFile⟩ := verifyLoop_good supported smooth forward size small stored
    (nonces + 1) 0 v.start (by omega) (by omega) (fun j none => absurd none (Nat.not_lt_zero j))
    (List.forall_mem_nil _)
  rw [windowStart_zero] at good
  refine ⟨t, ?_, inFile⟩
  unfold runPlotVerify
  simp only [pieces, readId, readStart, readTotal, smooth.opens, if_true]
  unfold verifyFile
  simp only [count]
  rw [if_neg accepted, good]

end HyperPlotter.Verify

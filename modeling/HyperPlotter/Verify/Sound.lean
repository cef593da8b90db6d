import HyperPlotter.Verify.Complete

/-!
# What a verified file holds

When `run_plot_verify` reports `GOOD!` every nonce of every window it visited is
in the file as the plotter computes it. The windows leave `step` nonces out
between them, so the file is only covered where the stride is not longer than a
window.
-/

namespace HyperPlotter.Verify

open Foundation Poc Pipeline

variable {v : Verifier} {entry : FileEntry} {plotId startNonce nonces : Nat}

/-! ## Recomputed bytes -/

/-- A byte of scoop `c` of a nonce as the plotter computes it: the nonce is number
`t` of a call for `n` nonces. -/
def Recomputed (gpu : GpuPlotter) (plotId nonce c b : Nat) (byte : Byte) : Prop :=
  ∃ (devBuff hostBuff cache : Memory) (first n t : Nat), t < n ∧ n ≤ gpu.globalWorkSize ∧
    BitVec.ofNat 64 (first + t) = BitVec.ofNat 64 nonce ∧
    byte = transposition (gpu.plot devBuff (BitVec.ofNat 64 plotId) (BitVec.ofNat 64 first) n
      hostBuff 0).2 cache c 0 n (64 * t + b : Nat)

/-- On a supported device the plotter computes the plot. -/
theorem Recomputed.eq {gpu : GpuPlotter} (supported : gpu.Supported) {nonce c b : Nat}
    {byte : Byte} (recomputed : Recomputed gpu plotId nonce c b byte) (scoop : c < 4096)
    (small : b < 64) : byte = scoopByte (BitVec.ofNat 64 plotId) (BitVec.ofNat 64 nonce) c b := by
  obtain ⟨devBuff, hostBuff, cache, first, n, t, lane, within, same, rfl⟩ := recomputed
  have bounded := supported.bounded
  have plotted := plot_lane supported devBuff hostBuff (BitVec.ofNat 64 plotId) first
    within lane
  rw [same, ← Nat.zero_add t] at plotted
  exact transposition_plotted cache (show 0 + t < 32768 by omega) plotted scoop lane small

/-! ## What a round shows -/

/-- The nonces of the window at `i` are in the file as the plotter computes them. -/
def WindowHolds (v : Verifier) (entry : FileEntry) (plotId startNonce nonces i : Nat) : Prop :=
  ∀ x c b : Nat, x + i < nonces → nonces ≤ x + i + v.gpu.globalWorkSize → c < 4096 → b < 64 →
    Recomputed v.gpu plotId (startNonce + x) c b (entry.bytes ((c * nonces + x) * 64 + b : Nat))

/-- A scoop that raises no objection is the one gathered from the plotted nonces. -/
private theorem verifyScoop_sound {off n c : Nat} {s t : VerifyState} (scoop : c < 4096)
    (inside : off < nonces) (small : nonces < 70368744177664) (narrow : n < 67108864)
    (passed : verifyScoop v entry startNonce nonces off n c s = (none, t)) :
    t.hasherBuffer = s.hasherBuffer ∧ t.devBuff = s.devBuff ∧
      ∀ a : Nat, a < 64 * n → entry.bytes ((c * nonces + off) * 64 + a : Nat) =
        transposition s.hasherBuffer s.hasherCache c 0 n a := by
  have bytes : toUInt64 (64 * (n : Int)) = 64 * n := by
    unfold toUInt64
    omega
  have count : 64 * n % 4294967296 = 64 * n := Nat.mod_eq_of_lt (by omega)
  have size : toInt32 (n : Int) = n := toInt32_eq (by omega) (by omega)
  unfold verifyScoop at passed
  simp only [scoop_offset scoop inside small, bytes, count, size] at passed
  split at passed
  · cases passed
  · split at passed
    · rename_i same
      obtain rfl := (Prod.mk.inj passed).2
      refine ⟨rfl, rfl, fun a below => ?_⟩
      have equal := same a below
      rw [Memory.copy_inside _ _ _ (by omega)] at equal
      rw [equal]
      exact congrArg _ (by omega)
    · cases passed

/-- The scoops of a window. -/
private theorem verifyScoops_sound {off n : Nat} (inside : off < nonces)
    (small : nonces < 70368744177664) (narrow : n < 67108864) (rest : Nat) :
    ∀ (c : Nat) (s t : VerifyState), c + rest ≤ 4096 →
      verifyScoops v entry startNonce nonces off n rest c s = (none, t) →
      ∀ c', c ≤ c' → c' < c + rest → ∃ cache, ∀ a : Nat, a < 64 * n →
        entry.bytes ((c' * nonces + off) * 64 + a : Nat) =
          transposition s.hasherBuffer cache c' 0 n a := by
  induction rest with
  | zero =>
      intro c s t _ _ c' lower upper
      omega
  | succ rest ih =>
      intro c s t count passed c' lower upper
      rw [verifyScoops] at passed
      split at passed
      · rename_i u here
        obtain ⟨buffer, _, equal⟩ := verifyScoop_sound (by omega) inside small narrow here
        by_cases same : c' = c
        · subst same
          exact ⟨s.hasherCache, equal⟩
        · rw [← buffer]
          exact ih (c + 1) u t (by omega) passed c' (by omega) (by omega)
      · rename_i objection
        exact absurd passed (objection t)

/-- A window that raises no objection holds what the plotter computes. -/
private theorem verifyWindow_sound {i : Nat} {s t : VerifyState} (before : i < nonces)
    (small : nonces < 70368744177664) (narrow : v.gpu.globalWorkSize < 67108864)
    (passed : verifyWindow v entry plotId startNonce nonces i s = (none, t)) :
    WindowHolds v entry plotId startNonce nonces i := by
  intro x c b upper lower scoop byte
  unfold verifyWindow at passed
  rw [windowOffset_eq before small narrow, windowSize_eq before small narrow] at passed
  generalize offEq : nonces - i - v.gpu.globalWorkSize = off at passed
  generalize sizeEq : min (nonces - i) v.gpu.globalWorkSize = n at passed
  have positive : 0 < n := by omega
  have count : toUInt64 (n : Int) = n := toUInt64_natCast (by omega)
  simp only [count] at passed
  obtain ⟨cache, equal⟩ := verifyScoops_sound (by omega) small (by omega) scoopsPerPlot 0 _ t
    (Nat.le_refl _) passed c (Nat.zero_le _) (by rw [Nat.zero_add]; exact scoop)
  refine ⟨s.devBuff, s.hasherBuffer, cache, toUInt64 (startNonce + off), n, x - off, by omega,
    by omega, ?_, ?_⟩
  · refine BitVec.eq_of_toNat_eq ?_
    rw [BitVec.toNat_ofNat, BitVec.toNat_ofNat]
    unfold toUInt64
    omega
  · rw [← equal (64 * (x - off) + b) (by omega)]
    exact congrArg _ (by omega)

/-- A window never ends the loop with the good verdict. -/
private theorem verifyScoops_ne_good (off n : Int) (rest : Nat) : ∀ (c : Nat) (s : VerifyState),
    (verifyScoops v entry startNonce nonces off n rest c s).1 ≠ some .good := by
  induction rest with
  | zero =>
      intro c s good
      cases good
  | succ rest ih =>
      intro c s
      rw [verifyScoops]
      split
      · exact ih _ _
      · intro good
        unfold verifyScoop at good
        simp only [] at good
        split at good
        · cases good
        · split at good
          · cases good
          · cases good

/-- The loop, from round `k` on. -/
private theorem verifyLoop_sound (small : nonces < 70368744177664)
    (narrow : v.gpu.globalWorkSize < 67108864) (rounds : Nat) : ∀ (k : Nat) (s : VerifyState),
      (verifyLoop v entry plotId startNonce nonces rounds (windowStart v k) s).1 = .good →
      ∀ m, k ≤ m → (∀ j, k ≤ j → j ≤ m → windowStart v j < nonces) →
        WindowHolds v entry plotId startNonce nonces (windowStart v m) := by
  induction rounds with
  | zero =>
      intro k s good
      cases good
  | succ rounds ih =>
      intro k s good m later visited
      have here : windowStart v k < nonces := visited k (Nat.le_refl k) later
      rw [verifyLoop, if_pos here] at good
      split at good
      · rename_i t passed
        by_cases same : m = k
        · subst same
          exact verifyWindow_sound here small narrow passed
        · rw [nextWindow_start] at good
          exact ih (k + 1) t good m (by omega) fun j first => visited j (by omega)
      · rename_i verdict t objection
        obtain rfl : verdict = .good := good
        exact absurd (congrArg Prod.fst objection) (verifyScoops_ne_good _ _ _ _ _)

/-! ## The whole file -/

/-- The size that is accepted is exactly that of the name's nonces. -/
private theorem size_of_check {size : Nat} {total : Int} (lower : -9223372036854775808 ≤ total)
    (upper : total ≤ 9223372036854775807) (count : size / 256 / 1024 = toUInt64 total)
    (exact : toUInt64 ((size / 256 / 1024 * 256 * 1024 : Nat) : Int) = size) :
    total = (size / 256 / 1024 : Nat) ∧ size = size / 256 / 1024 * 262144 ∧
      size / 256 / 1024 < 70368744177664 := by
  unfold toUInt64 at count exact
  omega

/-- A file is accepted with the nonces of its size, all windows recomputed. -/
theorem verifyFile_sound {total : Int} {rounds : Nat} (narrow : v.gpu.globalWorkSize < 67108864)
    (lower : -9223372036854775808 ≤ total) (upper : total ≤ 9223372036854775807)
    (good : (verifyFile v entry plotId startNonce total rounds v.start).1 = .good) :
    total = (entry.size / 256 / 1024 : Nat) ∧ entry.size = entry.size / 256 / 1024 * 262144 ∧
      entry.size / 256 / 1024 < 70368744177664 ∧
      ∀ x, Covered v (entry.size / 256 / 1024) x → ∀ c b : Nat, c < 4096 → b < 64 →
        Recomputed v.gpu plotId (startNonce + x) c b
          (entry.bytes ((c * (entry.size / 256 / 1024) + x) * 64 + b : Nat)) := by
  unfold verifyFile at good
  simp only [] at good
  split at good
  · cases good
  · rename_i accepted
    obtain ⟨count, _, exact⟩ := by simpa only [not_or, not_not] using accepted
    obtain ⟨same, size, small⟩ := size_of_check lower upper count exact
    refine ⟨same, size, small, ?_⟩
    rintro x ⟨k, visited, upper, lower⟩ c b scoop byte
    rw [← windowStart_zero v] at good
    exact verifyLoop_sound small narrow rounds 0 v.start good k (Nat.zero_le k)
      (fun j _ early => visited j early) x c b upper lower scoop byte

/-- What a report `GOOD!` says of a file: its name gives the number of its nonces,
and every nonce of a window is in it as the plotter computes it. With a stride
not longer than a window that is every nonce. With a longer one the `step` nonces
between two windows are in none. -/
structure VerifiedAs (v : Verifier) (name : Text) (entry : FileEntry)
    (plotId startNonce nonces : Nat) : Prop where
  named : ReadsAs name plotId startNonce nonces
  size : entry.size = nonces * 262144
  recomputed : ∀ x, Covered v nonces x → ∀ c b : Nat, c < 4096 → b < 64 →
    Recomputed v.gpu plotId (startNonce + x) c b (entry.bytes ((c * nonces + x) * 64 + b : Nat))
  stored : v.gpu.Supported → ∀ x, Covered v nonces x → Stored entry plotId startNonce nonces x
  all : toInt32 v.step ≤ 0 → 0 < v.gpu.globalWorkSize + toInt32 v.step →
    ∀ x, x < nonces → Covered v nonces x
  between : 0 ≤ toInt32 v.step → 0 < v.gpu.globalWorkSize → ∀ x, Covered v nonces x ↔
    x < nonces ∧ (nonces - 1 - x) % (v.gpu.globalWorkSize + (toInt32 v.step).toNat) <
      v.gpu.globalWorkSize

/-- A file reported `GOOD!` is verified in every window that was visited. -/
theorem good_verified {name : Text} {rounds : Nat} (narrow : v.gpu.globalWorkSize < 67108864)
    (good : (runPlotVerify v name (some entry) rounds).1 = .good) :
    ∃ plotId startNonce nonces, VerifiedAs v name entry plotId startNonce nonces := by
  unfold runPlotVerify at good
  split at good
  · rename_i file first second third exists_ pieces
    obtain rfl := Option.some.inj exists_
    split at good
    · rename_i plotId startNonce total readId readStart readTotal
      split at good
      · obtain ⟨lower, upper⟩ := stoll_range readTotal
        obtain ⟨rfl, size, small, recomputed⟩ := verifyFile_sound narrow lower upper good
        refine ⟨plotId, startNonce, entry.size / 256 / 1024,
          ⟨first, second, third, pieces, readId, readStart, readTotal⟩, size, recomputed, ?_, ?_,
          ?_⟩
        · exact fun supported x covered c b scoop byte =>
            (recomputed x covered c b scoop byte).eq supported scoop byte
        · exact fun overlapping forward x inside =>
            covered_of_stride small narrow overlapping forward inside
        · intro forward positive x
          have upper : toInt32 v.step < 2147483648 := by
            unfold toInt32
            omega
          exact covered_iff (by omega) (by omega) small positive (Nat.le_add_right ..)
      · cases good
    · cases good
  · cases good

/-! ## A stride that leaves nonces out -/

/-- Sixteen work items and a `step` of 32. -/
def sampling : Verifier where
  gpu := .inOrder 16
  step := 32
  stepped := rfl
  devBuff _ := 0
  hasherBuffer _ := 0
  fileCache _ := 0
  hasherCache _ := 0
  opens := true
  succeeds _ := true

/-- Sampling looks at the upper half of 32 nonces. -/
private theorem covered_sampling {x : Nat} (covered : Covered sampling 32 x) : 16 ≤ x := by
  obtain ⟨k, visited, upper, lower⟩ := covered
  cases k with
  | zero =>
      have size : sampling.gpu.globalWorkSize = 16 := rfl
      rw [windowStart_zero, size] at lower
      omega
  | succ k => exact absurd (visited 1 (by omega)) (by decide)

/-- The file `1_0_32` with the lower half of its nonces damaged. -/
def halfDamaged : FileEntry where
  size := 32 * 262144
  bytes a :=
    let x := a.toNat / 64 % 32
    let byte := scoopByte (BitVec.ofNat 64 1) (BitVec.ofNat 64 (0 + x)) (a.toNat / 64 / 32)
      (a.toNat % 64)
    if x < 16 then byte + 1 else byte

private theorem halfDamaged_bytes {c x b : Nat} (inside : x < 32) (byte : b < 64) :
    halfDamaged.bytes ((c * 32 + x) * 64 + b : Nat) =
      if x < 16 then scoopByte (BitVec.ofNat 64 1) (BitVec.ofNat 64 (0 + x)) c b + 1
      else scoopByte (BitVec.ofNat 64 1) (BitVec.ofNat 64 (0 + x)) c b := by
  have nonce : (((c * 32 + x) * 64 + b : Nat) : Int).toNat / 64 % 32 = x := by omega
  have scoop : (((c * 32 + x) * 64 + b : Nat) : Int).toNat / 64 / 32 = c := by omega
  have offset : (((c * 32 + x) * 64 + b : Nat) : Int).toNat % 64 = b := by omega
  unfold halfDamaged
  simp only [nonce, scoop, offset]

/-- The verifier is content with the upper half. -/
private theorem halfDamaged_good :
    (runPlotVerify sampling (plotName 1 0 32) (some halfDamaged) 33).1 = .good := by
  have supported : sampling.gpu.Supported :=
    GpuPlotter.inOrder_supported (by decide) (by decide) (by decide)
  have reads : ReadsAs (plotName 1 0 32) 1 0 32 :=
    readsAs_plotName (by decide) (by decide) (by decide)
  obtain ⟨t, good, _⟩ := runPlotVerify_good supported
    ⟨rfl, fun _ => rfl⟩ (by decide) reads (by decide) rfl (by decide)
    fun x covered c b _ byte => by
      have upper := covered_sampling covered
      obtain ⟨_, _, below, _⟩ := covered
      rw [halfDamaged_bytes (by omega) byte, if_neg (by omega)]
  rw [good]

/-- A file that is damaged where the sampling does not look. -/
theorem good_verified_sampling : ∃ plotId startNonce nonces,
    VerifiedAs sampling (plotName 1 0 32) halfDamaged plotId startNonce nonces :=
  good_verified (by decide) halfDamaged_good

/-- A file can be reported `GOOD!` with a nonce that is not what the plotter
computes. -/
theorem not_recomputed_sampling :
    (runPlotVerify sampling (plotName 1 0 32) (some halfDamaged) 33).1 = .good ∧
      ¬Recomputed sampling.gpu 1 (0 + 0) 0 0 (halfDamaged.bytes ((0 * 32 + 0) * 64 + 0 : Nat)) := by
  refine ⟨halfDamaged_good, fun recomputed => ?_⟩
  have plotted := recomputed.eq
    (GpuPlotter.inOrder_supported (by decide) (by decide) (by decide)) (by decide) (by decide)
  rw [halfDamaged_bytes (by decide) (by decide), if_pos (by decide)] at plotted
  generalize scoopByte (BitVec.ofNat 64 1) (BitVec.ofNat 64 (0 + 0)) 0 0 = byte at plotted
  revert byte
  decide

end HyperPlotter.Verify

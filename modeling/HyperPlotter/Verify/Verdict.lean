import HyperPlotter.Verify.Sound

/-!
# What the verifier reports

On a file of the size of its name the verifier reports `GOOD!`, or the first scoop of
the first window, in the order it reads them, that is not what the plotter computes.
-/

namespace HyperPlotter.Verify

open Foundation Poc Pipeline

variable {v : Verifier} {entry : FileEntry} {plotId startNonce nonces : Nat}

/-- Scoop `c` of the nonces `off` to `off + n` of the file is that of the plot. -/
def ScoopHolds (entry : FileEntry) (plotId startNonce nonces off n c : Nat) : Prop :=
  ∀ t b : Nat, t < n → b < 64 → entry.bytes ((c * nonces + (off + t)) * 64 + b : Nat) =
    scoopByte (BitVec.ofNat 64 plotId) (BitVec.ofNat 64 (startNonce + (off + t))) c b

/-- The first nonce of the window of round `k`. -/
def windowFirst (v : Verifier) (nonces k : Nat) : Nat :=
  nonces - windowStart v k - v.gpu.globalWorkSize

/-- The nonces of the window of round `k`. -/
def windowNonces (v : Verifier) (nonces k : Nat) : Nat :=
  min (nonces - windowStart v k) v.gpu.globalWorkSize

/-- Scoop `c` of the window of round `k` is that of the plot. -/
def RoundHolds (v : Verifier) (entry : FileEntry) (plotId startNonce nonces k c : Nat) : Prop :=
  ScoopHolds entry plotId startNonce nonces (windowFirst v nonces k) (windowNonces v nonces k) c

/-- Scoop `c` of round `k` is the first one read that is not that of the plot. -/
structure FirstDamage (v : Verifier) (entry : FileEntry) (plotId startNonce nonces k c : Nat) :
    Prop where
  visited : ∀ j ≤ k, windowStart v j < nonces
  scoop : c < 4096
  rounds : ∀ j < k, ∀ c' < 4096, RoundHolds v entry plotId startNonce nonces j c'
  scoops : ∀ c' < c, RoundHolds v entry plotId startNonce nonces k c'
  damaged : ¬RoundHolds v entry plotId startNonce nonces k c

/-- What is reported then. -/
def damageReport (v : Verifier) (startNonce nonces k c : Nat) : Verdict :=
  .differs (toUInt64 (startNonce + windowFirst v nonces k)) (windowNonces v nonces k) c

/-! ## A window -/

section Scoops

variable {off n : Nat}

/-- A scoop passes exactly when it is that of the plot. -/
private theorem verifyScoop_verdict (smooth : v.Smooth) (size : entry.size = nonces * 262144)
    (small : nonces < 35184372088832) (positive : 0 < n) (narrow : n ≤ 32768)
    (inside : off + n ≤ nonces) {c : Nat} (scoop : c < 4096) {s : VerifyState}
    (plotted : Plotted plotId startNonce off n s) :
    ∃ t, Plotted plotId startNonce off n t ∧
      t.reads = s.reads ++ [((c * nonces + off) * 64, 64 * n)] ∧
      (ScoopHolds entry plotId startNonce nonces off n c ∧
          verifyScoop v entry startNonce nonces off n c s = (none, t) ∨
        ¬ScoopHolds entry plotId startNonce nonces off n c ∧
          verifyScoop v entry startNonce nonces off n c s =
            (some (.differs (toUInt64 (startNonce + off)) n c), t)) := by
  have rows : c * nonces ≤ 4095 * nonces := Nat.mul_le_mul_right _ (by omega)
  have bytes : toUInt64 (64 * (n : Int)) = 64 * n := by
    unfold toUInt64
    omega
  have count : 64 * n % 4294967296 = 64 * n := Nat.mod_eq_of_lt (by omega)
  have chunk : toInt32 (n : Int) = n := toInt32_eq (by omega) (by omega)
  have reachable : (c * nonces + off) * 64 < 9223372036854775808 := by omega
  have within : (c * nonces + off) * 64 + 64 * n ≤ entry.size := by omega
  have gathered : ∀ t b : Nat, t < n → b < 64 →
      transposition s.hasherBuffer s.hasherCache c 0 n (64 * t + b : Nat) =
        scoopByte (BitVec.ofNat 64 plotId) (BitVec.ofNat 64 (startNonce + (off + t))) c b := by
    intro t b lane byte
    have here := plotted t lane
    rw [← Nat.zero_add t] at here
    have gathered := transposition_plotted s.hasherCache (show 0 + t < 32768 by omega) here scoop
      lane byte
    rwa [Nat.zero_add] at gathered
  have read : ∀ t b : Nat, t < n → b < 64 →
      s.fileCache.copy 0 entry.bytes ((c * nonces + off) * 64 : Nat) (64 * n) (64 * t + b : Nat) =
        entry.bytes ((c * nonces + (off + t)) * 64 + b : Nat) := by
    intro t b lane byte
    rw [Memory.copy_inside _ _ _ (by omega)]
    exact congrArg _ (by omega)
  have equal : (∀ a : Nat, a < 64 * n → transposition s.hasherBuffer s.hasherCache c 0 n a =
      s.fileCache.copy 0 entry.bytes ((c * nonces + off) * 64 : Nat) (64 * n) a) ↔
        ScoopHolds entry plotId startNonce nonces off n c := by
    constructor
    · intro same t b lane byte
      rw [← read t b lane byte, ← gathered t b lane byte]
      exact (same (64 * t + b) (by omega)).symm
    · intro holds a below
      have byte := Nat.mod_lt a (show 0 < 64 by omega)
      have lane : a / 64 < n := by omega
      rw [← Nat.div_add_mod a 64, gathered _ _ lane byte, read _ _ lane byte]
      exact (holds _ _ lane byte).symm
  unfold verifyScoop
  simp only [scoop_offset scoop (show off < nonces by omega) (Nat.lt_trans small (by decide)), bytes,
    count, chunk, smooth.succeeds, Bool.true_and, decide_eq_true reachable, decide_eq_true within,
    Bool.not_true, Bool.or_self, Bool.false_eq_true, if_false]
  by_cases holds : ScoopHolds entry plotId startNonce nonces off n c
  · rw [if_pos (equal.mpr holds)]
    refine ⟨_, ?_, ?_, .inl ⟨holds, rfl⟩⟩
    · exact plotted
    · rfl
  · rw [if_neg fun same => holds (equal.mp same)]
    refine ⟨_, ?_, ?_, .inr ⟨holds, rfl⟩⟩
    · exact plotted
    · rfl

/-- The scoops from `c` on pass, or the first that is not that of the plot is reported. -/
private theorem verifyScoops_verdict (smooth : v.Smooth) (size : entry.size = nonces * 262144)
    (small : nonces < 35184372088832) (positive : 0 < n) (narrow : n ≤ 32768)
    (inside : off + n ≤ nonces) {gws : Nat} (fits : n ≤ gws) (rest : Nat) :
    ∀ (c : Nat) (s : VerifyState), c + rest ≤ 4096 → Plotted plotId startNonce off n s →
      (∀ read ∈ s.reads, InFile nonces gws read) →
      ∃ t, (∀ read ∈ t.reads, InFile nonces gws read) ∧
        ((∀ c', c ≤ c' → c' < c + rest → ScoopHolds entry plotId startNonce nonces off n c') ∧
            verifyScoops v entry startNonce nonces off n rest c s = (none, t) ∨
          ∃ d, c ≤ d ∧ d < c + rest ∧
            (∀ c', c ≤ c' → c' < d → ScoopHolds entry plotId startNonce nonces off n c') ∧
            ¬ScoopHolds entry plotId startNonce nonces off n d ∧
            verifyScoops v entry startNonce nonces off n rest c s =
              (some (.differs (toUInt64 (startNonce + off)) n d), t)) := by
  induction rest with
  | zero => exact fun c s _ _ reads => ⟨s, reads, .inl ⟨fun c' lower upper => by omega, rfl⟩⟩
  | succ rest ih =>
      intro c s count plotted reads
      obtain ⟨t, still, read, verdict⟩ := verifyScoop_verdict (v := v) smooth size small positive
        narrow inside (show c < 4096 by omega) plotted
      have rows : c * nonces ≤ 4095 * nonces := Nat.mul_le_mul_right _ (by omega)
      have here : InFile nonces gws ((c * nonces + off) * 64, 64 * n) :=
        ⟨n, positive, fits, rfl, by omega⟩
      have all : ∀ read ∈ t.reads, InFile nonces gws read := by
        rw [read]
        exact List.forall_mem_append.mpr ⟨reads, List.forall_mem_singleton.mpr here⟩
      rcases verdict with ⟨holds, passes⟩ | ⟨damaged, reported⟩
      · have first : ∀ c', c ≤ c' → ¬c + 1 ≤ c' → ScoopHolds entry plotId startNonce nonces off n c' := by
          intro c' lower upper
          obtain rfl : c' = c := by omega
          exact holds
        rw [verifyScoops, passes]
        obtain ⟨u, inFile, verdict⟩ := ih (c + 1) t (by omega) still all
        refine ⟨u, inFile, ?_⟩
        rcases verdict with ⟨later, passed⟩ | ⟨d, lower, upper, earlier, damaged, reported⟩
        · refine .inl ⟨fun c' lower upper => ?_, passed⟩
          by_cases next : c + 1 ≤ c'
          · exact later c' next (by omega)
          · exact first c' lower next
        · refine .inr ⟨d, by omega, by omega, fun c' lower upper => ?_, damaged, reported⟩
          by_cases next : c + 1 ≤ c'
          · exact earlier c' next upper
          · exact first c' lower next
      · rw [verifyScoops, reported]
        exact ⟨t, all, .inr ⟨c, Nat.le_refl c, by omega, fun c' lower upper => by omega, damaged,
          rfl⟩⟩

end Scoops

/-- All scoops of the window of round `k` pass, or the first that is not that of the
plot is reported. -/
private theorem verifyWindow_verdict (supported : v.gpu.Supported) (smooth : v.Smooth)
    (size : entry.size = nonces * 262144) (small : nonces < 35184372088832) {k : Nat}
    (before : windowStart v k < nonces) {s : VerifyState}
    (reads : ∀ read ∈ s.reads, InFile nonces v.gpu.globalWorkSize read) :
    ∃ t, (∀ read ∈ t.reads, InFile nonces v.gpu.globalWorkSize read) ∧
      ((∀ c < 4096, RoundHolds v entry plotId startNonce nonces k c) ∧
          verifyWindow v entry plotId startNonce nonces (windowStart v k) s = (none, t) ∨
        ∃ c < 4096, (∀ c' < c, RoundHolds v entry plotId startNonce nonces k c') ∧
          ¬RoundHolds v entry plotId startNonce nonces k c ∧
          verifyWindow v entry plotId startNonce nonces (windowStart v k) s =
            (some (damageReport v startNonce nonces k c), t)) := by
  have bounded := supported.bounded
  have positive := supported.positive
  unfold verifyWindow RoundHolds damageReport windowFirst windowNonces
  rw [windowOffset_eq before (by omega) (by omega), windowSize_eq before (by omega) (by omega)]
  generalize offEq : nonces - windowStart v k - v.gpu.globalWorkSize = off
  generalize sizeEq : min (nonces - windowStart v k) v.gpu.globalWorkSize = n
  have count : toUInt64 (n : Int) = n := toUInt64_natCast (by omega)
  simp only [count]
  have plotted : ∀ u : VerifyState, Plotted plotId startNonce off n
      { u with
        devBuff := (v.gpu.plot s.devBuff (BitVec.ofNat 64 plotId)
          (BitVec.ofNat 64 (toUInt64 (startNonce + off))) n s.hasherBuffer 0).1
        hasherBuffer := (v.gpu.plot s.devBuff (BitVec.ofNat 64 plotId)
          (BitVec.ofNat 64 (toUInt64 (startNonce + off))) n s.hasherBuffer 0).2 } := by
    intro u t lane
    have plotted := plot_lane supported s.devBuff s.hasherBuffer (BitVec.ofNat 64 plotId)
      (toUInt64 (startNonce + off)) (show n ≤ v.gpu.globalWorkSize by omega) lane
    have nonce : BitVec.ofNat 64 (toUInt64 ((startNonce : Int) + off) + t) =
        BitVec.ofNat 64 (startNonce + (off + t)) := by
      refine BitVec.eq_of_toNat_eq ?_
      rw [BitVec.toNat_ofNat, BitVec.toNat_ofNat]
      unfold toUInt64
      omega
    rwa [nonce] at plotted
  obtain ⟨t, inFile, verdict⟩ := verifyScoops_verdict (v := v) smooth size small
    (show 0 < n by omega) (by omega) (show off + n ≤ nonces by omega)
    (show n ≤ v.gpu.globalWorkSize by omega) scoopsPerPlot 0 _ (Nat.le_refl _) (plotted s) reads
  refine ⟨t, inFile, ?_⟩
  rcases verdict with ⟨holds, passed⟩ | ⟨c, _, scoop, earlier, damaged, reported⟩
  · exact .inl ⟨fun c scoop => holds c (Nat.zero_le c) (by rwa [Nat.zero_add]), passed⟩
  · rw [Nat.zero_add] at scoop
    exact .inr ⟨c, scoop, fun c' early => earlier c' (Nat.zero_le c') early, damaged, reported⟩

/-! ## The whole file -/

/-- The loop from round `k` on, when it never goes back. -/
private theorem verifyLoop_verdict (supported : v.gpu.Supported) (smooth : v.Smooth)
    (forward : 0 ≤ toInt32 v.step) (size : entry.size = nonces * 262144)
    (small : nonces < 35184372088832) (rounds : Nat) :
    ∀ (k : Nat) (s : VerifyState), 0 < rounds → nonces < windowStart v k + rounds →
      (∀ j < k, windowStart v j < nonces ∧
        ∀ c < 4096, RoundHolds v entry plotId startNonce nonces j c) →
      (∀ read ∈ s.reads, InFile nonces v.gpu.globalWorkSize read) →
      ∃ t, (∀ read ∈ t.reads, InFile nonces v.gpu.globalWorkSize read) ∧
        ((∀ j, (∀ i ≤ j, windowStart v i < nonces) →
            ∀ c < 4096, RoundHolds v entry plotId startNonce nonces j c) ∧
            verifyLoop v entry plotId startNonce nonces rounds (windowStart v k) s = (.good, t) ∨
          ∃ j c, FirstDamage v entry plotId startNonce nonces j c ∧
            verifyLoop v entry plotId startNonce nonces rounds (windowStart v k) s =
              (damageReport v startNonce nonces j c, t)) := by
  have positive := supported.positive
  have bounded := supported.bounded
  have stride : toInt32 v.step < 2147483648 := by
    unfold toInt32
    omega
  induction rounds with
  | zero => exact fun _ _ some_rounds => absurd some_rounds (Nat.lt_irrefl 0)
  | succ rounds ih =>
      intro k s _ enough visited reads
      rw [verifyLoop]
      by_cases before : windowStart v k < nonces
      · rw [if_pos before]
        obtain ⟨t, inFile, verdict⟩ := @verifyWindow_verdict v entry plotId startNonce nonces
          supported smooth size small k before s reads
        rcases verdict with ⟨holds, passed⟩ | ⟨c, scoop, earlier, damaged, reported⟩
        · have next : (windowStart v (k + 1) : Int) =
              windowStart v k + (v.gpu.globalWorkSize + toInt32 v.step) := by
            rw [← nextWindow_start]
            unfold nextWindow toUInt64
            omega
          rw [passed, nextWindow_start]
          refine ih (k + 1) t (by omega) (by omega) (fun j early => ?_) inFile
          rcases Nat.lt_succ_iff_lt_or_eq.mp early with before | rfl
          · exact visited j before
          · exact ⟨before, holds⟩
        · rw [reported]
          refine ⟨t, inFile, .inr ⟨k, c, ⟨fun j early => ?_, scoop, fun j early =>
            (visited j early).2, earlier, damaged⟩, rfl⟩⟩
          rcases Nat.lt_or_eq_of_le early with earlier | rfl
          · exact (visited j earlier).1
          · exact before
      · rw [if_neg before]
        refine ⟨s, reads, .inl ⟨fun j all => (visited j ?_).2, rfl⟩⟩
        by_contra late
        exact before (all k (Nat.le_of_not_lt late))

/-- The nonces of the windows are the covered ones. -/
private theorem stored_of_rounds (holds : ∀ j, (∀ i ≤ j, windowStart v i < nonces) →
    ∀ c < 4096, RoundHolds v entry plotId startNonce nonces j c) {x : Nat}
    (covered : Covered v nonces x) : Stored entry plotId startNonce nonces x := by
  obtain ⟨k, visited, upper, lower⟩ := covered
  intro c b scoop byte
  have first : windowFirst v nonces k ≤ x := by
    unfold windowFirst
    omega
  have lane : x - windowFirst v nonces k < windowNonces v nonces k := by
    unfold windowFirst windowNonces
    omega
  have here := holds k visited c scoop _ b lane byte
  rwa [Nat.add_sub_cancel' first] at here

/-- A file whose name gives its size goes to the loop. The mask of the test is 1, but 0
for 7 nonces. -/
private theorem runPlotVerify_loop (smooth : v.Smooth) {name : Text}
    (reads : ReadsAs name plotId startNonce nonces) (even : nonces % 2 = 0 ∨ nonces = 7)
    (size : entry.size = nonces * 262144) (small : nonces < 35184372088832) (rounds : Nat) :
    runPlotVerify v name (some entry) rounds =
      verifyLoop v entry plotId startNonce nonces rounds (windowStart v 0) v.start := by
  obtain ⟨first, second, third, pieces, readId, readStart, readTotal⟩ := reads
  have count : entry.size / 256 / 1024 = nonces := by omega
  have total : toUInt64 (nonces : Int) = nonces := toUInt64_natCast (by omega)
  have whole : toUInt64 ((nonces * 256 * 1024 : Nat) : Int) = entry.size := by
    unfold toUInt64
    omega
  have mask : nonces &&& (decide (7 ≠ nonces)).toNat = 0 := by
    rcases even with even | rfl
    · rw [decide_eq_true (show 7 ≠ nonces by omega), Bool.toNat_true, Nat.and_one_is_mod, even]
    · rfl
  unfold runPlotVerify
  simp only [pieces, readId, readStart, readTotal, smooth.opens, if_true]
  unfold verifyFile
  simp only [count, total, mask, whole, ne_eq, not_true, or_self, if_false, windowStart_zero]

/-- A verifier whose operations succeed and that never goes back ends on a file of the
size of its name with an even number of nonces, or seven: with `GOOD!`, and every nonce of
its windows is stored, or with the first scoop it reads that is not. -/
theorem runPlotVerify_verdict (supported : v.gpu.Supported) (smooth : v.Smooth)
    (forward : 0 ≤ toInt32 v.step) {name : Text} (reads : ReadsAs name plotId startNonce nonces)
    (even : nonces % 2 = 0 ∨ nonces = 7) (size : entry.size = nonces * 262144)
    (small : nonces < 35184372088832) :
    ∃ t, (∀ read ∈ t.reads, InFile nonces v.gpu.globalWorkSize read) ∧
      ((∀ x, Covered v nonces x → Stored entry plotId startNonce nonces x) ∧
          runPlotVerify v name (some entry) (nonces + 1) = (.good, t) ∨
        ∃ k c, FirstDamage v entry plotId startNonce nonces k c ∧
          runPlotVerify v name (some entry) (nonces + 1) =
            (damageReport v startNonce nonces k c, t)) := by
  rw [runPlotVerify_loop smooth reads even size small]
  obtain ⟨t, inFile, verdict⟩ := @verifyLoop_verdict v entry plotId startNonce nonces supported
    smooth forward size small (nonces + 1) 0 v.start (by omega) (by omega)
    (fun j none => absurd none (Nat.not_lt_zero j)) (List.forall_mem_nil _)
  refine ⟨t, inFile, ?_⟩
  rcases verdict with ⟨holds, good⟩ | damage
  · exact .inl ⟨fun x covered => stored_of_rounds holds covered, good⟩
  · exact .inr damage

/-- The file `1_0_16` with one byte of scoop 5 damaged. -/
def oneDamaged : FileEntry where
  size := 16 * 262144
  bytes a :=
    let byte := scoopByte (BitVec.ofNat 64 1) (BitVec.ofNat 64 (0 + a.toNat / 64 % 16))
      (a.toNat / 64 / 16) (a.toNat % 64)
    if a = 5312 then byte + 1 else byte

private theorem oneDamaged_bytes {c x b : Nat} (inside : x < 16) (byte : b < 64) :
    oneDamaged.bytes ((c * 16 + x) * 64 + b : Nat) =
      if c = 5 ∧ x = 3 ∧ b = 0 then
        scoopByte (BitVec.ofNat 64 1) (BitVec.ofNat 64 (0 + x)) c b + 1
      else scoopByte (BitVec.ofNat 64 1) (BitVec.ofNat 64 (0 + x)) c b := by
  have nonce : (((c * 16 + x) * 64 + b : Nat) : Int).toNat / 64 % 16 = x := by omega
  have scoop : (((c * 16 + x) * 64 + b : Nat) : Int).toNat / 64 / 16 = c := by omega
  have offset : (((c * 16 + x) * 64 + b : Nat) : Int).toNat % 64 = b := by omega
  have place : (((c * 16 + x) * 64 + b : Nat) : Int) = 5312 ↔ c = 5 ∧ x = 3 ∧ b = 0 := by omega
  unfold oneDamaged
  simp only [nonce, scoop, offset, place]

/-- The damage is found, and reported with the window's nonces. -/
theorem runPlotVerify_oneDamaged :
    (runPlotVerify sampling (plotName 1 0 16) (some oneDamaged) 17).1 = .differs 0 16 5 := by
  have supported : sampling.gpu.Supported :=
    GpuPlotter.inOrder_supported (by decide) (by decide) (by decide)
  have reads : ReadsAs (plotName 1 0 16) 1 0 16 :=
    readsAs_plotName (by decide) (by decide) (by decide)
  have size : oneDamaged.size = 16 * 262144 := rfl
  have damaged : oneDamaged.bytes ((5 * 16 + 3) * 64 + 0 : Nat) ≠
      scoopByte (BitVec.ofNat 64 1) (BitVec.ofNat 64 (0 + 3)) 5 0 := by
    rw [oneDamaged_bytes (by decide) (by decide), if_pos ⟨rfl, rfl, rfl⟩]
    generalize scoopByte (BitVec.ofNat 64 1) (BitVec.ofNat 64 (0 + 3)) 5 0 = byte
    revert byte
    decide
  obtain ⟨t, _, ⟨stored, _⟩ | ⟨k, c, damage, reported⟩⟩ := runPlotVerify_verdict supported
    ⟨rfl, fun _ => rfl⟩ (by decide) reads (.inl rfl) size (by decide)
  · refine absurd (stored 3 ⟨0, fun j early => ?_, ?_, ?_⟩ 5 0 (by decide) (by decide)) damaged
    · rw [Nat.le_zero.mp early]
      decide
    · decide
    · decide
  · have first : windowFirst sampling 16 0 = 0 := by decide
    have count : windowNonces sampling 16 0 = 16 := by decide
    have round : k = 0 := by
      cases k with
      | zero => rfl
      | succ k => exact absurd (damage.visited 1 (by omega)) (by decide)
    subst round
    have scoop : c = 5 := by
      by_contra other
      refine damage.damaged fun t b lane byte => ?_
      rw [count] at lane
      rw [first, Nat.zero_add, oneDamaged_bytes lane byte, if_neg fun same => other same.1]
    subst scoop
    rw [reported]
    unfold damageReport
    rw [first, count]
    rfl

end HyperPlotter.Verify

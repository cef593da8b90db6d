import HyperPlotter.Pipeline.PlotSize
import HyperPlotter.Verify.Sound

/-!
# Which plotted files are accepted

A file the pipeline has submitted as complete is reported `GOOD!` exactly when
no window of the verifier reaches a lane that was not hashed, or not gathered
from its place.
-/

namespace HyperPlotter.Verify

open Foundation Poc Pipeline

/-- A smooth run of the verifier on the file ends with `GOOD!`, and its reads are in
the file and fit its buffers. -/
def Accepts (file : PlannedFile) (g step : Nat) (entry : FileEntry) : Prop :=
  ∀ v : Verifier, v.gpu.Supported → v.gpu.globalWorkSize = g → v.step = step → v.Smooth →
    ∃ rounds t, runPlotVerify v (plotName file.pid file.sn file.nonces.toNat) (some entry) rounds =
        (.good, t) ∧
      ∀ read ∈ t.reads, InFile file.nonces.toNat g read

/-- Whatever a run of the pipeline with `g` work items and `b` buffers leaves for
the file is accepted. -/
def VerifiesPlot (file : PlannedFile) (g b step : Nat) : Prop :=
  ∀ run : PlotRun, run.gpu.Supported → run.gpu.globalWorkSize = g → run.Settles → run.Clean file →
    ∃ enough, ∀ attempts, enough ≤ attempts → ∃ entry,
      (submissions (plotFile file (g * b : Nat) run attempts).point.state.history).getLast? =
        some (true, some entry) ∧ Accepts file g step entry

/-- Nonce `x` is in a window of the verifier. -/
def Visited (nonces g step x : Nat) : Prop :=
  x < nonces ∧ (nonces - 1 - x) % (g + step) < g

section

variable {file : PlannedFile} {g b step : Nat}

/-- A `step` option is read back from the stream as it is. -/
private theorem covered_visited {v : Verifier} (bounded : g ≤ 32768) (positive : 0 < g)
    (gws : v.gpu.globalWorkSize = g) (option : v.step = step) (small : step ≤ 8192) {nonces x : Nat}
    (count : nonces < 2147483648) : Covered v nonces x ↔ Visited nonces g step x := by
  have exact : toInt32 v.step = step := by
    rw [option, toInt32_eq (by omega) (by omega)]
  have covered := covered_iff
    (show (v.gpu.globalWorkSize : Int) + toInt32 v.step = (g + step : Nat) by omega) (by omega)
    (show nonces < 70368744177664 by omega) (by omega) (by omega) (x := x)
  rwa [gws] at covered

/-- A whole file whose visited nonces are plotted is accepted. -/
private theorem accepts_of_stored (valid : file.Valid) (pid : file.pid < 18446744073709551616)
    (even : file.nonces % 8 = 0) (bounded : g ≤ 32768) (positive : 0 < g) (small : step ≤ 8192)
    {entry : FileEntry} (size : entry.size = file.bytes)
    (stored : ∀ x, Visited file.nonces.toNat g step x →
      Stored entry file.pid file.sn file.nonces.toNat x) : Accepts file g step entry := by
  rintro v supported gws option smooth
  have upper := valid.bounded
  have reads : ReadsAs (plotName file.pid file.sn file.nonces.toNat) file.pid file.sn
      file.nonces.toNat := readsAs_plotName pid valid.start (by omega)
  have forward : 0 ≤ toInt32 v.step := by
    rw [option, toInt32_eq (by omega) (by omega)]
    omega
  obtain ⟨t, good, inFile⟩ := runPlotVerify_good supported smooth forward reads (by omega) size
    (by omega) fun x covered =>
      stored x ((covered_visited bounded positive gws option small (by omega)).mp covered)
  rw [gws] at inFile
  exact ⟨_, t, good, inFile⟩

private theorem step_le (option : step = 0 ∨ step ∣ 8192) : step ≤ 8192 := by
  rcases option with rfl | divides
  · omega
  · exact Nat.le_of_dvd (by decide) divides

/-- A verifier with `g` work items in order and nothing in its buffers. -/
def blankVerifier (g step : Nat) : Verifier where
  gpu := { GpuPlotter.inOrder g with
    step := kernelStep step }
  step := step
  stepped := by simp only []
  devBuff _ := 0
  hasherBuffer _ := 0
  fileCache _ := 0
  hasherCache _ := 0
  opens := true
  succeeds _ := true

private theorem blankVerifier_supported (positive : 0 < g) (aligned : g % 16 = 0)
    (bounded : g ≤ 32768) (option : step = 0 ∨ step ∣ 8192) :
    (blankVerifier g step).gpu.Supported := by
  have launches : 1 ≤ kernelStep step ∧ kernelStep step ∣ 8192 := by
    unfold kernelStep
    rcases option with rfl | divides
    · decide
    · have some_step : 0 < step := Nat.pos_of_dvd_of_pos divides (by decide)
      have small := step_le (.inr divides)
      rw [toInt32_eq (by omega) (by omega), if_neg (by omega)]
      exact ⟨by omega, Int.natCast_dvd_natCast.mpr divides⟩
  have ordered := GpuPlotter.inOrder_supported positive aligned bounded
  refine ⟨ordered.positive, ordered.aligned, ordered.bounded, ?_, ?_⟩
  · simpa only [blankVerifier] using launches.1
  · simpa only [blankVerifier] using launches.2

/-- The visited nonces of an accepted file are plotted. -/
private theorem stored_of_accepts (valid : file.Valid) (pid : file.pid < 18446744073709551616)
    (bounded : g ≤ 32768) (positive : 0 < g) (aligned : g % 16 = 0)
    (option : step = 0 ∨ step ∣ 8192) {entry : FileEntry} (accepted : Accepts file g step entry)
    {x : Nat} (visited : Visited file.nonces.toNat g step x) :
    Stored entry file.pid file.sn file.nonces.toNat x := by
  have upper := valid.bounded
  have small := step_le option
  have supported := blankVerifier_supported positive aligned bounded option
  obtain ⟨rounds, t, good, _⟩ := accepted (blankVerifier g step) supported rfl rfl
    ⟨rfl, fun _ => rfl⟩
  obtain ⟨first, second, third, pieces, readId, readStart, readTotal⟩ :=
    readsAs_plotName pid valid.start (show file.nonces.toNat < 9223372036854775808 by omega)
  have verified := congrArg Prod.fst good
  unfold runPlotVerify at verified
  simp only [pieces, readId, readStart, readTotal, blankVerifier, if_true] at verified
  obtain ⟨same, _, _, recomputed⟩ := verifyFile_sound (v := blankVerifier g step)
    (show g < 67108864 by omega) (by omega) (by omega) verified
  rw [← Int.natCast_inj.mp same] at recomputed
  have covered := (covered_visited (v := blankVerifier g step) bounded positive rfl rfl small
    (by omega)).mpr visited
  exact fun c b scoop byte => (recomputed x covered c b scoop byte).eq supported scoop byte

/-! ## What the pipeline leaves for the visited nonces -/

/-- No window reaches a lane that is not plotted in its block, or not read from
there: the lanes from 32768 on when a chunk has less than 8192 nonces, else those
behind the first chunk. With 8192 work items, two buffers and a `step` of 8192 the
windows can be just the first chunks. -/
def WindowsPlotted (nonces g b step : Nat) : Prop :=
  (g < 8192 ∧ ∀ x, Visited nonces g step x → x % (g * b) < 32768) ∨ b = 1 ∨ nonces ≤ g ∨
    (g = 8192 ∧ b = 2 ∧ step = 8192 ∧ nonces % 16384 = 8192)

section Complete

variable {run : PlotRun} {state : PlotState} {entry : FileEntry}

/-- The complete file is as long as its nonces. -/
private theorem size_of_slots (valid : file.Valid)
    (growing : state.Growing file (g * b : Nat) run)
    (finished : issuedNonces 0 state.handed = file.nonces)
    (holds : FileHolds entry file 0 state.point.state.finished) (sized : entry.size ≤ file.bytes) :
    entry.size = file.bytes := by
  have nonempty := valid.nonempty
  obtain ⟨task, _, _, _, lower, within, _, _, slot⟩ := growing.lane valid finished holds
    (show 4095 < 4096 by decide) (show ((file.nonces.toNat - 1 : Nat) : Int) < file.nonces by omega)
  have last := slot.inside
  unfold PlannedFile.bytes at sized ⊢
  omega

/-- With 8192 work items and two buffers the first halves of the tasks are plotted. -/
private theorem Growing.firstChunk (valid : file.Valid) (supported : run.gpu.Supported)
    (gws : run.gpu.globalWorkSize = 8192) (growing : state.Growing file (8192 * 2 : Nat) run)
    (finished : issuedNonces 0 state.handed = file.nonces)
    (holds : FileHolds entry file 0 state.point.state.finished) {c x c' : Nat} (scoop : c < 4096)
    (nonce : (x : Int) < file.nonces) (first : x % 16384 < 8192) (byte : c' < 64) :
    entry.bytes ((c * file.nonces.toNat + x) * 64 + c' : Nat) =
      scoopByte (BitVec.ofNat 64 file.pid) (BitVec.ofNat 64 (file.sn + x)) c c' := by
  have upper := valid.bounded
  obtain ⟨task, devBuff, round, pid, lower, within, size, lane, slot⟩ :=
    growing.lane valid finished holds scoop nonce
  have place : x - task.offset file < 8192 := by omega
  have lanes : LanePlotted (seedWords (BitVec.ofNat 64 task.pid)
      (BitVec.ofNat 64 (task.sn + (x - task.offset file)))) (x - task.offset file : Nat)
      (hashTask run.gpu devBuff (run.prior round) task).2 := by
    by_cases longer : 8192 < task.nonces
    · have plotted := hashTask_first supported gws devBuff (run.prior round) task longer (by omega)
        (x - task.offset file) place
      rwa [Nat.zero_add] at plotted
    · have plotted := hashTask_plotted supported devBuff (run.prior round) task (by omega)
        (by omega) (.inr (by omega)) (x - task.offset file) (by omega)
      rwa [Nat.zero_add] at plotted
  exact (slot.plotted pid lower (by omega) lanes scoop byte).2

/-- The visited nonces are in the file. -/
private theorem Growing.visited (valid : file.Valid) (supported : run.gpu.Supported)
    (gws : run.gpu.globalWorkSize = g) (bounded : g ≤ 32768) (buffers : 1 ≤ b)
    (windows : WindowsPlotted file.nonces.toNat g b step)
    (growing : state.Growing file (g * b : Nat) run)
    (finished : issuedNonces 0 state.handed = file.nonces)
    (holds : FileHolds entry file 0 state.point.state.finished) {x : Nat}
    (visited : Visited file.nonces.toNat g step x) :
    Stored entry file.pid file.sn file.nonces.toNat x := by
  have positive := supported.positive
  have inside := visited.1
  have single : g ≤ g * b := Nat.le_mul_of_pos_right g (by omega)
  have plotted : ∀ c k : Nat, c < 4096 → k < 64 →
      (run.gpu.globalWorkSize < 8192 ∨ ((g * b : Nat) : Int) ≤ run.gpu.globalWorkSize ∨
        file.nonces ≤ run.gpu.globalWorkSize) → x % (g * b) < 32768 →
      entry.bytes ((c * file.nonces.toNat + x) * 64 + k : Nat) =
        scoopByte (BitVec.ofNat 64 file.pid) (BitVec.ofNat 64 (file.sn + x)) c k := by
    intro c k scoop byte exact lane
    exact (growing.plotted valid supported exact finished holds scoop (by omega) (by omega) byte).2
  intro c k scoop byte
  rcases windows with ⟨narrow, lanes⟩ | rfl | short | ⟨rfl, rfl, rfl, residue⟩
  · exact plotted c k scoop byte (.inl (by omega)) (lanes x visited)
  · have lane : x % (g * 1) < g := by
      rw [Nat.mul_one]
      exact Nat.mod_lt x (by omega)
    exact plotted c k scoop byte (.inr (.inl (by omega))) (by omega)
  · have lane : x % (g * b) = x := Nat.mod_eq_of_lt (by omega)
    exact plotted c k scoop byte (.inr (.inr (by omega))) (by omega)
  · have window := visited.2
    exact Growing.firstChunk valid supported gws growing finished holds scoop (by omega) (by omega)
      byte

end Complete

private theorem verifiesPlot_of_windows (valid : file.Valid)
    (pid : file.pid < 18446744073709551616) (even : file.nonces % 8 = 0) (positive : 0 < g)
    (bounded : g ≤ 32768) (buffers : 1 ≤ b) (small : step ≤ 8192)
    (windows : WindowsPlotted file.nonces.toNat g b step) : VerifiesPlot file g b step := by
  rintro run supported gws ⟨settled, smooth⟩ clean
  refine ⟨settled + 1, fun attempts enough => ?_⟩
  have size : (0 : Int) < (g * b : Nat) := Int.natCast_pos.mpr (Nat.mul_pos positive buffers)
  obtain ⟨growing, finished⟩ := plotFile_growing valid _ size smooth enough
  obtain ⟨_, entry, last, holds⟩ := growing.submitted valid finished
  obtain ⟨_, _, place⟩ := growing.place
  have sized := plotFile_sized clean place.1.within
  have submitted : WriterEvent.submitted true (some entry) ∈
      (plotFile file (g * b : Nat) run attempts).point.state.history := by
    obtain ⟨event, member, same⟩ := List.mem_filterMap.mp (List.mem_of_getLast? last)
    cases event with
    | submitted complete content =>
        obtain ⟨rfl, rfl⟩ := Prod.mk.inj (Option.some.inj same)
        exact member
    | _ => cases same
  refine ⟨entry, last, ?_⟩
  exact accepts_of_stored valid pid even bounded positive small
    (size_of_slots valid growing finished holds (sized.submitted true entry submitted))
    fun x visited => Growing.visited valid supported gws bounded buffers windows growing finished
      holds visited

/-! ## Windows that reach other lanes -/

/-- The windows leave `step` nonces out between them: no longer run is left out. -/
private theorem visited_within {nonces y : Nat} (positive : 0 < g) (inside : y + step < nonces) :
    ∃ x, y ≤ x ∧ x ≤ y + step ∧ Visited nonces g step x := by
  have split := Nat.div_add_mod (nonces - 1 - (y + step)) (g + step)
  have below := Nat.mod_lt (nonces - 1 - (y + step)) (show g + step > 0 by omega)
  generalize (nonces - 1 - (y + step)) / (g + step) = k at split
  by_cases here : (nonces - 1 - (y + step)) % (g + step) < g
  · exact ⟨y + step, by omega, by omega, by omega, here⟩
  · generalize (nonces - 1 - (y + step)) % (g + step) = r at split below here
    refine ⟨y + step - (g + step - r), by omega, by omega, by omega, ?_⟩
    have next : (g + step) * (k + 1) = (g + step) * k + (g + step) := Nat.mul_succ _ k
    rw [show nonces - 1 - (y + step - (g + step - r)) = (g + step) * (k + 1) by omega,
      Nat.mul_mod_right]
    exact positive

/-- With more than one chunk in a task, some window reaches behind the first one. -/
private theorem visited_behind {nonces : Nat} (wide : 8192 ≤ g) (narrow : g ≤ 16384)
    (small : step ≤ 8192) (several : 2 ≤ b) (longer : g < nonces)
    (other : ¬(g = 8192 ∧ b = 2 ∧ step = 8192 ∧ nonces % 16384 = 8192)) :
    ∃ x, Visited nonces g step x ∧ g ≤ x % (g * b) ∧ x % (g * b) < 32768 := by
  have chunks : g * b = g * 2 ∨ g * 3 ≤ g * b := by
    rcases Nat.eq_or_lt_of_le several with rfl | more
    · exact .inl rfl
    · exact .inr (Nat.mul_le_mul_left g more)
  have double : g * b = g * 2 → b = 2 := fun equal => Nat.eq_of_mul_eq_mul_left (by omega) equal
  generalize sizeEq : g * b = w at chunks double
  have split := Nat.div_add_mod (nonces - 1) w
  have below := Nat.mod_lt (nonces - 1) (show w > 0 by omega)
  generalize (nonces - 1) / w = q at split
  generalize (nonces - 1) % w = r at split below
  have lane : ∀ p k, k < w → (w * p + k) % w = k := fun p k bound => by
    rw [Nat.mul_add_mod, Nat.mod_eq_of_lt bound]
  -- a run behind the first chunk, long enough for a window
  have reached : ∀ p, w * p + g + step < nonces → g + step < w →
      ∃ x, Visited nonces g step x ∧ g ≤ x % w ∧ x % w < 32768 := by
    intro p inside fits
    obtain ⟨x, lower, upper, visited⟩ := visited_within (g := g) (by omega) inside
    have place := lane p (x - w * p) (by omega)
    rw [show w * p + (x - w * p) = x by omega] at place
    exact ⟨x, visited, by omega, by omega⟩
  by_cases last : g ≤ r
  · by_cases short : r < 32768
    · have place := lane q r below
      refine ⟨nonces - 1, ⟨by omega, ?_⟩, by rw [← split]; omega⟩
      rw [Nat.sub_self, Nat.zero_mod]
      omega
    · exact reached q (by omega) (by omega)
  · -- the last task is at most one chunk, so there is one before it
    cases q with
    | zero => omega
    | succ p =>
        have before : w * (p + 1) = w * p + w := Nat.mul_succ w p
        by_cases fits : g + step < w
        · exact reached p (by omega) fits
        · have equal := double (by omega)
          have place := lane p (w - 1) (by omega)
          have residue : nonces % w = r + 1 := by
            rw [show nonces = w * (p + 1) + (r + 1) by omega, Nat.mul_add_mod,
              Nat.mod_eq_of_lt (by omega)]
          have partly : r + 1 < g := by
            by_contra whole
            refine other ⟨by omega, equal, by omega, ?_⟩
            rw [show 16384 = w by omega, residue]
            omega
          refine ⟨w * p + (w - 1), ⟨by omega, ?_⟩, by omega⟩
          rw [show nonces - 1 - (w * p + (w - 1)) = r + 1 by omega, Nat.mod_eq_of_lt (by omega)]
          exact partly

private theorem not_verifiesPlot (valid : file.Valid) (pid : file.pid < 18446744073709551616)
    (positive : 0 < g) (aligned : g % 16 = 0) (bounded : g ≤ 32768) (buffers : 1 ≤ b ∧ b ≤ 7)
    (option : step = 0 ∨ step ∣ 8192) (narrow : g ≤ 16384 ∨ b = 1)
    (windows : ¬WindowsPlotted file.nonces.toNat g b step) : ¬VerifiesPlot file g b step := by
  intro verifies
  have small := step_le option
  unfold WindowsPlotted at windows
  have factor : g * b ≤ g * 7 := Nat.mul_le_mul_left g buffers.2
  have size : (0 : Int) < (g * b : Nat) := Int.natCast_pos.mpr (Nat.mul_pos positive buffers.1)
  -- a visited nonce whose bytes are those the blocks held before
  obtain ⟨x, visited, stale⟩ : ∃ x, Visited file.nonces.toNat g step x ∧ ∀ (v : Byte)
      {state : PlotState} {entry : FileEntry},
      state.Growing file (g * b : Nat) (filledRun (GpuPlotter.inOrder g) v) →
      issuedNonces 0 state.handed = file.nonces →
      FileHolds entry file 0 state.point.state.finished → entry.bytes (64 * x : Nat) = v := by
    by_cases wide : 8192 ≤ g
    · obtain ⟨x, visited, behind, bound⟩ := visited_behind wide (by omega) small
        (show 2 ≤ b by omega) (show g < file.nonces.toNat by omega) (by omega)
      have inside := visited.1
      have gws : ∀ v, (filledRun (GpuPlotter.inOrder g) v).gpu.globalWorkSize = g := fun _ => rfl
      refine ⟨x, visited, fun v _ _ growing finished holds => ?_⟩
      exact growing.stale valid (fun _ _ => rfl) aligned wide (by have := gws v; omega) finished holds
        (by omega) (by have := gws v; omega) (by omega)
    · obtain ⟨x, visited, behind⟩ : ∃ x, Visited file.nonces.toNat g step x ∧
          32768 ≤ x % (g * b) := by
        by_contra none
        refine windows (.inl ⟨by omega, fun x visited => ?_⟩)
        by_contra beyond
        exact none ⟨x, visited, by omega⟩
      have inside := visited.1
      have lane := Nat.mod_lt x (show g * b > 0 by omega)
      refine ⟨x, visited, fun v _ _ growing finished holds => ?_⟩
      exact growing.wrapped valid (GpuPlotter.inOrder_supported positive aligned bounded)
        (fun _ _ => rfl) (show g < 8192 by omega) finished holds (by omega) (by omega) (by omega)
  have held : ∀ v : Byte,
      scoopByte (BitVec.ofNat 64 file.pid) (BitVec.ofNat 64 (file.sn + x)) 0 0 = v := by
    intro v
    obtain ⟨enough, accepts⟩ := verifies (filledRun (GpuPlotter.inOrder g) v)
      (GpuPlotter.inOrder_supported positive aligned bounded) rfl ⟨0, fun _ _ => rfl⟩ nofun
    obtain ⟨growing, finished⟩ := plotFile_growing valid (g * b : Nat) size
      (fun _ _ => rfl : ∀ j, 0 ≤ j → ((filledRun (GpuPlotter.inOrder g) v).outcomes j).ok = true)
      (Nat.succ_pos enough)
    obtain ⟨_, entry, last, holds⟩ := growing.submitted valid finished
    obtain ⟨entry', last', accepted⟩ := accepts (enough + 1) (by omega)
    obtain ⟨_, same⟩ := Prod.mk.inj (Option.some.inj (last.symm.trans last'))
    obtain rfl : entry = entry' := Option.some.inj same
    have stored := stored_of_accepts valid pid bounded positive aligned option accepted visited 0 0
      (by omega) (by omega)
    rw [← stored, ← stale v growing finished holds]
    exact congrArg _ (by omega)
  exact absurd ((held 0).symm.trans (held 0xFF)) (by decide)

/-- What the pipeline leaves for a file is accepted when no window reaches a lane
it has not plotted, and, for at most 16384 work items or one buffer, only then. -/
theorem verifiesPlot_iff (valid : file.Valid) (pid : file.pid < 18446744073709551616)
    (even : file.nonces % 8 = 0) (positive : 0 < g) (aligned : g % 16 = 0) (bounded : g ≤ 32768)
    (buffers : 1 ≤ b ∧ b ≤ 7) (option : step = 0 ∨ step ∣ 8192) :
    (WindowsPlotted file.nonces.toNat g b step → VerifiesPlot file g b step) ∧
      (g ≤ 16384 ∨ b = 1 →
        (VerifiesPlot file g b step ↔ WindowsPlotted file.nonces.toNat g b step)) := by
  have enough := verifiesPlot_of_windows (b := b) valid pid even positive bounded buffers.1
    (step_le option)
  refine ⟨enough, fun narrow => ⟨fun verifies => ?_, enough⟩⟩
  by_contra windows
  exact not_verifiesPlot valid pid positive aligned bounded buffers option narrow windows verifies

end

/-- Forty nonces with a work size of 16. -/
theorem verifiesPlot_iff_sixteen :
    (WindowsPlotted 40 16 2 32 → VerifiesPlot ⟨1, 0, 40⟩ 16 2 32) ∧
      (16 ≤ 16384 ∨ 2 = 1 → (VerifiesPlot ⟨1, 0, 40⟩ 16 2 32 ↔ WindowsPlotted 40 16 2 32)) :=
  verifiesPlot_iff (show PlannedFile.Valid ⟨1, 0, 40⟩ from ⟨by decide, by decide, by decide⟩)
    (by decide) (by decide) (by decide) (by decide) (by decide) (by decide) (.inr (by decide))

/-- With two buffers of 8192 work items the last window is behind the first chunk. -/
theorem not_verifiesPlot_twoBuffers : ¬VerifiesPlot ⟨1, 0, 16384⟩ 8192 2 0 :=
  not_verifiesPlot ⟨by decide, by decide, by decide⟩ (by decide) (by decide) (by decide) (by decide)
    (by decide) (.inl rfl) (.inl (by decide)) (by
      rintro (⟨narrow, _⟩ | single | short | ⟨_, _, option, _⟩)
      · exact absurd narrow (by decide)
      · exact absurd single (by decide)
      · exact absurd short (by decide)
      · exact absurd option (by decide))

end HyperPlotter.Verify

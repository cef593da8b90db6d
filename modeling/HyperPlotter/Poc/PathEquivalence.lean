import HyperPlotter.Poc.CpuPlotter
import HyperPlotter.Poc.GpuPlotter

/-!
# Both plotters compute the same nonce

What the kernel launches and the scoop transposition yield for a lane is what
the CPU plotter leaves in its byte array for that nonce.
-/

namespace HyperPlotter.Poc

open Foundation

/-- `gpu_plotter::plot` on a whole device and `transposition` of lane `k` give
the 64 bytes of scoop `c` which `cpu_plotter::plot` leaves for nonce
`startNonce + k`, whatever the buffers on both sides held before. -/
theorem transposition_plot_eq_cpuPlot (gpu : GpuPlotter) (supported : gpu.Supported)
    (devBuff hostBuff writeBuff stack data : Memory) (plotId startNonce : BitVec 64)
    {n k c b : Nat} (within : n ≤ gpu.globalWorkSize) (lane : k < n) (scoop : c < 4096)
    (byte : b < 64) :
    transposition (gpu.plot devBuff plotId startNonce n hostBuff 0).2 writeBuff c k 1 b =
      cpuPlot stack data plotId (startNonce + BitVec.ofNat 64 k) (64 * c + b : Nat) := by
  have bounded := supported.bounded
  have plotted : LanePlotted (laneSeed plotId startNonce k) (k + 0 : Nat)
      (gpu.plot devBuff plotId startNonce n hostBuff 0).2 := by
    intro j bound
    have word := GpuPlotter.read32_plot supported devBuff plotId startNonce hostBuff 0 within lane
      bound
    rw [Int.zero_add] at word
    exact word
  rw [cpuPlot_scoop stack data plotId _ scoop byte,
    ← transposition_plotted writeBuff (n := 1) (by omega) plotted scoop (by omega) byte]
  exact congrArg _ (by omega)

/-- The last byte of a nonce in the middle of sixteen. -/
theorem transposition_plot_eq_cpuPlot_sixteen :
    transposition ((GpuPlotter.inOrder 16).plot (fun _ => 0xAA) 7 9 16 (fun _ => 0xBB) 0).2
        (fun _ => 0) 4095 3 1 63 =
      cpuPlot (fun _ => 0xCC) (fun _ => 0xDD) 7 (9 + BitVec.ofNat 64 3) (64 * 4095 + 63 : Nat) :=
  transposition_plot_eq_cpuPlot (GpuPlotter.inOrder 16)
    (GpuPlotter.inOrder_supported (by decide) (by decide) (by decide)) _ _ _ _ _ _ _
    (Nat.le_refl 16) (by decide) (by decide) (by decide)

end HyperPlotter.Poc

import HyperPlotter.Pipeline.PlotName
import HyperPlotter.Pipeline.Writer
import HyperPlotter.Poc.GpuPlotter

/-!
# The verifier

`run_plot_verify`: the test of the file's name and size, then windows of at most
`global_work_size` nonces from the end of the file backwards, each plotted again
and compared scoop by scoop. The `step` option of the kernel is also the number
of nonces left out between two windows.
-/

namespace HyperPlotter.Verify

open Foundation Poc Pipeline

/-- `step_` of a plotter made with the `step` option. -/
def kernelStep (step : Nat) : Int := if toInt32 step = 0 then 32 else toInt32 step

/-- What a call of `run_plot_verify` meets: its device and `step` option, what
the buffers hold before, and which file operations succeed. -/
structure Verifier where
  gpu : GpuPlotter
  step : Nat
  stepped : gpu.step = kernelStep step
  devBuff : Memory
  hasherBuffer : Memory
  fileCache : Memory
  hasherCache : Memory
  opens : Bool
  succeeds : Nat → Bool

/-- The buffers and the reads made so far, by offset and length. -/
structure VerifyState where
  devBuff : Memory
  hasherBuffer : Memory
  fileCache : Memory
  hasherCache : Memory
  reads : List (Nat × Nat)

/-- How `run_plot_verify` ends; `running` when the given rounds did not do. -/
inductive Verdict where
  | running
  | thrown
  | invalid
  | unread
  | differs (first last : Int) (scoop : Nat)
  | good
deriving DecidableEq

section

variable (v : Verifier) (entry : FileEntry) (plotId startNonce nonces : Nat)

/-- `off` of the window at `i`; the differences are unsigned. -/
def windowOffset (gws i : Nat) : Int := max 0 (toInt64 ((nonces : Int) - i - gws))

/-- `n` of the window at `i`. -/
def windowSize (gws i : Nat) : Int := toInt64 (min (toUInt64 ((nonces : Int) - i)) gws : Nat)

/-- `i += global_work_size() + step`, as the loop's comparison sees it. -/
def nextWindow (i : Nat) : Nat := toUInt64 ((i : Int) + v.gpu.globalWorkSize + toInt32 v.step)

/-- One scoop of a window: it is read from the file, gathered from the plotted
nonces, and compared. A read takes the length as 32-bit number. -/
def verifyScoop (off n : Int) (scoop : Nat) (s : VerifyState) : Option Verdict × VerifyState :=
  let offset := toUInt64 ((toUInt64 (off + scoop * nonces) : Int) * 64)
  let bytes := toUInt64 (64 * n)
  let sought := v.succeeds (2 * s.reads.length) && decide (offset < 9223372036854775808)
  let count := bytes % 4294967296
  let got := v.succeeds (2 * s.reads.length + 1) && decide (offset + count ≤ entry.size)
  let reads := s.reads ++ [(offset, bytes)]
  if !sought || !got then (some .unread, { s with reads := reads })
  else
    let fileCache := s.fileCache.copy 0 entry.bytes offset count
    let hasherCache := transposition s.hasherBuffer s.hasherCache scoop 0 (toInt32 n)
    let s := { s with fileCache := fileCache, hasherCache := hasherCache, reads := reads }
    if ∀ a : Nat, a < bytes → hasherCache a = fileCache a then (none, s)
    else (some (.differs (toUInt64 (startNonce + off)) n scoop), s)

/-- The loop over the scoops. -/
def verifyScoops (off n : Int) : Nat → Nat → VerifyState → Option Verdict × VerifyState
  | 0, _, s => (none, s)
  | rest + 1, scoop, s =>
    match verifyScoop v entry startNonce nonces off n scoop s with
    | (none, s) => verifyScoops off n rest (scoop + 1) s
    | ended => ended

/-- The window at `i`. -/
def verifyWindow (i : Nat) (s : VerifyState) : Option Verdict × VerifyState :=
  let off := windowOffset nonces v.gpu.globalWorkSize i
  let n := windowSize nonces v.gpu.globalWorkSize i
  let plotted := v.gpu.plot s.devBuff (BitVec.ofNat 64 plotId)
    (BitVec.ofNat 64 (toUInt64 (startNonce + off))) (toUInt64 n) s.hasherBuffer 0
  verifyScoops v entry startNonce nonces off n scoopsPerPlot 0
    { s with devBuff := plotted.1, hasherBuffer := plotted.2 }

/-- The loop over the windows. -/
def verifyLoop : Nat → Nat → VerifyState → Verdict × VerifyState
  | 0, _, s => (.running, s)
  | rounds + 1, i, s =>
    if i < nonces then
      match verifyWindow v entry plotId startNonce nonces i s with
      | (none, s) => verifyLoop rounds (nextWindow v i) s
      | (some verdict, s) => (verdict, s)
    else (.good, s)

/-- The part after the name. The precedence of `nonces & 7 != nonces` is that of
the language: the comparison comes first. -/
def verifyFile (totalNonces : Int) (rounds : Nat) (s : VerifyState) : Verdict × VerifyState :=
  let nonces := entry.size / 256 / 1024
  if nonces ≠ toUInt64 totalNonces ∨ nonces &&& (decide (7 ≠ nonces)).toNat ≠ 0 ∨
      toUInt64 ((nonces * 256 * 1024 : Nat) : Int) ≠ entry.size then (.invalid, s)
  else verifyLoop v entry plotId startNonce nonces rounds 0 s

end

/-- The state before the first read. -/
def Verifier.start (v : Verifier) : VerifyState where
  devBuff := v.devBuff
  hasherBuffer := v.hasherBuffer
  fileCache := v.fileCache
  hasherCache := v.hasherCache
  reads := []

/-- `run_plot_verify` on the file of the given name, if there is one, with at most
`rounds` rounds of its loop. -/
def runPlotVerify (v : Verifier) (name : Text) (file : Option FileEntry) (rounds : Nat) :
    Verdict × VerifyState :=
  match file, split name '_' with
  | some entry, [plotId, startNonce, totalNonces] =>
    match stoull plotId, stoull startNonce, stoll totalNonces with
    | some plotId, some startNonce, some totalNonces =>
      if v.opens then verifyFile v entry plotId startNonce totalNonces rounds v.start
      else (.invalid, v.start)
    | _, _, _ => (.thrown, v.start)
  | _, _ => (.invalid, v.start)

end HyperPlotter.Verify

import HyperPlotter.Foundation.Counter
import HyperPlotter.Foundation.Numerals
import HyperPlotter.Poc.CpuPlotter
import HyperPlotter.Poc.GpuPlotter

/-!
# The self test

`run_test` plots the start nonce on the CPU and a range of nonces on the GPU and
prints the first scoop of both in hexadecimal. The texts agree on every device the
plotter can use; the loop over the range compares an unsigned counter with a count
that may be negative, so it does not always end.
-/

namespace HyperPlotter.Plotter

open Foundation Poc

/-! ## Hexadecimal texts -/

/-- `HEX_CHARS`. -/
def hexChars : Text :=
  ['0', '1', '2', '3', '4', '5', '6', '7', '8', '9', 'a', 'b', 'c', 'd', 'e', 'f']

/-- The two digits `btoh` writes for a byte. -/
def hexDigits (byte : Byte) : Text :=
  [hexChars.getD (byte >>> 4 &&& 0x0f).toNat '0', hexChars.getD (byte &&& 0x0f).toNat '0']

/-- `plotter_base::btoh`. -/
def btoh (data : Memory) (size : Nat) : Text :=
  (List.range size).flatMap fun i : Nat => hexDigits (data i)

private theorem hexDigits_value : ∀ byte : Byte,
    BitVec.ofNat 8 (((hexDigits byte).map hexChars.idxOf).foldl (fun high low => 16 * high + low) 0)
      = byte := by
  decide

/-- The digits of a byte determine it. -/
theorem hexDigits_injective : Function.Injective hexDigits := by
  intro first second same
  rw [← hexDigits_value first, ← hexDigits_value second, same]

/-- The last byte comes last. -/
theorem btoh_succ (data : Memory) (size : Nat) :
    btoh data (size + 1) = btoh data size ++ hexDigits (data size) := by
  simp [btoh, List.range_succ]

/-- Two texts agree exactly when the bytes do. -/
theorem btoh_eq {left right : Memory} (size : Nat) :
    btoh left size = btoh right size ↔ ∀ i : Nat, i < size → left i = right i := by
  induction size with
  | zero => simp [btoh]
  | succ size ih =>
      rw [btoh_succ, btoh_succ]
      constructor
      · intro same i bound
        obtain ⟨before, last⟩ := List.append_inj' same rfl
        rcases Nat.lt_or_eq_of_le (Nat.le_of_lt_succ bound) with earlier | rfl
        · exact ih.mp before i earlier
        · exact hexDigits_injective last
      · intro same
        rw [ih.mpr fun i bound => same i (Nat.lt_succ_of_lt bound), same size (Nat.lt_succ_self _)]

/-! ## The test -/

/-- What `run_test` takes from the options: `num` as `std::stoull` reads it. -/
structure TestOptions where
  plotId : BitVec 64
  startNonce : BitVec 64
  num : Nat

/-- What the memory of a test holds before it is written. -/
structure TestMemory where
  stack : Memory
  cpu : Memory
  device : Memory
  hash : Memory

namespace TestOptions

variable (options : TestOptions)

/-- The start nonce; an unset one comes from the volume of the current directory. -/
def firstNonce (volumeSn : BitVec 32) : BitVec 64 :=
  if options.startNonce = -1 then volumeSn.setWidth 64 <<< 32 else options.startNonce

/-- `(int32_t)std::stoull(args_["num"])`. -/
def nonces : Int := toInt32 options.num

/-- The loop `for (size_t i=0; i<nonces; i+=gplot.global_work_size())` over the device
buffer and the host buffer. None when it has not ended yet. -/
def testLoop (gpu : GpuPlotter) (volumeSn : BitVec 32) :
    Nat → Nat → Memory × Memory → Option (Memory × Memory)
  | 0, _, _ => none
  | rounds + 1, i, buffers =>
    if i < toUInt64 options.nonces then
      testLoop gpu volumeSn rounds (toUInt64 (i + gpu.globalWorkSize))
        (gpu.plot buffers.1 options.plotId (options.firstNonce volumeSn)
          (toUInt64 options.nonces) buffers.2 0)
    else some buffers

/-- `plotter::run_test`: the CPU text and the GPU text. -/
def runTest (gpu : GpuPlotter) (volumeSn : BitVec 32) (memory : TestMemory) (rounds : Nat) :
    Option (Text × Text) :=
  let cplot := cpuPlot memory.stack memory.cpu options.plotId (options.firstNonce volumeSn)
  let chash := btoh cplot 64
  (options.testLoop gpu volumeSn rounds 0 (memory.device, fun _ => 0)).map fun buffers =>
    (chash, btoh (transposition buffers.2 memory.hash 0 0 1) 64)

variable {options} {gpu : GpuPlotter} {volumeSn : BitVec 32}

/-- The counter of the loop, modulo `2^64`. -/
private theorem counter_toUInt64 (turns : Nat) :
    toUInt64 ((counter 18446744073709551616 gpu.globalWorkSize turns : Nat) +
      gpu.globalWorkSize) = counter 18446744073709551616 gpu.globalWorkSize (turns + 1) := by
  rw [counter_succ]
  unfold toUInt64
  omega

/-- The loop ends as soon as its counter has come to the bound. -/
theorem testLoop_isSome (rounds : Nat) : ∀ (turns : Nat) (buffers : Memory × Memory),
    (options.testLoop gpu volumeSn rounds
      (counter 18446744073709551616 gpu.globalWorkSize turns) buffers).isSome ↔
    ∃ more < rounds, toUInt64 options.nonces ≤
      counter 18446744073709551616 gpu.globalWorkSize (turns + more) := by
  induction rounds with
  | zero => simp [testLoop]
  | succ rounds ih =>
      intro turns buffers
      rw [testLoop]
      split
      · next before =>
          rw [counter_toUInt64, ih]
          constructor
          · rintro ⟨more, few, reached⟩
            exact ⟨more + 1, by omega, by rwa [Nat.add_assoc, Nat.add_comm 1] at reached⟩
          · rintro ⟨more, few, reached⟩
            cases more with
            | zero => exact absurd reached (Nat.not_le.mpr before)
            | succ more =>
                exact ⟨more, by omega, by rwa [Nat.add_assoc, Nat.add_comm 1]⟩
      · next reached =>
          exact iff_of_true rfl ⟨0, Nat.succ_pos _, Nat.not_lt.mp reached⟩

/-- One call of the loop plots the start nonce into the first lane of the host buffer. -/
theorem plot_firstLane (supported : gpu.Supported) (buffers : Memory × Memory)
    (plotId nonce : BitVec 64) {nonces : Nat} (some : 0 < nonces) :
    LanePlotted (seedWords plotId nonce) 0
      (gpu.plot buffers.1 plotId nonce nonces buffers.2 0).2 := by
  intro j bound
  have asked : gpu.plot buffers.1 plotId nonce nonces buffers.2 0 =
      gpu.plot buffers.1 plotId nonce (min nonces gpu.globalWorkSize) buffers.2 0 := by
    simp [GpuPlotter.plot, GpuPlotter.compute]
  have held := GpuPlotter.read32_plot supported buffers.1 plotId nonce buffers.2 0
    (Nat.min_le_right nonces gpu.globalWorkSize) (Nat.lt_min.mpr ⟨some, supported.positive⟩) bound
  rw [asked]
  simpa [laneSeed] using held

/-- A loop with nonces leaves the start nonce in the first lane. -/
theorem testLoop_firstLane (supported : gpu.Supported) (some : 0 < toUInt64 options.nonces)
    (rounds : Nat) : ∀ {i : Nat} {buffers after : Memory × Memory},
    (i < toUInt64 options.nonces ∨
      LanePlotted (seedWords options.plotId (options.firstNonce volumeSn)) 0 buffers.2) →
    options.testLoop gpu volumeSn rounds i buffers = .some after →
    LanePlotted (seedWords options.plotId (options.firstNonce volumeSn)) 0 after.2 := by
  induction rounds with
  | zero => exact fun _ ends => nomatch ends
  | succ rounds ih =>
      intro i buffers after plotted ends
      rw [testLoop] at ends
      split at ends
      · exact ih (.inr (plot_firstLane supported buffers _ _ some)) ends
      · next last =>
          obtain rfl := Option.some.inj ends
          exact plotted.resolve_left last

/-- The CPU and the GPU print the same text for a plotted nonce. -/
theorem btoh_firstScoop {plotId nonce : BitVec 64} {buff : Memory}
    (plotted : LanePlotted (seedWords plotId nonce) 0 buff) (stack cpu hash : Memory) :
    btoh (transposition buff hash 0 0 1) 64 = btoh (cpuPlot stack cpu plotId nonce) 64 := by
  refine (btoh_eq 64).mpr fun b bound => ?_
  have onGpu : transposition buff hash (0 : Nat) (0 : Nat) (1 : Nat) (64 * 0 + b : Nat) =
      scoopByte plotId nonce 0 b :=
    transposition_plotted hash (by omega) plotted (by omega) (by omega) bound
  have onCpu := cpuPlot_scoop stack cpu plotId nonce (c := 0) (by omega) bound
  simpa using onGpu.trans onCpu.symm

private theorem read32_unset (i : Int) : Memory.read32 (fun _ => 0) i = 0 := by
  have zeros : Word.ofBytes 0 0 0 0 = 0 := by decide
  exact zeros

/-- The GPU text of a host buffer as `resize` leaves it. -/
theorem btoh_unplotted (hash : Memory) :
    btoh (transposition (fun _ => 0) hash 0 0 1) 64 = List.replicate 128 '0' := by
  have zeros : btoh (fun _ => 0) 64 = List.replicate 128 '0' := by decide
  rw [← zeros]
  refine (btoh_eq 64).mpr fun b bound => ?_
  have word : (transposition (fun _ => 0) hash 0 0 1).read32 (b / 4 : Nat) = 0 := by
    have gathered := read32_transposition (fun _ => 0) hash 0 0 (n := 1) (t := 0) (w := b / 4)
      (by omega) (by omega)
    have unset : scoopSource (fun _ => 0) 0 (0 + ((0 : Nat) : Int)) (b / 4) = 0 := by
      unfold scoopSource
      split
      · exact read32_unset _
      · exact read32_unset _
    rw [unset] at gathered
    simpa using gathered
  have byte := Memory.byte_read32 (transposition (fun _ => 0) hash 0 0 1) ((b / 4 : Nat) : Int)
    (k := b % 4) (by omega)
  rw [show 4 * ((b / 4 : Nat) : Int) + ((b % 4 : Nat) : Int) = b by omega, word] at byte
  rw [← byte]
  simp [Word.byte]

/-- There are nonces to test unless the low 32 bits of `num` are 0. -/
private theorem toUInt64_nonces_pos : 0 < toUInt64 options.nonces ↔ options.nonces ≠ 0 := by
  unfold toUInt64 nonces toInt32
  omega

/-- A count the counter does not pass is negative, and nearer to 0 than the divisor. -/
private theorem toUInt64_nonces_add_le {divisor : Nat} (small : divisor ≤ 32768) :
    toUInt64 options.nonces + divisor ≤ 18446744073709551616 ↔
      0 ≤ options.nonces ∨ (divisor : Int) ≤ -options.nonces := by
  unfold toUInt64 nonces toInt32
  omega

/-- The test ends exactly when its counter comes to its count. -/
theorem runTest_ends (supported : gpu.Supported) (memory : TestMemory) :
    (∃ rounds, (options.runTest gpu volumeSn memory rounds).isSome) ↔
      0 ≤ options.nonces ∨
        (gpu.globalWorkSize.gcd 18446744073709551616 : Int) ≤ -options.nonces := by
  have divisor : gpu.globalWorkSize.gcd 18446744073709551616 ≤ 32768 :=
    (Nat.gcd_le_left _ supported.positive).trans supported.bounded
  have ends : ∀ rounds, (options.testLoop gpu volumeSn rounds (counter _ _ 0) _).isSome ↔ _ :=
    fun rounds => testLoop_isSome rounds 0 (memory.device, fun _ => 0)
  simp only [counter_zero, Nat.zero_add] at ends
  rw [← toUInt64_nonces_add_le divisor, ← exists_le_counter (by decide)]
  simp only [runTest, Option.isSome_map, ends]
  constructor
  · rintro ⟨_, turns, _, reached⟩
    exact ⟨turns, reached⟩
  · rintro ⟨turns, reached⟩
    exact ⟨turns + 1, turns, Nat.lt_succ_self turns, reached⟩

/-- With `num` unset the count is -1, which no multiple of sixteen passes. -/
theorem runTest_unset (supported : gpu.Supported) (unset : options.num = 18446744073709551615)
    (memory : TestMemory) (rounds : Nat) :
    options.runTest gpu volumeSn memory rounds = none := by
  have count : options.nonces = -1 := by
    simp [nonces, unset, toInt32]
  have lanes : 16 ∣ gpu.globalWorkSize.gcd 18446744073709551616 :=
    Nat.dvd_gcd (Nat.dvd_of_mod_eq_zero supported.aligned) (by decide)
  have large := Nat.le_of_dvd (Nat.gcd_pos_of_pos_left _ supported.positive) lanes
  have ends : (∃ rounds, (options.runTest gpu volumeSn memory rounds).isSome) ↔ _ :=
    runTest_ends supported memory
  have never := mt ends.mp (by omega)
  simpa using mt (Exists.intro rounds) never

/-- The test ends exactly when its count of nonces, an `int32_t` the loop compares as a
`size_t`, is not negative, or so far below 0 that the counter takes a value between it and
0. A test that has ended printed the same text twice, unless it had no nonce to plot. -/
theorem runTest_texts (supported : gpu.Supported) (options : TestOptions)
    (volumeSn : BitVec 32) (memory : TestMemory) :
    ((∃ rounds, (options.runTest gpu volumeSn memory rounds).isSome) ↔
      0 ≤ options.nonces ∨
        (gpu.globalWorkSize.gcd 18446744073709551616 : Int) ≤ -options.nonces) ∧
    ∀ rounds texts, options.runTest gpu volumeSn memory rounds = some texts →
      texts.2 = if options.nonces = 0 then List.replicate 128 '0' else texts.1 := by
  refine ⟨runTest_ends supported memory, fun rounds texts ended => ?_⟩
  obtain ⟨buffers, loop, rfl⟩ := Option.map_eq_some_iff.mp ended
  split
  · next none =>
      have zero : toUInt64 options.nonces = 0 := by
        rw [none]
        rfl
      cases rounds with
      | zero => exact nomatch loop
      | succ rounds =>
          rw [testLoop, if_neg (by omega)] at loop
          obtain rfl := Option.some.inj loop
          exact btoh_unplotted memory.hash
  · next nonces =>
      have some := toUInt64_nonces_pos.mpr nonces
      exact btoh_firstScoop (testLoop_firstLane supported some rounds (.inl some) loop) _ _ _

/-- A device of 32768 lanes and a count of -32768. -/
theorem runTest_texts_negative :
    (∃ rounds, (TestOptions.runTest ⟨1, 2, 4294934528⟩ (GpuPlotter.inOrder 32768) 3
      ⟨fun _ => 0, fun _ => 0, fun _ => 0, fun _ => 0⟩ rounds).isSome) :=
  (runTest_texts (GpuPlotter.inOrder_supported (by decide) (by decide) (by decide))
    ⟨1, 2, 4294934528⟩ 3 ⟨fun _ => 0, fun _ => 0, fun _ => 0, fun _ => 0⟩).1.mpr
      (.inr (by decide))

end TestOptions

end HyperPlotter.Plotter

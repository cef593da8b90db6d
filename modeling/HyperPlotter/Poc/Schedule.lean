import HyperPlotter.Poc.GpuPlotter

/-!
# The launch schedule

The launches of one call of `gpu_plotter::plot` and the hashes each runs. They
run the chain from 8192 down to 0, with the exclusive or in the last launch,
exactly for the steps that divide 8192 or 8193.
-/

namespace HyperPlotter.Poc

open Foundation

/-- The hashes of `for (int hash=start; hash > end; hash -= 1)`. -/
def hashRun (first last : Int) : List Int :=
  (List.range (first - last).toNat).map fun n : Nat => first - n

@[simp] theorem mem_hashRun {first last hash : Int} :
    hash ∈ hashRun first last ↔ last < hash ∧ hash ≤ first := by
  unfold hashRun
  rw [List.mem_map]
  constructor
  · rintro ⟨n, member, rfl⟩
    have bound := List.mem_range.mp member
    omega
  · rintro ⟨lower, upper⟩
    exact ⟨(first - hash).toNat, List.mem_range.mpr (by omega), by omega⟩

/-- A run is cut anywhere. -/
theorem hashRun_append {first middle last : Int} (upper : middle ≤ first) (lower : last ≤ middle) :
    hashRun first middle ++ hashRun middle last = hashRun first last := by
  have count : (first - last).toNat = (first - middle).toNat + (middle - last).toNat := by omega
  unfold hashRun
  rw [count, List.range_add, List.map_append, List.map_map]
  congr 1
  apply List.map_congr_left
  intro n _
  simp only [Function.comp_apply]
  omega

/-- The kernel's loop runs these hashes. -/
theorem kernelHashLoop_eq_foldl (args : KernelArgs) (gid : Int) (n : Nat) :
    ∀ (hash : Int) (state : KernelState), kernelHashLoop args gid n hash state =
      (hashRun hash (hash - n)).foldl (fun state hash => kernelHash args gid hash state.buffer)
        state := by
  induction n with
  | zero =>
      intro hash state
      have none : hashRun hash (hash - (0 : Nat)) = [] := by simp [hashRun]
      rw [none]
      rfl
  | succ n ih =>
      intro hash state
      have first : hashRun hash (hash - 1) = [hash] := by
        rw [hashRun, show (hash - (hash - 1)).toNat = 1 by omega]
        simp
      rw [kernelHashLoop, ih, ← hashRun_append (show hash - 1 ≤ hash by omega)
        (show hash - (n + 1 : Nat) ≤ hash - 1 by omega), first,
        show hash - (n + 1 : Nat) = hash - 1 - n by omega]
      rfl

namespace GpuPlotter

section

variable (gpu : GpuPlotter) (plotId startNonce : BitVec 64) (nonces : Nat)

/-- The launches of the loop from `i` on, in order. -/
def launches : Nat → Int → List KernelArgs
  | 0, _ => []
  | fuel + 1, i =>
    if i > 0 then
      gpu.launchArgs plotId startNonce nonces i :: launches fuel (toInt32 (i - gpu.step))
    else []

/-- The loop runs its launches one after the other. -/
theorem launchLoop_eq_foldl (fuel : Nat) : ∀ (i : Int) (devBuff : Memory),
    gpu.launchLoop plotId startNonce nonces fuel i devBuff =
      (gpu.launches plotId startNonce nonces fuel i).foldl
        (fun devBuff args => gpu.launch args devBuff) devBuff := by
  induction fuel with
  | zero => exact fun _ _ => rfl
  | succ fuel ih =>
      intro i devBuff
      rw [launchLoop, launches]
      split
      · rw [ih, List.foldl_cons]
      · rfl

/-- All launches of one call. -/
def schedule : List KernelArgs :=
  gpu.launches plotId startNonce (min nonces gpu.globalWorkSize) 2147483648 8192

/-- A call computes by its schedule. -/
theorem compute_eq_schedule (devBuff : Memory) : gpu.compute devBuff plotId startNonce nonces =
    (gpu.schedule plotId startNonce nonces).foldl (fun devBuff args => gpu.launch args devBuff)
      devBuff :=
  gpu.launchLoop_eq_foldl plotId startNonce _ _ 8192 devBuff

end

/-- The launches run the hashes from `i` down to 0, each once and in this order,
and the last one alone does the exclusive or. -/
structure RunsChain (calls : List KernelArgs) (i : Int) : Prop where
  hashes : calls.flatMap (fun args => hashRun args.first args.last) = hashRun i (-1)
  xor : calls.map (fun args => decide (args.last = -1)) =
    List.replicate (calls.length - 1) false ++ [true]

/-- One launch before the others. -/
theorem RunsChain.cons {args : KernelArgs} {calls : List KernelArgs} {i : Int}
    (chain : RunsChain calls i) (next : args.last = i) (upper : i ≤ args.first) (more : 0 ≤ i) :
    RunsChain (args :: calls) args.first := by
  constructor
  · rw [List.flatMap_cons, chain.hashes, next, hashRun_append upper (by omega)]
  · have some_call : 0 < calls.length := by
      rw [← List.length_map (fun args : KernelArgs => decide (args.last = -1)), chain.xor]
      simp
    rw [List.map_cons, chain.xor, next, decide_eq_false (by omega), List.length_cons,
      show calls.length + 1 - 1 = calls.length - 1 + 1 by omega, List.replicate_succ,
      List.cons_append]

/-- The last launch. -/
theorem RunsChain.single {args : KernelArgs} (last : args.last = -1) :
    RunsChain [args] args.first := by
  constructor
  · rw [List.flatMap_singleton, last]
  · rw [List.map_singleton, decide_eq_true last]
    rfl

section

variable {gpu : GpuPlotter} (plotId startNonce : BitVec 64) (nonces : Nat)

/-- `end` is the next start, but -1 in the launch that reaches it. -/
private theorem launchArgs_last (positive : 1 ≤ gpu.step) (small : gpu.step ≤ 2147483647) {i : Int}
    (lower : 0 < i) (upper : i ≤ 8192) :
    (gpu.launchArgs plotId startNonce nonces i).last =
      if i = gpu.step then -1 else i - gpu.step := by
  unfold launchArgs
  simp only []
  rw [toInt32_eq (x := i - gpu.step) (by omega) (by omega)]
  split
  · rw [toInt32_eq (by omega) (by omega)]
    omega
  · rw [toInt32_eq (by omega) (by omega)]
    omega

/-- Behind hash 0 there is no launch. -/
private theorem launches_done {fuel : Nat} {i : Int} (done : i ≤ 0) :
    gpu.launches plotId startNonce nonces fuel i = [] := by
  cases fuel with
  | zero => rfl
  | succ fuel => rw [launches, if_neg (by omega)]

/-- From a multiple of the step, or one less, the launches run the chain. -/
private theorem launches_runsChain (positive : 1 ≤ gpu.step) (small : gpu.step ≤ 2147483647)
    (fuel : Nat) : ∀ i : Int, 0 < i → i ≤ 8192 → i ≤ fuel →
      gpu.step ∣ i ∨ gpu.step ∣ i + 1 →
      RunsChain (gpu.launches plotId startNonce nonces fuel i) i := by
  induction fuel with
  | zero =>
      intro i lower _ enough
      omega
  | succ fuel ih =>
      intro i lower upper enough divides
      have last := launchArgs_last plotId startNonce nonces positive small lower upper
      rw [launches, if_pos lower, toInt32_eq (by omega) (by omega)]
      by_cases more : gpu.step < i
      · rw [if_neg (by omega)] at last
        refine (ih (i - gpu.step) (by omega) (by omega) (by omega) ?_).cons last
          (by show i - gpu.step ≤ i; omega) (by omega)
        rcases divides with whole | less
        · exact .inl (Int.dvd_sub whole (Int.dvd_refl _))
        · refine .inr ?_
          rw [show i - gpu.step + 1 = i + 1 - gpu.step by omega]
          exact Int.dvd_sub less (Int.dvd_refl _)
      · rw [launches_done plotId startNonce nonces (by omega)]
        refine RunsChain.single (last.trans ?_)
        rcases divides with whole | less
        · have bound := Int.le_of_dvd lower whole
          rw [if_pos (by omega)]
        · have bound := Int.le_of_dvd (by omega) less
          split <;> omega

/-- From any other hash the last launch goes below hash 0. -/
private theorem launches_negative (positive : 1 ≤ gpu.step) (small : gpu.step ≤ 2147483647)
    (fuel : Nat) : ∀ i : Int, 0 < i → i ≤ 8192 → i ≤ fuel →
      ¬gpu.step ∣ i → ¬gpu.step ∣ i + 1 →
      -1 ∈ (gpu.launches plotId startNonce nonces fuel i).flatMap
        fun args => hashRun args.first args.last := by
  induction fuel with
  | zero =>
      intro i lower _ enough
      omega
  | succ fuel ih =>
      intro i lower upper enough whole less
      have last := launchArgs_last plotId startNonce nonces positive small lower upper
      have other : i ≠ gpu.step := by
        rintro rfl
        exact whole (Int.dvd_refl _)
      have other' : i + 1 ≠ gpu.step := by
        intro same
        rw [same] at less
        exact less (Int.dvd_refl _)
      rw [if_neg other] at last
      rw [launches, if_pos lower, toInt32_eq (by omega) (by omega), List.flatMap_cons]
      by_cases more : gpu.step < i
      · refine List.mem_append_right _ (ih (i - gpu.step) (by omega) (by omega) (by omega) ?_ ?_)
        · intro divides
          have sum := Int.dvd_add divides (Int.dvd_refl gpu.step)
          rw [Int.sub_add_cancel] at sum
          exact whole sum
        · intro divides
          rw [show i - gpu.step + 1 = i + 1 - gpu.step by omega] at divides
          have sum := Int.dvd_add divides (Int.dvd_refl gpu.step)
          rw [Int.sub_add_cancel] at sum
          exact less sum
      · refine List.mem_append_left _ (mem_hashRun.mpr ⟨?_, ?_⟩)
        · rw [last]
          omega
        · show -1 ≤ i
          omega

/-- Other steps run a negative hash. -/
private theorem schedule_not_runsChain (positive : 1 ≤ gpu.step) (small : gpu.step ≤ 2147483647)
    (whole : ¬gpu.step ∣ 8192) (less : ¬gpu.step ∣ 8193) :
    ¬RunsChain (gpu.schedule plotId startNonce nonces) 8192 := by
  intro chain
  have negative := launches_negative plotId startNonce (min nonces gpu.globalWorkSize) positive small
    2147483648 8192 (by decide) (by decide) (by decide) whole less
  have lower := (mem_hashRun.mp (chain.hashes ▸ negative)).1
  omega

/-- A call runs the hash chain, with one exclusive or at its end, exactly for the
steps that divide 8192 or 8193. -/
theorem schedule_runsChain_iff (positive : 1 ≤ gpu.step) (small : gpu.step ≤ 2147483647) :
    RunsChain (gpu.schedule plotId startNonce nonces) 8192 ↔ gpu.step ∣ 8192 ∨ gpu.step ∣ 8193 := by
  constructor
  · intro chain
    by_contra neither
    exact schedule_not_runsChain plotId startNonce nonces positive small
      (fun whole => neither (.inl whole)) (fun less => neither (.inr less)) chain
  · exact launches_runsChain plotId startNonce _ positive small 2147483648 8192 (by decide)
      (by decide) (by decide)

/-- Sixteen lanes and the default step of 32. -/
theorem schedule_runsChain_iff_sixteen :
    RunsChain ((inOrder 16).schedule 1 0 16) 8192 ↔ (32 : Int) ∣ 8192 ∨ (32 : Int) ∣ 8193 :=
  schedule_runsChain_iff 1 0 16 (show 1 ≤ (inOrder 16).step by decide)
    (show (inOrder 16).step ≤ 2147483647 by decide)

/-- Steps of 100 hashes do not end at hash 0. -/
theorem not_runsChain_hundred :
    ¬RunsChain (({ inOrder 16 with
      step := 100 } : GpuPlotter).schedule 1 0 16) 8192 :=
  schedule_not_runsChain 1 0 16 (show (1 : Int) ≤ 100 by decide)
    (show (100 : Int) ≤ 2147483647 by decide) (show ¬(100 : Int) ∣ 8192 by decide)
    (show ¬(100 : Int) ∣ 8193 by decide)

end

end GpuPlotter

end HyperPlotter.Poc

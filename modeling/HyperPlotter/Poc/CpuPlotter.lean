import HyperPlotter.Poc.NonceChain

/-!
# The CPU plotter

`cpu_plotter::plot` on its byte array `data_`: the hash chain written downwards
in place, the exclusive or, and the in-place swap of mirrored odd hashes.
`cpuPlot_scoop` identifies the result with the nonce's scoops.
-/

namespace HyperPlotter.Poc

open Foundation

/-- `Shabal256::digest`: close into the buffer, then initialise again. -/
def shabalDigest (cc : ShabalContext) (data : Memory) (des : Int) : ShabalContext × Memory :=
  let closed := shabalClose cc data des
  (shabalInit closed.1, closed.2)

/-- The loop `for (int i = PLOT_SIZE; i > 0; i -= HASH_SIZE)`, with
`i = HASH_SIZE * m` for the loop counter `m`. -/
def cpuHashLoop : Nat → ShabalContext → Memory → ShabalContext × Memory
  | 0, shabal, data => (shabal, data)
  | m + 1, shabal, data =>
    let i : Nat := hashSize * (m + 1)
    let len := plotTotalSize - i
    let len := if len > hashCap then hashCap else len
    let shabal := shabalCore shabal data i len
    let round := shabalDigest shabal data ((i : Int) - hashSize)
    cpuHashLoop m round.1 round.2

/-- The loop `data_[i] ^= hfinal[i & 0x1f]` over the first `n` bytes. -/
def cpuXorLoop (hfinal data : Memory) : Nat → Memory
  | 0 => data
  | i + 1 =>
    let data := cpuXorLoop hfinal data i
    data.write8 i (data i ^^^ hfinal (i % 32 : Nat))

/-- `BYTES_SWAP_64`. -/
def bytesSwap64 (data : Memory) (a b : Int) : Memory :=
  let t := data.read64 a
  (data.write64 a (data.read64 b)).write64 b t

/-- The swap loop: round `t` has `i = 32 + 64t` and `j = PLOT_SIZE - 32 - 64t`. -/
def cpuSwapLoop (data : Memory) : Nat → Memory
  | 0 => data
  | t + 1 =>
    let data := cpuSwapLoop data t
    let i : Int := 32 + 64 * t
    let j : Int := plotSize - hashSize - 64 * t
    let data := bytesSwap64 data (i + 0) (j + 0)
    let data := bytesSwap64 data (i + 8) (j + 8)
    let data := bytesSwap64 data (i + 16) (j + 16)
    bytesSwap64 data (i + 24) (j + 24)

/-- `cpu_plotter::plot`: the new contents of `data_`. The hash context and
`hfinal` are locals, `stack` is what their memory held before. -/
def cpuPlot (stack data : Memory) (plotId nonce : BitVec 64) : Memory :=
  let data := data.write64 plotSize (htonUll plotId)
  let data := data.write64 (plotSize + 8) (htonUll nonce)
  let shabal := shabalInit ⟨Shabal.initial, stack, 0⟩
  let chained := cpuHashLoop hashCount shabal data
  let shabal := shabalCore chained.1 chained.2 0 plotTotalSize
  let hfinal := (shabalClose shabal stack 0).2
  let data := cpuXorLoop hfinal chained.2 plotSize
  -- `i < PLOT_SIZE / 2` ends the swap after 2048 rounds
  cpuSwapLoop data 2048

private theorem getD_of_lt {words : List Word} {j : Nat} (bound : j < words.length) :
    words.getD j 0 = words[j] := by
  simp [List.getD_eq_getElem?_getD, bound]

/-! ## The hash chain -/

/-- `data` ends with the last `n` hashes and the seed. -/
def ChainAt (seed : List Word) (n : Nat) (data : Memory) : Prop :=
  ∀ j : Nat, j < 8 * n + 4 → data.read32 (65536 - 8 * n + j) = (chain seed n ++ seed).getD j 0

/-- One round of the hash loop puts the next hash in front. -/
theorem cpuHashRound {seed : List Word} (length : seed.length = 4) {m n : Nat}
    (count : m + 1 + n = 8192) {shabal : ShabalContext} (fresh : shabal.Fresh) {data : Memory}
    (held : ChainAt seed n data) :
    let i : Nat := hashSize * (m + 1)
    let len := if plotTotalSize - i > hashCap then hashCap else plotTotalSize - i
    let round := shabalDigest (shabalCore shabal data i len) data ((i : Int) - hashSize)
    round.1.Fresh ∧ ChainAt seed (n + 1) round.2 := by
  intro i len round
  have messageLength : ((chain seed n ++ seed).take capWords).length =
      if 8 * n + 4 > 1024 then 1024 else 8 * n + 4 := by
    rw [List.length_take, List.length_append, chain_length, length]
    unfold capWords
    split <;> omega
  have lenEq : len = 4 * ((chain seed n ++ seed).take capWords).length := by
    have rest : plotTotalSize - i = 4 * (8 * n + 4) := by
      simp only [i, plotTotalSize, plotSize, scoopsPerPlot, scoopSize, hashesPerScoop, seedLength,
        hashSize]
      omega
    rw [messageLength]
    simp only [len, rest, hashCap]
    by_cases capped : 8 * n + 4 > 1024
    · rw [if_pos capped, if_pos (by omega)]
    · rw [if_neg capped, if_neg (by omega)]
  have source : ∀ j : Nat, (bound : j < ((chain seed n ++ seed).take capWords).length) →
      data.read32 (8 * ((m : Int) + 1) + j) = ((chain seed n ++ seed).take capWords)[j] := by
    intro j bound
    have short : j < (chain seed n ++ seed).length := by
      rw [List.length_take] at bound
      omega
    rw [List.getElem_take, ← getD_of_lt short, ← held j (by
      rw [List.length_append, chain_length, length] at short
      exact short)]
    congr 1
    omega
  have position : ((i : Nat) : Int) = 4 * (8 * ((m : Int) + 1)) := by
    simp only [i, hashSize]
    omega
  have target : 4 * (8 * ((m : Int) + 1)) - (hashSize : Nat) = 4 * (8 * (m : Int)) := by
    unfold hashSize
    omega
  obtain ⟨closedFresh, closed⟩ := shabalClose_core fresh data (8 * (m : Int)) source
  have roundEq : round = (shabalInit (shabalClose (shabalCore shabal data (4 * (8 * ((m : Int) + 1)))
      (4 * ((chain seed n ++ seed).take capWords).length)) data (4 * (8 * (m : Int)))).1,
      (shabalClose (shabalCore shabal data (4 * (8 * ((m : Int) + 1)))
      (4 * ((chain seed n ++ seed).take capWords).length)) data (4 * (8 * (m : Int)))).2) := by
    simp only [round, shabalDigest, lenEq, position, target]
  rw [roundEq]
  refine ⟨⟨rfl, rfl⟩, fun j bound => ?_⟩
  rw [closed, chain_succ_append_getD]
  by_cases head : j < 8
  · have place : (65536 - 8 * ((n + 1 : Nat) : Int) + j - 8 * (m : Int)).toNat = j := by omega
    rw [if_pos (by omega), if_pos head, place, nextHash]
  · rw [if_neg (by omega), if_neg head, ← held (j - 8) (by omega)]
    exact congrArg data.read32 (by omega)

/-- The hash loop leaves the whole chain in front of the seed. -/
theorem cpuHashLoop_chain {seed : List Word} (length : seed.length = 4) (m : Nat) :
    ∀ {n : Nat} {shabal : ShabalContext} {data : Memory}, m + n = 8192 → shabal.Fresh →
      ChainAt seed n data →
      (cpuHashLoop m shabal data).1.Fresh ∧ ChainAt seed 8192 (cpuHashLoop m shabal data).2 := by
  induction m with
  | zero =>
      intro n shabal data count fresh held
      have all : n = 8192 := by omega
      rw [cpuHashLoop, ← all]
      exact ⟨fresh, held⟩
  | succ m ih =>
      intro n shabal data count fresh held
      obtain ⟨nextFresh, nextHeld⟩ := cpuHashRound length (by omega) fresh held
      rw [cpuHashLoop]
      exact ih (n := n + 1) (by omega) nextFresh nextHeld

/-! ## The exclusive or -/

/-- A byte after `n` rounds of the exclusive or. -/
theorem cpuXorLoop_apply (hfinal data : Memory) (n : Nat) (a : Int) :
    cpuXorLoop hfinal data n a =
      if 0 ≤ a ∧ a < n then data a ^^^ hfinal (a % 32) else data a := by
  induction n with
  | zero => rw [cpuXorLoop, if_neg (by omega)]
  | succ i ih =>
      rw [cpuXorLoop]
      by_cases here : a = i
      · subst here
        have before : ¬(0 ≤ (i : Int) ∧ (i : Int) < i) := by omega
        rw [if_neg before] at ih
        rw [Memory.write8_same, if_pos (by omega), ih]
        rfl
      · rw [Memory.write8_of_ne _ _ here, ih]
        by_cases before : 0 ≤ a ∧ a < i
        · rw [if_pos before, if_pos (by omega)]
        · rw [if_neg before, if_neg (by omega)]

/-- A word after the exclusive or over the whole nonce. -/
theorem read32_cpuXorLoop (hfinal data : Memory) {j : Nat} (bound : j < 65536) :
    (cpuXorLoop hfinal data plotSize).read32 j =
      data.read32 j ^^^ hfinal.read32 (j % 8 : Nat) := by
  have size : plotSize = 262144 := rfl
  have byte : ∀ k : Int, 0 ≤ k → k < 4 → cpuXorLoop hfinal data plotSize (4 * j + k) =
      data (4 * j + k) ^^^ hfinal (4 * (j % 8 : Nat) + k) := by
    intro k lower upper
    rw [cpuXorLoop_apply, if_pos (by omega)]
    congr 2
    omega
  have b₀ := byte 0 (by omega) (by omega)
  rw [Int.add_zero, Int.add_zero] at b₀
  unfold Memory.read32
  rw [b₀, byte 1 (by omega) (by omega), byte 2 (by omega) (by omega),
    byte 3 (by omega) (by omega), Word.ofBytes_xor]

/-! ## The swap -/

/-- `BYTES_SWAP_64` exchanges two pairs of words. -/
theorem read32_bytesSwap64 (data : Memory) {p q : Int} (apart : p + 2 ≤ q) (j : Int) :
    (bytesSwap64 data (4 * p) (4 * q)).read32 j =
      if p ≤ j ∧ j < p + 2 then data.read32 (q + (j - p))
      else if q ≤ j ∧ j < q + 2 then data.read32 (p + (j - q)) else data.read32 j := by
  unfold bytesSwap64
  rw [Memory.read32_write64, Memory.read32_write64, Memory.lowWord_read64, Memory.highWord_read64,
    Memory.lowWord_read64, Memory.highWord_read64]
  by_cases first : p ≤ j ∧ j < p + 2
  · rw [if_pos first, if_neg (by omega), if_neg (by omega)]
    by_cases low : j = p
    · rw [if_pos low]
      exact congrArg data.read32 (by omega)
    · rw [if_neg low, if_pos (by omega)]
      exact congrArg data.read32 (by omega)
  · rw [if_neg first]
    by_cases second : q ≤ j ∧ j < q + 2
    · rw [if_pos second]
      by_cases low : j = q
      · rw [if_pos low]
        exact congrArg data.read32 (by omega)
      · rw [if_neg low, if_pos (by omega)]
        exact congrArg data.read32 (by omega)
    · rw [if_neg second, if_neg (by omega), if_neg (by omega), if_neg (by omega),
        if_neg (by omega)]

/-- One round of the swap loop exchanges two hashes of eight words. -/
private theorem read32_swapRound (data : Memory) {p q : Int} (apart : p + 8 ≤ q) (j : Int) :
    (bytesSwap64 (bytesSwap64 (bytesSwap64 (bytesSwap64 data (4 * p + 0) (4 * q + 0))
      (4 * p + 8) (4 * q + 8)) (4 * p + 16) (4 * q + 16)) (4 * p + 24) (4 * q + 24)).read32 j =
      if p ≤ j ∧ j < p + 8 then data.read32 (q + (j - p))
      else if q ≤ j ∧ j < q + 8 then data.read32 (p + (j - q)) else data.read32 j := by
  have place : ∀ x : Int, 4 * x + 8 = 4 * (x + 2) ∧ 4 * x + 16 = 4 * (x + 4) ∧
      4 * x + 24 = 4 * (x + 6) := by omega
  rw [(place p).1, (place q).1, (place p).2.1, (place q).2.1, (place p).2.2, (place q).2.2,
    Int.add_zero, Int.add_zero]
  simp only [read32_bytesSwap64 _ (show p + 6 + 2 ≤ q + 6 by omega),
    read32_bytesSwap64 _ (show p + 4 + 2 ≤ q + 4 by omega),
    read32_bytesSwap64 _ (show p + 2 + 2 ≤ q + 2 by omega),
    read32_bytesSwap64 _ (show p + 2 ≤ q by omega)]
  grind

/-- The words after `t` rounds of the swap loop. -/
theorem read32_cpuSwapLoop (data : Memory) {t : Nat} (rounds : t ≤ 2048) {j : Int}
    (lower : 0 ≤ j) (upper : j < 65536) :
    (cpuSwapLoop data t).read32 j =
      if j / 8 % 2 = 1 ∧ (j / 8 < 2 * t ∨ 8192 - j / 8 < 2 * t)
      then data.read32 (8 * (8192 - j / 8) + j % 8) else data.read32 j := by
  induction t generalizing j with
  | zero => rw [cpuSwapLoop, if_neg (by omega)]
  | succ t ih =>
      have size : ((plotSize : Nat) : Int) - hashSize - 64 * t = 4 * (65528 - 16 * (t : Int)) := by
        simp only [plotSize, scoopsPerPlot, scoopSize, hashesPerScoop, hashSize]
        omega
      have start : 32 + 64 * (t : Int) = 4 * (8 + 16 * (t : Int)) := by omega
      rw [cpuSwapLoop]
      simp only [size, start]
      rw [read32_swapRound _ (by omega)]
      by_cases first : 8 + 16 * (t : Int) ≤ j ∧ j < 8 + 16 * (t : Int) + 8
      · rw [if_pos first, ih (by omega) (by omega) (by omega), if_neg (by omega),
          if_pos (by omega)]
        exact congrArg data.read32 (by omega)
      · rw [if_neg first]
        by_cases second : 65528 - 16 * (t : Int) ≤ j ∧ j < 65528 - 16 * (t : Int) + 8
        · rw [if_pos second, ih (by omega) (by omega) (by omega), if_neg (by omega),
            if_pos (by omega)]
          exact congrArg data.read32 (by omega)
        · rw [if_neg second, ih (by omega) lower upper]
          by_cases done : j / 8 % 2 = 1 ∧ (j / 8 < 2 * (t : Int) ∨ 8192 - j / 8 < 2 * (t : Int))
          · rw [if_pos done, if_pos (by omega)]
          · rw [if_neg done, if_neg (by omega)]

/-! ## The whole plot -/

private theorem seeded_chain (data : Memory) (plotId nonce : BitVec 64) :
    ChainAt (seedWords plotId nonce) 0
      ((data.write64 plotSize (htonUll plotId)).write64 (plotSize + 8) (htonUll nonce)) := by
  have first : ((plotSize : Nat) : Int) = 4 * 65536 := rfl
  have second : ((plotSize : Nat) : Int) + 8 = 4 * 65538 := rfl
  intro j bound
  rw [second, first, Memory.read32_write64, Memory.read32_write64, chain_zero]
  have cases : j = 0 ∨ j = 1 ∨ j = 2 ∨ j = 3 := by omega
  rcases cases with rfl | rfl | rfl | rfl <;> rfl

/-- The state of `cpu_plotter::plot` before the exclusive or: the chain with
its seed, and the final hash. -/
private theorem cpuPlot_hashed (stack data : Memory) (plotId nonce : BitVec 64) :
    ∃ chained hfinal : Memory, cpuPlot stack data plotId nonce =
        cpuSwapLoop (cpuXorLoop hfinal chained plotSize) 2048 ∧
      ChainAt (seedWords plotId nonce) 8192 chained ∧
      ∀ w : Nat, w < 8 → hfinal.read32 w = (finalHash (seedWords plotId nonce)).getD w 0 := by
  have length : (seedWords plotId nonce).length = 4 := rfl
  obtain ⟨fresh, held⟩ := cpuHashLoop_chain length hashCount (n := 0)
    (Nat.add_zero _) (show (shabalInit ⟨Shabal.initial, stack, 0⟩).Fresh from ⟨rfl, rfl⟩)
    (seeded_chain data plotId nonce)
  refine ⟨_, _, rfl, held, fun w bound => ?_⟩
  have total : plotTotalSize =
      4 * (chain (seedWords plotId nonce) hashCount ++ seedWords plotId nonce).length := by
    rw [List.length_append, chain_length, length]
    rfl
  have origin : (0 : Int) = 4 * 0 := rfl
  have source : ∀ j : Nat, (bound : j <
      (chain (seedWords plotId nonce) hashCount ++ seedWords plotId nonce).length) →
      (cpuHashLoop hashCount (shabalInit ⟨Shabal.initial, stack, 0⟩)
        ((data.write64 plotSize (htonUll plotId)).write64 (plotSize + 8)
          (htonUll nonce))).2.read32 (0 + j) =
        (chain (seedWords plotId nonce) hashCount ++ seedWords plotId nonce)[j] := by
    intro j bound
    rw [← getD_of_lt bound]
    rw [List.length_append, chain_length, length] at bound
    have word := held j bound
    rw [show (65536 : Int) - 8 * ((8192 : Nat) : Int) + j = 0 + j by omega] at word
    exact word
  obtain ⟨_, closed⟩ := shabalClose_core fresh stack 0 source
  rw [← total, ← origin] at closed
  rw [closed, if_pos (by omega), finalHash]
  congr 1

/-- Every word `cpu_plotter::plot` leaves in `data_`, for any earlier contents. -/
theorem read32_cpuPlot (stack data : Memory) (plotId nonce : BitVec 64) {j : Nat}
    (bound : j < 65536) :
    (cpuPlot stack data plotId nonce).read32 j =
      plotWord (seedWords plotId nonce)
        (if j / 8 % 2 = 1 then 8 * (8192 - j / 8) + j % 8 else j) := by
  obtain ⟨chained, hfinal, plotEq, held, digest⟩ := cpuPlot_hashed stack data plotId nonce
  have word : ∀ i : Nat, i < 65536 → (cpuXorLoop hfinal chained plotSize).read32 i =
      plotWord (seedWords plotId nonce) i := by
    intro i small
    have chainWord := held i (by omega)
    rw [show (65536 : Int) - 8 * ((8192 : Nat) : Int) + i = i by omega] at chainWord
    rw [read32_cpuXorLoop _ _ small, digest _ (by omega), chainWord, plotWord,
      List.getD_eq_getElem?_getD, List.getElem?_append_left (by rw [chain_length]; omega),
      ← List.getD_eq_getElem?_getD]
    rfl
  rw [plotEq, read32_cpuSwapLoop _ (Nat.le_refl _) (by omega) (by omega)]
  by_cases odd : j / 8 % 2 = 1
  · rw [if_pos odd, if_pos (by omega), ← word _ (by omega)]
    exact congrArg _ (by omega)
  · rw [if_neg odd, if_neg (by omega), word _ bound]

/-- The words `cpu_plotter::plot` leaves at scoop `c`. -/
theorem read32_cpuPlot_scoop (stack data : Memory) (plotId nonce : BitVec 64) {c w : Nat}
    (scoop : c < 4096) (word : w < 16) :
    (cpuPlot stack data plotId nonce).read32 (16 * c + w : Nat) =
      scoopWord plotId nonce c w := by
  rw [read32_cpuPlot _ _ _ _ (by omega), scoopWord]
  by_cases first : w < 8
  · rw [if_pos first, if_neg (by omega)]
    exact congrArg _ (by omega)
  · rw [if_neg first, if_pos (by omega)]
    exact congrArg _ (by omega)

/-- The bytes `cpu_plotter::plot` leaves at scoop `c`. -/
theorem cpuPlot_scoop (stack data : Memory) (plotId nonce : BitVec 64) {c b : Nat}
    (scoop : c < 4096) (byte : b < 64) :
    cpuPlot stack data plotId nonce (64 * c + b : Nat) = scoopByte plotId nonce c b := by
  have word := read32_cpuPlot_scoop stack data plotId nonce scoop (w := b / 4) (by omega)
  rw [scoopByte, ← word, Memory.byte_read32 _ _ (by omega)]
  exact congrArg _ (by omega)

end HyperPlotter.Poc

import HyperPlotter.Foundation.MachineInt
import HyperPlotter.Foundation.Memory

/-!
# Lane addresses and the scoop transposition

The kernel keeps sixteen nonces interleaved word by word. `Address` is the
macro of `worker_writer.cpp` and of the kernel, with the rounding of every C
operation; `laneIndex` is the index it stands for. `transposition` gathers the
two hashes of a scoop for a run of nonces.
-/

namespace HyperPlotter.Poc

open Foundation

/-- `Address(nonce, hash, word)` with `int` operands, rounded after every
operation. -/
def addressInt (nonce hash word : Int) : Int :=
  let block := toInt32 (toInt32 (nonce / 16 * 16 * 8) * 8192)
  let row := toInt32 (toInt32 (hash * 16) * 8)
  toInt32 (toInt32 (toInt32 (block + row) + toInt32 (word * 16)) + nonce % 16)

/-- `Address(nonce, hash, word)` with an `int` nonce and a `size_t` hash: the
first product is still an `int`, the sum is unsigned 64-bit. -/
def addressSize (nonce : Int) (hash word : Nat) : Int :=
  toUInt64 (toInt32 (toInt32 (nonce / 16 * 16 * 8) * 8192) + hash * 16 * 8 + word * 16 + nonce % 16)

/-- The word index of word `j` of a nonce in the interleaved layout. -/
def laneIndex (nonce j : Int) : Int := nonce / 16 * 1048576 + 16 * j + nonce % 16

/-- The macro in exact arithmetic: hash and word are one running word number. -/
theorem laneIndex_eq (nonce hash word : Int) :
    laneIndex nonce (8 * hash + word) =
      nonce / 16 * 16 * 65536 + hash * 128 + word * 16 + nonce % 16 := by
  unfold laneIndex
  omega

/-- The macro is the exact value, rounded once. -/
theorem addressInt_wrap (nonce hash word : Int) :
    addressInt nonce hash word = toInt32 (laneIndex nonce (8 * hash + word)) := by
  unfold addressInt
  simp only [toInt32_mul_toInt32, toInt32_add_toInt32, toInt32_add_right]
  rw [laneIndex_eq]
  exact congrArg toInt32 (by omega)

/-- Below 32768 nonces no `int` operation of the macro leaves its range. -/
theorem addressInt_eq {nonce hash word : Int} (nonceLower : 0 ≤ nonce) (nonceUpper : nonce < 32768)
    (hashLower : 0 ≤ hash) (hashUpper : hash < 8192) (wordLower : 0 ≤ word) (wordUpper : word < 8) :
    addressInt nonce hash word = laneIndex nonce (8 * hash + word) := by
  rw [addressInt_wrap]
  unfold laneIndex
  exact toInt32_eq (by omega) (by omega)

/-- The mixed form of the macro has the same value. -/
theorem addressSize_eq {nonce : Int} {hash word : Nat} (nonceLower : 0 ≤ nonce)
    (nonceUpper : nonce < 32768) (hashUpper : hash < 8192) (wordUpper : word < 8) :
    addressSize nonce hash word = laneIndex nonce (8 * hash + word) := by
  unfold addressSize laneIndex toUInt64
  rw [toInt32_eq (x := nonce / 16 * 16 * 8) (by omega) (by omega),
    toInt32_eq (x := nonce / 16 * 16 * 8 * 8192) (by omega) (by omega)]
  omega

/-- Different words of one nonce, and words of different nonces, are apart. -/
theorem laneIndex_injective {k k' j j' : Int} (lower : 0 ≤ j) (upper : j < 65536) (lower' : 0 ≤ j')
    (upper' : j' < 65536) (same : laneIndex k j = laneIndex k' j') : k = k' ∧ j = j' := by
  unfold laneIndex at same
  omega

/-- The word `des[w]` is loaded from: the first hash of the scoop, then the
mirrored one. -/
def scoopSource (src : Memory) (curScoop nstart : Int) (w : Nat) : Word :=
  if w < 8 then src.read32 (addressInt nstart (curScoop * 2) w)
  else src.read32 (addressInt nstart (8192 - (curScoop * 2 + 1)) (w - 8))

/-- The loop of `transposition`; `des` is the word index the next nonce goes to. -/
def transpositionLoop (src : Memory) (curScoop : Int) : Nat → Int → Int → Memory → Memory
  | 0, _, _, dst => dst
  | nsize + 1, nstart, des, dst =>
    let dst := dst.storeWords (fun w => des + w) (scoopSource src curScoop nstart) 16
    transpositionLoop src curScoop nsize (nstart + 1) (des + 16) dst

/-- `transposition`: scoop `curScoop` of `nsize` nonces from `nstart` on. -/
def transposition (data writeBuff : Memory) (curScoop nstart nsize : Int) : Memory :=
  transpositionLoop data curScoop nsize.toNat nstart 0 writeBuff

/-- Nonce `t` of the run lands in the `t`-th 64 bytes of the destination. -/
theorem read32_transpositionLoop (src : Memory) (curScoop : Int) (n : Nat) :
    ∀ (nstart des : Int) (dst : Memory) {j : Int}, (transpositionLoop src curScoop n nstart des
      dst).read32 j = if des ≤ j ∧ j < des + 16 * n
        then scoopSource src curScoop (nstart + (j - des) / 16) ((j - des) % 16).toNat
        else dst.read32 j := by
  induction n with
  | zero =>
      intro nstart des dst j
      rw [transpositionLoop, if_neg (by omega)]
  | succ n ih =>
      intro nstart des dst j
      rw [transpositionLoop, ih]
      by_cases later : des + 16 ≤ j ∧ j < des + 16 + 16 * n
      · rw [if_pos later, if_pos (by omega)]
        congr 1
        · omega
        · omega
      · rw [if_neg later]
        by_cases here : des ≤ j ∧ j < des + 16
        · rw [if_pos (by omega)]
          have stored := Memory.read32_storeWords dst (fun w => des + (w : Int))
            (scoopSource src curScoop nstart) (n := 16) (w := (j - des).toNat)
            (by intros; omega) (by omega)
          have position : des + (((j - des).toNat : Nat) : Int) = j := by omega
          simp only [position] at stored
          rw [stored]
          congr 1
          · omega
          · omega
        · rw [if_neg (by omega)]
          exact Memory.read32_storeWords_of_ne _ _ (by intros; omega)

/-- A byte outside the gathered words. -/
theorem byte_transposition_of_ne (data writeBuff : Memory) (curScoop nstart : Int) {nsize a : Int}
    (outside : ¬(0 ≤ a ∧ a < 64 * nsize)) :
    transposition data writeBuff curScoop nstart nsize a = writeBuff a := by
  have word : (transposition data writeBuff curScoop nstart nsize).read32 (a / 4) =
      writeBuff.read32 (a / 4) := by
    unfold transposition
    rw [read32_transpositionLoop, if_neg (by omega)]
  have byte := Memory.byte_eq_of_read32 word (k := a % 4) (by omega) (by omega)
  rwa [Int.mul_ediv_add_emod] at byte

/-- Two sources with the same words to gather. -/
theorem transposition_eq_of_source {data data' writeBuff : Memory} {curScoop nstart nsize : Int}
    (same : ∀ t : Nat, t < nsize → ∀ w : Nat, w < 16 →
      scoopSource data curScoop (nstart + t) w = scoopSource data' curScoop (nstart + t) w) :
    transposition data writeBuff curScoop nstart nsize =
      transposition data' writeBuff curScoop nstart nsize := by
  have gathered : ∀ (n : Nat) (nstart des : Int) (dst : Memory),
      (∀ t : Nat, t < n → ∀ w : Nat, w < 16 →
        scoopSource data curScoop (nstart + t) w = scoopSource data' curScoop (nstart + t) w) →
      transpositionLoop data curScoop n nstart des dst =
        transpositionLoop data' curScoop n nstart des dst := by
    intro n
    induction n with
    | zero => exact fun _ _ _ _ => rfl
    | succ n ih =>
        intro nstart des dst same
        have here := same 0 (Nat.succ_pos n)
        rw [Int.natCast_zero, Int.add_zero] at here
        rw [transpositionLoop, transpositionLoop, Memory.storeWords_congr dst _ here]
        refine ih _ _ _ fun t inside w word => ?_
        have later := same (t + 1) (Nat.succ_lt_succ inside) w word
        rwa [Int.natCast_succ, Int.add_comm (t : Int), ← Int.add_assoc] at later
  exact gathered nsize.toNat nstart 0 writeBuff fun t inside => same t (by omega)

/-- The words of one gathered scoop. -/
theorem read32_transposition (data writeBuff : Memory) (curScoop nstart : Int) {n t w : Nat}
    (nonce : t < n) (word : w < 16) :
    (transposition data writeBuff curScoop nstart n).read32 (16 * t + w : Nat) =
      scoopSource data curScoop (nstart + t) w := by
  unfold transposition
  rw [Int.toNat_natCast, read32_transpositionLoop, if_pos (by omega)]
  congr 1
  · omega
  · omega

end HyperPlotter.Poc

import Mathlib.Tactic.IntervalCases
import HyperPlotter.Poc.Address
import HyperPlotter.Poc.NonceChain

/-!
# The plotting kernel

`plotting` of `kernel.h` for one work item: the hashes `start` down to
`end + 1` of one lane, with the padding made by hand, and the exclusive or of
the last launch. A lane holds the same chain the CPU plotter writes.
-/

namespace HyperPlotter.Poc

open Foundation

/-- OpenCL `bitselect(a, b, c)`. -/
def bitselect (a b c : BitVec 64) : BitVec 64 := (a &&& ~~~c) ||| (b &&& c)

/-- `EndianSwap64`. -/
def endianSwap64 (n : BitVec 64) : BitVec 64 :=
  bitselect
    (bitselect (n.rotateLeft 24) (n.rotateLeft 8) 0x000000FF000000FF#64)
    (bitselect (n.rotateLeft 56) (n.rotateLeft 40) 0x00FF000000FF0000#64)
    0xFFFF0000FFFF0000#64

/-- `MESSAGE_CAP`, in 64-byte blocks. -/
def messageCap : Int := 64

/-- `NUM_HASHES`. -/
def numHashes : Int := 8192

/-- The arguments of `plotting`; `nonces` and the 64-bit ids are unsigned long. -/
structure KernelArgs where
  startnonce : BitVec 64
  numericIdBe : BitVec 64
  first : Int
  last : Int
  nonces : Nat

/-- What one work item carries from one hash to the next: the buffer and the
output words `B8..BF`. -/
structure KernelState where
  buffer : Memory
  digest : Digest

/-- `num`, the number of full message blocks of a hash. -/
def kernelNum (hash : Int) : Int :=
  let num := (numHashes - hash) / 2
  if hash ≠ 0 then if num > messageCap then messageCap else num else num

/-- `M0..MF` from two hashes of the lane. -/
def kernelMessage (buffer : Memory) (gid hash i : Int) : MessageBlock :=
  Vector.ofFn fun w : Fin 16 =>
    if w.val < 8 then buffer.read32 (addressInt gid (hash + i) w)
    else buffer.read32 (addressInt gid (hash + i + 1) (w - 8))

/-- The loop `for (int i=0; i < 2 * num; i+=2)` after `n` rounds. -/
def kernelAbsorb (buffer : Memory) (gid hash : Int) : Nat → ShabalState
  | 0 => Shabal.initial
  | n + 1 => Shabal.inputBlock (kernelAbsorb buffer gid hash n)
      (kernelMessage buffer gid hash (2 * n))

/-- The padded last block: capped message, even hash, odd hash. -/
def kernelLastBlock (buffer : Memory) (gid hash num : Int) (numericIdBe nonceBe : BitVec 64) :
    MessageBlock :=
  if num = messageCap then #v[0x80, 0, 0, 0, 0, 0, 0, 0, 0, 0, 0, 0, 0, 0, 0, 0]
  else if hash % 2 = 0 then
    #v[lowWord numericIdBe, highWord numericIdBe, lowWord nonceBe, highWord nonceBe, 0x80,
      0, 0, 0, 0, 0, 0, 0, 0, 0, 0, 0]
  else
    let tail := fun w : Int => buffer.read32 (addressInt gid (numHashes - 1) w)
    #v[tail 0, tail 1, tail 2, tail 3, tail 4, tail 5, tail 6, tail 7, lowWord numericIdBe,
      highWord numericIdBe, lowWord nonceBe, highWord nonceBe, 0x80, 0, 0, 0]

/-- The body of the hash loop. -/
def kernelHash (args : KernelArgs) (gid : Int) (hash : Int) (buffer : Memory) : KernelState :=
  let nonceBe := endianSwap64 (args.startnonce + BitVec.ofInt 64 gid)
  let num := kernelNum hash
  let state := kernelAbsorb buffer gid hash num.toNat
  let digest := Shabal.closeBlock state
    (kernelLastBlock buffer gid hash num args.numericIdBe nonceBe)
  if hash > 0 then
    ⟨buffer.storeWords (fun w => addressInt gid (hash - 1) w) (digest.getD · 0) 8, digest⟩
  else ⟨buffer, digest⟩

/-- The loop `for (int hash=start; hash > end; hash -= 1)`, `n` rounds from
`hash` on. -/
def kernelHashLoop (args : KernelArgs) (gid : Int) : Nat → Int → KernelState → KernelState
  | 0, _, state => state
  | n + 1, hash, state =>
    kernelHashLoop args gid n (hash - 1) (kernelHash args gid hash state.buffer)

/-- The loop over all hashes of the last launch, with a `size_t` counter. -/
def kernelXorLoop (gid : Int) (digest : Digest) (buffer : Memory) : Nat → Memory
  | 0 => buffer
  | i + 1 => (kernelXorLoop gid digest buffer i).xorWords
      (fun w => addressSize gid i w) (digest.getD · 0) 8

/-- `plotting` for one work item. The words `B8..BF` are not set before the
first hash; `junk` is what they hold, and no launch reads it. -/
def plottingKernel (junk : Digest) (args : KernelArgs) (buffer : Memory) (globalId : Nat) :
    Memory :=
  let gid := toInt32 globalId
  if toUInt64 gid ≥ args.nonces then buffer
  else
    let state := kernelHashLoop args gid (args.first - args.last).toNat args.first ⟨buffer, junk⟩
    if args.last = -1 then kernelXorLoop gid state.digest state.buffer 8192 else state.buffer

/-! ## Byte order -/

/-- The kernel's byte swap is the host's. -/
theorem endianSwap64_eq_htonUll (n : BitVec 64) : endianSwap64 n = htonUll n := by
  unfold endianSwap64 htonUll bitselect
  apply BitVec.eq_of_getLsbD_eq
  intro i bound
  simp only [BitVec.getLsbD_or, BitVec.getLsbD_and, BitVec.getLsbD_not,
    BitVec.getLsbD_rotateLeft, BitVec.getLsbD_ushiftRight, BitVec.getLsbD_shiftLeft]
  interval_cases i <;> simp

/-! ## One hash -/

/-- Lane `k` of the buffer ends with the last `n` hashes. -/
def LaneChain (seed : List Word) (k : Int) (n : Nat) (buffer : Memory) : Prop :=
  ∀ j : Nat, j < 8 * n → buffer.read32 (laneIndex k (65536 - 8 * n + j)) = (chain seed n).getD j 0

/-- The message behind hash `8192 - n`; the last hash of all is not capped. -/
def hashMessage (seed : List Word) (n : Nat) : List Word :=
  if n < hashCount then (chain seed n ++ seed).take capWords else chain seed n ++ seed

/-- The number of words of a hash's message. -/
private theorem hashMessage_length {seed : List Word} (length : seed.length = 4) (n : Nat) :
    (hashMessage seed n).length = if n < 8192 ∧ 128 ≤ n then 1024 else 8 * n + 4 := by
  have whole : (chain seed n ++ seed).length = 8 * n + 4 := by
    rw [List.length_append, chain_length, length]
  unfold hashMessage hashCount capWords
  by_cases last : n < 8192
  · rw [if_pos last, List.length_take, whole]
    by_cases capped : 128 ≤ n
    · rw [if_pos ⟨last, capped⟩]
      omega
    · rw [if_neg (by omega)]
      omega
  · rw [if_neg last, if_neg (by omega), whole]

/-- The padded message starts with the words behind the hash. -/
private theorem hashMessage_getD {seed : List Word} {n j : Nat}
    (bound : j < (hashMessage seed n).length) :
    (hashMessage seed n ++ [0x80]).getD j 0 = (chain seed n ++ seed).getD j 0 := by
  rw [List.getD_eq_getElem?_getD, List.getElem?_append_left bound]
  unfold hashMessage at bound ⊢
  by_cases capped : n < hashCount
  · rw [if_pos capped, List.length_take] at bound
    rw [if_pos capped, List.getElem?_take_of_lt (by omega), List.getD_eq_getElem?_getD]
  · rw [if_neg capped, List.getD_eq_getElem?_getD]

private theorem marked_getD (message : List Word) {j : Nat} (bound : message.length ≤ j) :
    (message ++ [0x80]).getD j 0 = if j = message.length then 0x80 else 0 := by
  rw [List.getD_eq_getElem?_getD, List.getElem?_append_right bound]
  by_cases marker : j = message.length
  · rw [if_pos marker, marker, Nat.sub_self]
    rfl
  · rw [if_neg marker, List.getElem?_eq_none (by simp; omega)]
    rfl

/-- What `hash` is as a function of the number of hashes behind it. -/
private theorem kernelNum_eq {n : Nat} (bound : n ≤ 8192) :
    kernelNum (8192 - n) =
      ((if n < 8192 ∧ 128 ≤ n then 64 else n / 2 : Nat) : Int) := by
  unfold kernelNum numHashes messageCap
  by_cases last : n < 8192
  · by_cases capped : 128 ≤ n
    · simp only [if_pos (And.intro last capped)]
      rw [if_pos (by omega)]
      split <;> omega
    · have small : ¬(n < 8192 ∧ 128 ≤ n) := by omega
      simp only [if_neg small]
      rw [if_pos (by omega), if_neg (by omega)]
      omega
  · have small : ¬(n < 8192 ∧ 128 ≤ n) := by omega
    simp only [if_neg small]
    rw [if_neg (by omega)]
    omega

/-- A word of the lane is a word of the message. -/
private theorem LaneChain.read {seed : List Word} {k : Int} {n : Nat} {buffer : Memory}
    (held : LaneChain seed k n buffer) {j : Nat} (bound : j < 8 * n) {index : Int}
    (place : index = laneIndex k (65536 - 8 * n + j)) :
    buffer.read32 index = (chain seed n ++ seed).getD j 0 := by
  rw [place, held j bound, List.getD_eq_getElem?_getD, List.getD_eq_getElem?_getD,
    List.getElem?_append_left (by rw [chain_length]; exact bound)]

/-- The kernel absorbs the full blocks of the message. -/
private theorem kernelAbsorb_eq {seed : List Word} {k : Nat} (lane : k < 32768) {n : Nat}
    (count : n ≤ 8192) {buffer : Memory} (held : LaneChain seed k n buffer) {blocks : Nat}
    (full : 16 * blocks ≤ (hashMessage seed n).length) (inLane : 2 * blocks ≤ n) :
    kernelAbsorb buffer k (8192 - n) blocks = absorbBlocks (hashMessage seed n ++ [0x80]) blocks := by
  induction blocks with
  | zero => rfl
  | succ t ih =>
      rw [kernelAbsorb, absorbBlocks, ih (by omega) (by omega)]
      refine congrArg _ ?_
      unfold kernelMessage blockOf
      refine congrArg Vector.ofFn (funext fun w => ?_)
      have small := w.isLt
      rw [hashMessage_getD (by omega)]
      by_cases first : w.val < 8
      · rw [if_pos first]
        refine held.read (by omega) ?_
        rw [addressInt_eq (by omega) (by omega) (by omega) (by omega) (by omega) (by omega)]
        exact congrArg (laneIndex k) (by omega)
      · rw [if_neg first]
        refine held.read (by omega) ?_
        rw [addressInt_eq (by omega) (by omega) (by omega) (by omega) (by omega) (by omega)]
        exact congrArg (laneIndex k) (by omega)

private theorem message_seed (seed : List Word) (n w : Nat) :
    (chain seed n ++ seed).getD (8 * n + w) 0 = seed.getD w 0 := by
  rw [List.getD_eq_getElem?_getD, List.getElem?_append_right (by rw [chain_length]; omega),
    chain_length, Nat.add_sub_cancel_left, ← List.getD_eq_getElem?_getD]

/-- The words of the padded last block, by the cap and the parity of the
number of hashes behind it. -/
private theorem lastBlock_getElem {seed : List Word} (length : seed.length = 4) (n w : Nat)
    (small : w < 16) :
    (blockOf (hashMessage seed n ++ [0x80]) ((hashMessage seed n).length / 16))[w] =
      if n < 8192 ∧ 128 ≤ n then if w = 0 then 0x80 else 0
      else if n % 2 = 0 then if w < 4 then seed.getD w 0 else if w = 4 then 0x80 else 0
      else if w < 8 then (chain seed n).getD (8 * n - 8 + w) 0
      else if w < 12 then seed.getD (w - 8) 0 else if w = 12 then 0x80 else 0 := by
  have size := hashMessage_length length n
  have entry : (blockOf (hashMessage seed n ++ [0x80]) ((hashMessage seed n).length / 16))[w] =
      (hashMessage seed n ++ [0x80]).getD (16 * ((hashMessage seed n).length / 16) + w) 0 :=
    Vector.getElem_ofFn ..
  rw [entry]
  by_cases capped : n < 8192 ∧ 128 ≤ n
  · rw [if_pos capped] at size
    rw [if_pos capped, marked_getD _ (by omega)]
    by_cases marker : w = 0
    · rw [if_pos marker, if_pos (by omega)]
    · rw [if_neg marker, if_neg (by omega)]
  · rw [if_neg capped] at size
    rw [if_neg capped]
    by_cases even : n % 2 = 0
    · rw [if_pos even]
      by_cases inside : w < 4
      · rw [if_pos inside, hashMessage_getD (by omega), ← message_seed seed n w]
        exact congrArg (fun j => (chain seed n ++ seed).getD j 0) (by omega)
      · rw [if_neg inside, marked_getD _ (by omega)]
        by_cases marker : w = 4
        · rw [if_pos marker, if_pos (by omega)]
        · rw [if_neg marker, if_neg (by omega)]
    · rw [if_neg even]
      by_cases hashed : w < 8
      · rw [if_pos hashed, hashMessage_getD (by omega), List.getD_eq_getElem?_getD,
          List.getElem?_append_left (by rw [chain_length]; omega), ← List.getD_eq_getElem?_getD]
        exact congrArg (fun j => (chain seed n).getD j 0) (by omega)
      · rw [if_neg hashed]
        by_cases inside : w < 12
        · rw [if_pos inside, hashMessage_getD (by omega), ← message_seed seed n (w - 8)]
          exact congrArg (fun j => (chain seed n ++ seed).getD j 0) (by omega)
        · rw [if_neg inside, marked_getD _ (by omega)]
          by_cases marker : w = 12
          · rw [if_pos marker, if_pos (by omega)]
          · rw [if_neg marker, if_neg (by omega)]

/-- The hand-made last block is the padded last block. -/
private theorem kernelLastBlock_eq {plotId nonce : BitVec 64} {k : Nat} (lane : k < 32768) {n : Nat}
    (count : n ≤ 8192) {buffer : Memory} (held : LaneChain (seedWords plotId nonce) k n buffer) :
    kernelLastBlock buffer k (8192 - n) (kernelNum (8192 - n)) (htonUll plotId) (htonUll nonce) =
      blockOf (hashMessage (seedWords plotId nonce) n ++ [0x80])
        ((hashMessage (seedWords plotId nonce) n).length / 16) := by
  have words := lastBlock_getElem (seedWords_length plotId nonce) n
  rw [kernelNum_eq count]
  unfold kernelLastBlock messageCap numHashes
  by_cases capped : n < 8192 ∧ 128 ≤ n
  · simp only [if_pos capped] at words ⊢
    rw [if_pos (by omega)]
    refine Vector.ext fun w small => ?_
    rw [words w small]
    interval_cases w <;> rfl
  · simp only [if_neg capped] at words ⊢
    rw [if_neg (by omega)]
    by_cases even : n % 2 = 0
    · simp only [if_pos even] at words
      rw [if_pos (by omega)]
      refine Vector.ext fun w small => ?_
      rw [words w small]
      interval_cases w <;> rfl
    · have tail : ∀ v : Nat, v < 8 → buffer.read32 (addressInt k (8192 - 1) v) =
          (chain (seedWords plotId nonce) n).getD (8 * n - 8 + v) 0 := by
        intro v bound
        rw [addressInt_eq (by omega) (by omega) (by omega) (by omega) (by omega) (by omega),
          ← held (8 * n - 8 + v) (by omega)]
        exact congrArg (fun j => buffer.read32 (laneIndex k j)) (by omega)
      simp only [if_neg even] at words
      rw [if_neg (by omega)]
      refine Vector.ext fun w small => ?_
      rw [words w small]
      by_cases hashed : w < 8
      · rw [if_pos hashed, ← tail w hashed]
        interval_cases w <;> rfl
      · rw [if_neg hashed]
        interval_cases w <;> rfl

/-- Every word of lane `k` is the same in both buffers. -/
def SameLane (k : Int) (left right : Memory) : Prop :=
  ∀ j : Nat, j < 65536 → left.read32 (laneIndex k j) = right.read32 (laneIndex k j)

@[simp] theorem SameLane.refl (k : Int) (buffer : Memory) : SameLane k buffer buffer :=
  fun _ _ => rfl

/-- A lane that is the same in two steps. -/
theorem SameLane.trans {k : Int} {first second third : Memory} (left : SameLane k first second)
    (right : SameLane k second third) : SameLane k first third :=
  fun j bound => (left j bound).trans (right j bound)

/-- A chain depends on its own lane only. -/
theorem LaneChain.of_same {seed : List Word} {k : Int} {n : Nat} (count : n ≤ 8192)
    {left right : Memory} (held : LaneChain seed k n right) (same : SameLane k left right) :
    LaneChain seed k n left := by
  intro j bound
  have word := same (65536 - 8 * n + j) (by omega)
  have place : ((65536 - 8 * n + j : Nat) : Int) = 65536 - 8 * (n : Int) + j := by omega
  rw [place] at word
  rw [word, held j bound]

/-- The seed of the nonce a work item computes. -/
def laneSeed (plotId startNonce : BitVec 64) (k : Nat) : List Word :=
  seedWords plotId (startNonce + BitVec.ofNat 64 k)

/-- The digest of one hash of a lane. -/
theorem kernelHash_digest {args : KernelArgs} {plotId : BitVec 64}
    (id : args.numericIdBe = htonUll plotId) {k : Nat} (lane : k < 32768) {n : Nat}
    (count : n ≤ 8192) {buffer : Memory}
    (held : LaneChain (laneSeed plotId args.startnonce k) k n buffer) :
    (kernelHash args k (8192 - n) buffer).digest =
      shabal256 (hashMessage (laneSeed plotId args.startnonce k) n) := by
  have size := hashMessage_length (seedWords_length plotId (args.startnonce + BitVec.ofNat 64 k)) n
  have blocks : (kernelNum (8192 - n)).toNat =
      (hashMessage (laneSeed plotId args.startnonce k) n).length / 16 := by
    rw [kernelNum_eq count, Int.toNat_natCast]
    unfold laneSeed
    rw [size]
    split <;> omega
  have fits : 2 * ((hashMessage (laneSeed plotId args.startnonce k) n).length / 16) ≤ n := by
    unfold laneSeed
    rw [size]
    split <;> omega
  have digest : (kernelHash args k (8192 - n) buffer).digest =
      Shabal.closeBlock (kernelAbsorb buffer k (8192 - n) (kernelNum (8192 - n)).toNat)
        (kernelLastBlock buffer k (8192 - n) (kernelNum (8192 - n)) args.numericIdBe
          (endianSwap64 (args.startnonce + BitVec.ofInt 64 k))) := by
    unfold kernelHash
    split <;> rfl
  rw [digest, shabal256_eq, id, endianSwap64_eq_htonUll, BitVec.ofInt_natCast, blocks,
    kernelAbsorb_eq lane count held (by omega) fits]
  exact congrArg _ (kernelLastBlock_eq lane count held)

/-- One hash stores its digest in front of the lane's chain. -/
theorem kernelHash_chain {args : KernelArgs} {plotId : BitVec 64}
    (id : args.numericIdBe = htonUll plotId) {k : Nat} (lane : k < 32768) {n : Nat}
    (count : n < 8192) {buffer : Memory}
    (held : LaneChain (laneSeed plotId args.startnonce k) k n buffer) :
    LaneChain (laneSeed plotId args.startnonce k) k (n + 1)
      (kernelHash args k (8192 - n) buffer).buffer := by
  have digest := kernelHash_digest id lane (Nat.le_of_lt count) held
  have stored : (kernelHash args k (8192 - n) buffer).buffer =
      buffer.storeWords (fun w => addressInt k (8192 - n - 1) w)
        ((kernelHash args k (8192 - n) buffer).digest.getD · 0) 8 := by
    unfold kernelHash
    rw [if_pos (by omega)]
  have place : ∀ w : Nat, w < 8 → addressInt k (8192 - n - 1) w =
      laneIndex k (65536 - 8 * ((n + 1 : Nat) : Int) + w) := by
    intro w small
    rw [addressInt_eq (by omega) (by omega) (by omega) (by omega) (by omega) (by omega)]
    exact congrArg (laneIndex k) (by omega)
  intro j bound
  rw [stored, chain_succ_getD]
  by_cases head : j < 8
  · rw [if_pos head, ← place j head, Memory.read32_storeWords buffer
      (fun w => addressInt k (8192 - n - 1) w) _ (n := 8) (w := j) ?_ head, digest, nextHash]
    · unfold hashMessage hashCount
      rw [if_pos count]
    · intro a b first second same
      rw [place a first, place b second] at same
      have := laneIndex_injective (by omega) (by omega) (by omega) (by omega) same
      omega
  · rw [if_neg head, Memory.read32_storeWords_of_ne, ← held (j - 8) (by omega)]
    · exact congrArg (fun i => buffer.read32 (laneIndex k i)) (by omega)
    · intro w small same
      rw [place w small] at same
      have := laneIndex_injective (by omega) (by omega) (by omega) (by omega) same
      omega

/-- A hash leaves the other lanes alone. -/
theorem kernelHash_other (args : KernelArgs) {k other : Nat} (lane : k < 32768) (differ : other ≠ k)
    {n : Nat} (buffer : Memory) :
    SameLane other (kernelHash args k (8192 - n) buffer).buffer buffer := by
  intro j bound
  unfold kernelHash
  by_cases store : (8192 - (n : Int)) > 0
  · rw [if_pos store]
    refine Memory.read32_storeWords_of_ne _ _ fun w small same => ?_
    rw [addressInt_eq (by omega) (by omega) (by omega) (by omega) (by omega) (by omega)] at same
    have := laneIndex_injective (by omega) (by omega) (by omega) (by omega) same
    omega
  · rw [if_neg store]

/-! ## One launch -/

/-- `m` rounds of the hash loop append `m` hashes to the lane's chain. -/
theorem kernelHashLoop_chain {args : KernelArgs} {plotId : BitVec 64}
    (id : args.numericIdBe = htonUll plotId) {k : Nat} (lane : k < 32768) (m : Nat) :
    ∀ {n : Nat} {state : KernelState}, n + m ≤ 8192 →
      LaneChain (laneSeed plotId args.startnonce k) k n state.buffer →
      LaneChain (laneSeed plotId args.startnonce k) k (n + m)
        (kernelHashLoop args k m (8192 - n) state).buffer := by
  induction m with
  | zero =>
      intro n state _ held
      exact held
  | succ m ih =>
      intro n state count held
      rw [kernelHashLoop, show (8192 : Int) - n - 1 = 8192 - ((n + 1 : Nat) : Int) by omega,
        show n + (m + 1) = n + 1 + m by omega]
      exact ih (by omega) (kernelHash_chain id lane (by omega) held)

/-- The hash loop leaves the other lanes alone. -/
theorem kernelHashLoop_other (args : KernelArgs) {k other : Nat} (lane : k < 32768)
    (differ : other ≠ k) (m : Nat) :
    ∀ {n : Nat} (state : KernelState),
      SameLane other (kernelHashLoop args k m (8192 - n) state).buffer state.buffer := by
  induction m with
  | zero =>
      intro n state
      exact SameLane.refl _ _
  | succ m ih =>
      intro n state
      rw [kernelHashLoop, show (8192 : Int) - n - 1 = 8192 - ((n + 1 : Nat) : Int) by omega]
      exact (ih _).trans (kernelHash_other args lane differ state.buffer)

/-- The hash loop in two parts. -/
theorem kernelHashLoop_add (args : KernelArgs) (gid : Int) (m : Nat) :
    ∀ (l : Nat) (hash : Int) (state : KernelState), kernelHashLoop args gid (m + l) hash state =
      kernelHashLoop args gid l (hash - m) (kernelHashLoop args gid m hash state) := by
  induction m with
  | zero =>
      intro l hash state
      rw [Nat.zero_add, kernelHashLoop, show hash - ((0 : Nat) : Int) = hash by omega]
  | succ m ih =>
      intro l hash state
      rw [show m + 1 + l = m + l + 1 by omega, kernelHashLoop, ih, kernelHashLoop,
        show hash - 1 - (m : Int) = hash - ((m + 1 : Nat) : Int) by omega]

/-- The rounds down to hash 0 leave the whole chain and the final hash. -/
theorem kernelHashLoop_last {args : KernelArgs} {plotId : BitVec 64}
    (id : args.numericIdBe = htonUll plotId) {k : Nat} (lane : k < 32768) {m n : Nat}
    {state : KernelState} (count : n + m = 8192)
    (held : LaneChain (laneSeed plotId args.startnonce k) k n state.buffer) :
    LaneChain (laneSeed plotId args.startnonce k) k 8192
      (kernelHashLoop args k (m + 1) (8192 - n) state).buffer ∧
    (kernelHashLoop args k (m + 1) (8192 - n) state).digest =
      finalHash (laneSeed plotId args.startnonce k) := by
  have chained := kernelHashLoop_chain id lane m (by omega) held
  rw [count] at chained
  have zero : (8192 : Int) - n - m = 8192 - ((8192 : Nat) : Int) := by omega
  have last : kernelHashLoop args k (m + 1) (8192 - n) state =
      kernelHash args k (8192 - ((8192 : Nat) : Int))
        (kernelHashLoop args k m (8192 - n) state).buffer := by
    rw [kernelHashLoop_add, zero]
    rfl
  rw [last]
  refine ⟨chained, ?_⟩
  rw [kernelHash_digest id lane (Nat.le_refl _) chained]
  rfl

/-- The words of the lane after `i` rounds of the last loop. -/
theorem read32_kernelXorLoop {k : Nat} (lane : k < 32768) (digest : Digest) (buffer : Memory)
    {i : Nat} (rounds : i ≤ 8192) {j : Nat} (bound : j < 65536) :
    (kernelXorLoop k digest buffer i).read32 (laneIndex k j) =
      if j < 8 * i then buffer.read32 (laneIndex k j) ^^^ digest.getD (j % 8) 0
      else buffer.read32 (laneIndex k j) := by
  induction i with
  | zero => rw [kernelXorLoop, if_neg (by omega)]
  | succ i ih =>
      have place : ∀ w : Nat, w < 8 → addressSize k i w = laneIndex k (8 * i + w) := fun w small =>
        addressSize_eq (by omega) (by omega) (by omega) small
      rw [kernelXorLoop]
      by_cases here : 8 * i ≤ j ∧ j < 8 * i + 8
      · have index : laneIndex k j = addressSize k i (j % 8 : Nat) := by
          rw [place _ (by omega)]
          exact congrArg (laneIndex k) (by omega)
        rw [index, Memory.read32_xorWords _ (fun w => addressSize k i w) _ (n := 8) (w := j % 8)
          ?_ (by omega), ← index, ih (by omega), if_neg (by omega), if_pos (by omega)]
        intro a b first second same
        rw [place a first, place b second] at same
        have := laneIndex_injective (by omega) (by omega) (by omega) (by omega) same
        omega
      · rw [Memory.read32_xorWords_of_ne, ih (by omega)]
        · by_cases before : j < 8 * i
          · rw [if_pos before, if_pos (by omega)]
          · rw [if_neg before, if_neg (by omega)]
        · intro w small same
          rw [place w small] at same
          have := laneIndex_injective (by omega) (by omega) (by omega) (by omega) same
          omega

/-- The last loop leaves the other lanes alone. -/
theorem kernelXorLoop_other {k other : Nat} (lane : k < 32768) (differ : other ≠ k)
    (digest : Digest) (buffer : Memory) {i : Nat} (rounds : i ≤ 8192) :
    SameLane other (kernelXorLoop k digest buffer i) buffer := by
  induction i with
  | zero => exact SameLane.refl _ _
  | succ i ih =>
      rw [kernelXorLoop]
      refine SameLane.trans (fun j bound => ?_) (ih (by omega))
      refine Memory.read32_xorWords_of_ne _ _ fun w small same => ?_
      rw [addressSize_eq (by omega) (by omega) (by omega) small] at same
      have := laneIndex_injective (by omega) (by omega) (by omega) (by omega) same
      omega

/-- Lane `k` holds the finished nonce. -/
def LanePlotted (seed : List Word) (k : Int) (buffer : Memory) : Prop :=
  ∀ j : Nat, j < 65536 → buffer.read32 (laneIndex k j) = plotWord seed j

/-- A lane that is the same is plotted as well. -/
theorem LanePlotted.of_same {seed : List Word} {k : Int} {left right : Memory}
    (held : LanePlotted seed k right) (same : SameLane k left right) : LanePlotted seed k left :=
  fun j bound => (same j bound).trans (held j bound)

/-- The work items of one launch as `int` and as unsigned 64-bit. -/
private theorem gid_eq {k : Nat} (lane : k < 32768) : toInt32 k = k ∧ toUInt64 (k : Int) = k :=
  ⟨toInt32_eq (by omega) (by omega), toUInt64_natCast (by omega)⟩

/-- A launch that is not the last one appends its hashes to the chain. -/
theorem plottingKernel_chain {junk : Digest} {args : KernelArgs} {plotId : BitVec 64}
    (id : args.numericIdBe = htonUll plotId) {k : Nat} (lane : k < 32768) (active : k < args.nonces)
    {n m : Nat} (count : n + m < 8193) (first : args.first = 8192 - n)
    (last : args.last = 8192 - n - m) {buffer : Memory}
    (held : LaneChain (laneSeed plotId args.startnonce k) k n buffer) :
    LaneChain (laneSeed plotId args.startnonce k) k (n + m)
      (plottingKernel junk args buffer k) := by
  unfold plottingKernel
  simp only [(gid_eq lane).1, (gid_eq lane).2]
  rw [if_neg (by omega), if_neg (by omega), first, last,
    show ((8192 : Int) - n - (8192 - n - m)).toNat = m by omega]
  exact kernelHashLoop_chain id lane m (by omega) held

/-- The last launch leaves the finished nonce. -/
theorem plottingKernel_plotted {junk : Digest} {args : KernelArgs} {plotId : BitVec 64}
    (id : args.numericIdBe = htonUll plotId) {k : Nat} (lane : k < 32768) (active : k < args.nonces)
    {n : Nat} (count : n ≤ 8192) (first : args.first = 8192 - n) (last : args.last = -1)
    {buffer : Memory} (held : LaneChain (laneSeed plotId args.startnonce k) k n buffer) :
    LanePlotted (laneSeed plotId args.startnonce k) k (plottingKernel junk args buffer k) := by
  obtain ⟨chained, digest⟩ := kernelHashLoop_last id lane (m := 8192 - n) (by omega)
    (show LaneChain _ _ _ (KernelState.mk buffer junk).buffer from held)
  unfold plottingKernel
  simp only [(gid_eq lane).1, (gid_eq lane).2]
  rw [if_neg (by omega), if_pos last, first, last,
    show ((8192 : Int) - n - -1).toNat = 8192 - n + 1 by omega]
  intro j bound
  have word := chained j (by omega)
  rw [show (65536 : Int) - 8 * ((8192 : Nat) : Int) + j = j by omega] at word
  rw [read32_kernelXorLoop lane _ _ (Nat.le_refl _) bound, if_pos (by omega), word, digest]
  rfl

/-- A launch leaves the other lanes alone. -/
theorem plottingKernel_other {junk : Digest} {args : KernelArgs} {k other : Nat}
    (lane : k < 32768) (differ : other ≠ k) {n : Nat} (first : args.first = 8192 - n)
    (buffer : Memory) : SameLane other (plottingKernel junk args buffer k) buffer := by
  unfold plottingKernel
  simp only [(gid_eq lane).1, (gid_eq lane).2]
  rw [first]
  have looped := kernelHashLoop_other args lane differ (8192 - (n : Int) - args.last).toNat
    (n := n) (KernelState.mk buffer junk)
  split
  · exact SameLane.refl _ _
  · split
    · exact (kernelXorLoop_other lane differ _ _ (Nat.le_refl _)).trans looped
    · exact looped

end HyperPlotter.Poc

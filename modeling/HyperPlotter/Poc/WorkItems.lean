import HyperPlotter.Foundation.Interleaving
import HyperPlotter.Poc.GpuPlotter

/-!
# Work items side by side

`plotting` of `kernel.h` with its accesses to the buffer one by one, in the order of the
source. The work items of a launch run at the same time; an access of one of them falls
anywhere between those of the others. Every work item keeps to its lane, so a launch
leaves what it leaves when they run one after the other.
-/

namespace HyperPlotter.Poc

open Foundation Interaction

/-- An access to a word of the buffer. -/
inductive Access where
  | load (index : Int)
  | store (index : Int) (v : Word)

/-- What comes back from it. -/
abbrev Access.Reply : Access → Type
  | .load _ => Word
  | .store .. => Unit

/-- The buffer serves one access at a time. -/
def Access.serve (buffer : Memory) : (access : Access) → access.Reply × Memory
  | .load index => (buffer.read32 index, buffer)
  | .store index v => ((), buffer.write32 index v)

/-- What a work item does. -/
abbrev WorkItem := Interaction Access Access.Reply

namespace WorkItem

/-- `n` loads one after the other. -/
def load (index : Nat → Int) : Nat → WorkItem (List Word)
  | 0 => pure []
  | n + 1 => do
    let words ← load index n
    let word ← perform (Access.load (index n))
    pure (words ++ [word])

/-- `n` assignments one after the other. -/
def store (index : Nat → Int) (value : Nat → Word) : Nat → WorkItem Unit
  | 0 => pure ()
  | n + 1 => do
    store index value n
    perform (Access.store (index n) (value n))

/-- `n` assignments with `^=` one after the other. -/
def xor (index : Nat → Int) (value : Nat → Word) : Nat → WorkItem Unit
  | 0 => pure ()
  | n + 1 => do
    xor index value n
    let old ← perform (Access.load (index n))
    perform (Access.store (index n) (old ^^^ value n))

/-- The index `Mw` is loaded from. -/
def messageIndex (gid hash i : Int) (w : Nat) : Int :=
  if w < 8 then addressInt gid (hash + i) w else addressInt gid (hash + i + 1) ((w : Int) - 8)

/-- Sixteen words as the block of a round. -/
def blockOfWords (words : List Word) : MessageBlock := Vector.ofFn fun w => words.getD w.val 0

/-- `M0..MF` from two hashes of the lane. -/
def message (gid hash i : Int) : WorkItem MessageBlock := do
  let words ← load (messageIndex gid hash i) 16
  pure (blockOfWords words)

/-- The loop `for (int i=0; i < 2 * num; i+=2)` after `n` rounds. -/
def absorb (gid hash : Int) : Nat → WorkItem ShabalState
  | 0 => pure Shabal.initial
  | n + 1 => do
    let state ← absorb gid hash n
    let block ← message gid hash (2 * n)
    pure (Shabal.inputBlock state block)

/-- The padded last block. -/
def lastBlock (gid hash num : Int) (numericIdBe nonceBe : BitVec 64) : WorkItem MessageBlock :=
  if num = messageCap then
    pure (blockOfWords [0x80, 0, 0, 0, 0, 0, 0, 0, 0, 0, 0, 0, 0, 0, 0, 0])
  else if hash % 2 = 0 then
    pure (blockOfWords [lowWord numericIdBe, highWord numericIdBe, lowWord nonceBe,
      highWord nonceBe, 0x80, 0, 0, 0, 0, 0, 0, 0, 0, 0, 0, 0])
  else do
    let tail ← load (fun w => addressInt gid (numHashes - 1) w) 8
    pure (blockOfWords (tail ++ [lowWord numericIdBe, highWord numericIdBe, lowWord nonceBe,
      highWord nonceBe, 0x80, 0, 0, 0]))

/-- The body of the hash loop, with the words `B8..BF` after it. -/
def hashStep (args : KernelArgs) (gid hash : Int) : WorkItem Digest := do
  let num := kernelNum hash
  let state ← absorb gid hash num.toNat
  let block ← lastBlock gid hash num args.numericIdBe
    (endianSwap64 (args.startnonce + BitVec.ofInt 64 gid))
  let digest := Shabal.closeBlock state block
  if hash > 0 then
    store (fun w => addressInt gid (hash - 1) w) (digest.getD · 0) 8
  pure digest

/-- The loop `for (int hash=start; hash > end; hash -= 1)`, `n` rounds from `hash` on. -/
def hashLoop (args : KernelArgs) (gid : Int) : Nat → Int → Digest → WorkItem Digest
  | 0, _, digest => pure digest
  | n + 1, hash, _ => do
    let digest ← hashStep args gid hash
    hashLoop args gid n (hash - 1) digest

/-- The loop over all hashes of the last launch. -/
def xorLoop (gid : Int) (digest : Digest) : Nat → WorkItem Unit
  | 0 => pure ()
  | i + 1 => do
    xorLoop gid digest i
    xor (fun w => addressSize gid i w) (digest.getD · 0) 8

/-- `plotting`. -/
def plotting (junk : Digest) (args : KernelArgs) (globalId : Nat) : WorkItem Unit :=
  let gid := toInt32 globalId
  if toUInt64 gid ≥ args.nonces then pure ()
  else do
    let digest ← hashLoop args gid (args.first - args.last).toNat args.first junk
    if args.last = -1 then xorLoop gid digest 8192

/-! ## A work item by itself -/

/-- Alone, loads read the buffer. -/
theorem alone_load (index : Nat → Int) (n : Nat) (buffer : Memory) :
    alone Access.serve (load index n) buffer =
      ((List.range n).map fun w => buffer.read32 (index w), buffer) := by
  induction n with
  | zero => rfl
  | succ n ih =>
      simp [load, ih, Access.serve, List.range_succ]

/-- Alone, stores write the words. -/
theorem alone_store (index : Nat → Int) (value : Nat → Word) (n : Nat) (buffer : Memory) :
    (alone Access.serve (store index value n) buffer).2 = buffer.storeWords index value n := by
  induction n with
  | zero => rfl
  | succ n ih =>
      simp [store, ih, Access.serve, Memory.storeWords]

/-- Alone, the words are combined. -/
theorem alone_xor (index : Nat → Int) (value : Nat → Word) (n : Nat) (buffer : Memory) :
    (alone Access.serve (xor index value n) buffer).2 = buffer.xorWords index value n := by
  induction n with
  | zero => rfl
  | succ n ih =>
      simp [xor, ih, Access.serve, Memory.xorWords]

/-- Alone, the message of a hash is that of the kernel. -/
theorem alone_message (gid hash i : Int) (buffer : Memory) :
    alone Access.serve (message gid hash i) buffer = (kernelMessage buffer gid hash i, buffer) := by
  simp only [message, alone_bind, alone_load, alone_pure, kernelMessage]
  refine Prod.ext (congrArg Vector.ofFn (funext fun w => ?_)) rfl
  simp only [List.getD_eq_getElem?_getD, List.getElem?_map, List.getElem?_range w.isLt,
    Option.map_some, Option.getD_some, messageIndex]
  split <;> rfl

/-- Alone, the blocks are absorbed as by the kernel. -/
theorem alone_absorb (gid hash : Int) (n : Nat) (buffer : Memory) :
    alone Access.serve (absorb gid hash n) buffer = (kernelAbsorb buffer gid hash n, buffer) := by
  induction n with
  | zero => rfl
  | succ n ih => simp only [absorb, alone_bind, ih, alone_message, alone_pure, kernelAbsorb]

/-- Alone, the last block is that of the kernel. -/
theorem alone_lastBlock (gid hash num : Int) (numericIdBe nonceBe : BitVec 64) (buffer : Memory) :
    alone Access.serve (lastBlock gid hash num numericIdBe nonceBe) buffer =
      (kernelLastBlock buffer gid hash num numericIdBe nonceBe, buffer) := by
  unfold lastBlock kernelLastBlock
  split
  · rfl
  · split
    · rfl
    · simp only [alone_bind, alone_load, alone_pure]
      rfl

/-- Alone, one hash is that of the kernel. -/
theorem alone_hashStep (args : KernelArgs) (gid hash : Int) (buffer : Memory) :
    alone Access.serve (hashStep args gid hash) buffer =
      ((kernelHash args gid hash buffer).digest, (kernelHash args gid hash buffer).buffer) := by
  simp only [hashStep, alone_bind, alone_absorb, alone_lastBlock, kernelHash]
  split
  · simp only [alone_bind, alone_store, alone_pure]
  · simp only [alone_pure]

/-- Alone, the hashes are those of the kernel. -/
theorem alone_hashLoop (args : KernelArgs) (gid : Int) (n : Nat) (hash : Int) (digest : Digest)
    (buffer : Memory) : alone Access.serve (hashLoop args gid n hash digest) buffer =
      ((kernelHashLoop args gid n hash ⟨buffer, digest⟩).digest,
        (kernelHashLoop args gid n hash ⟨buffer, digest⟩).buffer) := by
  induction n generalizing hash digest buffer with
  | zero => rfl
  | succ n ih =>
      simp only [hashLoop, alone_bind, alone_hashStep, ih, kernelHashLoop]

/-- Alone, the last loop is that of the kernel. -/
theorem alone_xorLoop (gid : Int) (digest : Digest) (n : Nat) (buffer : Memory) :
    (alone Access.serve (xorLoop gid digest n) buffer).2 = kernelXorLoop gid digest buffer n := by
  induction n with
  | zero => rfl
  | succ n ih => simp only [xorLoop, alone_bind, alone_xor, ih, kernelXorLoop]

/-- By itself a work item does what the kernel does to a buffer of its own. -/
theorem alone_plotting (junk : Digest) (args : KernelArgs) (globalId : Nat) (buffer : Memory) :
    (alone Access.serve (plotting junk args globalId) buffer).2 =
      plottingKernel junk args buffer globalId := by
  unfold plotting plottingKernel
  simp only
  split
  · rfl
  · simp only [alone_bind, alone_hashLoop]
    split
    · exact alone_xorLoop _ _ _ _
    · rfl

/-! ## A work item keeps to its lane -/

/-- The index is one of lane `k`. -/
def OfLane (k : Nat) (index : Int) : Prop := ∃ j : Nat, j < 65536 ∧ index = laneIndex k j

/-- The access is to a word of lane `k`. -/
def InLane (k : Nat) : Access → Prop
  | .load index | .store index _ => OfLane k index

/-- An address of a lane belongs to it. -/
theorem addressInt_ofLane {k : Nat} (lane : k < 32768) {hash word : Int} (hashLower : 0 ≤ hash)
    (hashUpper : hash < 8192) (wordLower : 0 ≤ word) (wordUpper : word < 8) :
    OfLane k (addressInt k hash word) := by
  refine ⟨(8 * hash + word).toNat, by omega, ?_⟩
  rw [addressInt_eq (by omega) (by omega) hashLower hashUpper wordLower wordUpper]
  exact congrArg (laneIndex k) (by omega)

/-- The full blocks of a hash end with the lane. -/
theorem kernelNum_le {hash : Int} (upper : hash ≤ 8192) :
    hash + 2 * (kernelNum hash).toNat ≤ 8192 := by
  unfold kernelNum numHashes messageCap
  grind

/-- The work item keeps to lane `k`. -/
structure KeepsTo {α : Type} (k : Nat) (program : WorkItem α) : Prop where
  only : program.Only (InLane k)

namespace KeepsTo

variable {α β : Type} {k : Nat}

/-- A result accesses nothing. -/
protected theorem pure (result : α) : KeepsTo k (pure result) := ⟨trivial⟩

/-- The rule for one load. -/
theorem ofLoad {index : Int} (inLane : OfLane k index) :
    KeepsTo k (perform (Access.load index)) := ⟨inLane, fun _ => trivial⟩

/-- The rule for one store. -/
theorem ofStore {index : Int} (inLane : OfLane k index) (v : Word) :
    KeepsTo k (perform (Access.store index v)) := ⟨inLane, fun _ => trivial⟩

/-- The rule for sequencing. -/
protected theorem bind {program : WorkItem α} {next : α → WorkItem β} (first : KeepsTo k program)
    (second : ∀ result, KeepsTo k (next result)) : KeepsTo k (program >>= next) :=
  ⟨Only.bind first.only fun result => (second result).only⟩

/-- The rule for several loads. -/
theorem load {index : Nat → Int} {n : Nat} (inLane : ∀ w, w < n → OfLane k (index w)) :
    KeepsTo k (load index n) := by
  induction n with
  | zero => exact .pure _
  | succ n ih =>
      rw [WorkItem.load]
      refine .bind (ih fun w bound => inLane w (Nat.lt_succ_of_lt bound)) fun words => ?_
      exact .bind (.ofLoad (inLane n (Nat.lt_succ_self n))) fun word => .pure _

/-- The rule for several stores. -/
theorem store {index : Nat → Int} (value : Nat → Word) {n : Nat}
    (inLane : ∀ w, w < n → OfLane k (index w)) : KeepsTo k (store index value n) := by
  induction n with
  | zero => exact .pure _
  | succ n ih =>
      rw [WorkItem.store]
      refine .bind (ih fun w bound => inLane w (Nat.lt_succ_of_lt bound)) fun _ => ?_
      exact .ofStore (inLane n (Nat.lt_succ_self n)) _

/-- The rule for words that are combined. -/
theorem xor {index : Nat → Int} (value : Nat → Word) {n : Nat}
    (inLane : ∀ w, w < n → OfLane k (index w)) : KeepsTo k (xor index value n) := by
  induction n with
  | zero => exact .pure _
  | succ n ih =>
      have here := inLane n (Nat.lt_succ_self n)
      rw [WorkItem.xor]
      refine .bind (ih fun w bound => inLane w (Nat.lt_succ_of_lt bound)) fun _ => ?_
      exact .bind (.ofLoad here) fun old => .ofStore here _

variable (lane : k < 32768)

include lane

/-- The message of a hash is in its lane. -/
theorem message {hash i : Int} (lower : 0 ≤ hash + i) (upper : hash + i + 1 < 8192) :
    KeepsTo k (message k hash i) := by
  refine .bind (.load fun w bound => ?_) fun words => .pure _
  unfold messageIndex
  split
  · exact addressInt_ofLane lane lower (by omega) (by omega) (by omega)
  · exact addressInt_ofLane lane (by omega) upper (by omega) (by omega)

/-- Absorbing keeps to the lane. -/
theorem absorb {hash : Int} (lower : 0 ≤ hash) {n : Nat} (upper : hash + 2 * n ≤ 8192) :
    KeepsTo k (absorb k hash n) := by
  induction n with
  | zero => exact .pure _
  | succ n ih =>
      rw [WorkItem.absorb]
      refine .bind (ih (by omega)) fun state => ?_
      exact .bind (.message lane (by omega) (by omega)) fun block => .pure _

/-- The last block is in its lane. -/
theorem lastBlock (hash num : Int) (numericIdBe nonceBe : BitVec 64) :
    KeepsTo k (lastBlock k hash num numericIdBe nonceBe) := by
  unfold WorkItem.lastBlock
  split
  · exact .pure _
  · split
    · exact .pure _
    · refine .bind (.load fun w bound => ?_) fun tail => .pure _
      exact addressInt_ofLane lane (by decide) (by decide) (by omega) (by omega)

/-- One hash keeps to its lane. -/
theorem hashStep (args : KernelArgs) {hash : Int} (lower : 0 ≤ hash) (upper : hash ≤ 8192) :
    KeepsTo k (hashStep args k hash) := by
  refine .bind (.absorb lane lower (kernelNum_le upper)) fun state => ?_
  refine .bind (.lastBlock lane _ _ _ _) fun block => ?_
  simp only
  split
  · refine .bind (.store _ fun w bound => ?_) fun _ => .pure _
    exact addressInt_ofLane lane (by omega) (by omega) (by omega) (by omega)
  · exact .pure _

/-- All hashes keep to their lane. -/
theorem hashLoop (args : KernelArgs) {n : Nat} {hash : Int} (lower : n ≤ hash + 1)
    (upper : hash ≤ 8192) (digest : Digest) : KeepsTo k (hashLoop args k n hash digest) := by
  induction n generalizing hash digest with
  | zero => exact .pure _
  | succ n ih =>
      rw [WorkItem.hashLoop]
      refine .bind (.hashStep lane args (by omega) upper) fun digest => ?_
      exact ih (by omega) (by omega) digest

/-- The last loop keeps to its lane. -/
theorem xorLoop (digest : Digest) {n : Nat} (bound : n ≤ 8192) :
    KeepsTo k (xorLoop k digest n) := by
  induction n with
  | zero => exact .pure _
  | succ n ih =>
      rw [WorkItem.xorLoop]
      refine .bind (ih (by omega)) fun _ => .xor _ fun w small => ?_
      refine ⟨8 * n + w, by omega, ?_⟩
      rw [addressSize_eq (by omega) (by omega) (by omega) small]
      exact congrArg (laneIndex k) (by omega)

/-- A work item accesses its own lane and nothing else. -/
theorem plotting (junk : Digest) {args : KernelArgs} (first : args.first ≤ 8192)
    (last : -1 ≤ args.last) : KeepsTo k (plotting junk args k) := by
  unfold WorkItem.plotting
  rw [toInt32_eq (x := (k : Int)) (by omega) (by omega)]
  simp only
  split
  · exact .pure _
  · refine .bind ?_ fun digest => ?_
    · by_cases rounds : args.last ≤ args.first
      · exact .hashLoop lane args (by omega) first junk
      · have none : (args.first - args.last).toNat = 0 := by omega
        rw [none]
        exact .pure _
    · split
      · exact .xorLoop lane digest (Nat.le_refl 8192)
      · exact .pure _

end KeepsTo

end WorkItem

/-! ## Launches -/

open WorkItem

/-- The words of a lane. -/
def laneWords (k : Nat) (buffer : Memory) (j : Fin 65536) : Word := buffer.read32 (laneIndex k j)

private theorem separate_lanes (g : Nat) :
    Separate Access.serve (fun k : Fin g => InLane k) (fun _ => Fin 65536 → Word)
      (fun k => laneWords k) where
  answers := by
    intro k access s t inLane same
    cases access with
    | load index =>
        obtain ⟨j, bound, rfl⟩ := inLane
        exact congrFun same ⟨j, bound⟩
    | store index v => rfl
  effects := by
    intro k access s t _ same
    cases access with
    | load index => exact same
    | store index v =>
        ext1 j
        have word := congrFun same j
        simp only [laneWords, Access.serve, Memory.read32_write32] at word ⊢
        rw [word]
  others := by
    intro k other access s inLane differ
    cases access with
    | load index => rfl
    | store index v =>
        obtain ⟨j, bound, rfl⟩ := inLane
        ext1 i
        refine Memory.read32_write32_of_ne s v fun same => differ ?_
        have apart := laneIndex_injective (by omega) (by omega) (by omega) (by omega) same
        exact Fin.ext (by omega)

namespace GpuPlotter

variable {gpu : GpuPlotter}

variable (gpu) in
/-- The work items of a launch, started on a buffer. -/
def workItems (args : KernelArgs) (devBuff : Memory) :
    Machine (SideBySide Memory Access Access.Reply Unit (Fin gpu.globalWorkSize))
      (Fin gpu.globalWorkSize) :=
  sideBySide Access.serve devBuff fun globalId => plotting gpu.junk args globalId

/-- The words outside the first `g` lanes. -/
def otherWords (g : Nat) (buffer : Memory)
    (index : { index : Int // ∀ k : Fin g, ¬OfLane k index }) : Word := buffer.read32 index

/-- A buffer is its lanes and the words outside them. -/
private theorem memory_ext {g : Nat} {left right : Memory}
    (lanes : ∀ k : Fin g, laneWords k left = laneWords k right)
    (rest : otherWords g left = otherWords g right) : left = right := by
  have words : ∀ index, left.read32 index = right.read32 index := by
    intro index
    by_cases inside : ∃ k : Fin g, OfLane k index
    · obtain ⟨k, j, bound, rfl⟩ := inside
      exact congrFun (lanes k) ⟨j, bound⟩
    · exact congrFun rest ⟨index, not_exists.mp inside⟩
  ext1 a
  have byte := Memory.byte_eq_of_read32 (words (a / 4)) (k := a % 4) (by omega) (by omega)
  rwa [Int.mul_ediv_add_emod] at byte

/-- No work item touches the words outside the lanes. -/
private theorem otherWords_serve {g : Nat} {k : Fin g} {access : Access} {buffer : Memory}
    (inLane : InLane k access) :
    otherWords g (access.serve buffer).2 = otherWords g buffer := by
  cases access with
  | load _ => rfl
  | store index v =>
      ext1 ⟨other, outside⟩
      refine Memory.read32_write32_of_ne buffer v ?_
      rintro rfl
      exact outside k inLane

/-- However the accesses of a launch follow each other, it leaves the buffer that the work
items leave one after the other. -/
theorem launch_interleaved (bounded : gpu.globalWorkSize ≤ 32768) {args : KernelArgs}
    (first : args.first ≤ 8192) (last : -1 ≤ args.last) {devBuff : Memory}
    {s : SideBySide Memory Access Access.Reply Unit (Fin gpu.globalWorkSize)}
    (reached : (gpu.workItems args devBuff).Reachable s) (finished : s.Finished) :
    s.state = gpu.launch args devBuff := by
  have only : ∀ k : Fin gpu.globalWorkSize, (plotting gpu.junk args k).Only (InLane k) := fun k =>
    (KeepsTo.plotting (Nat.lt_of_lt_of_le k.isLt bounded) gpu.junk first last).only
  have perm := gpu.order_perm args.first
  have distinct : (gpu.order args.first).Nodup :=
    perm.nodup_iff.mpr (List.nodup_finRange _)
  have complete : ∀ k, k ∈ gpu.order args.first := fun k =>
    perm.mem_iff.mpr (List.mem_finRange k)
  have serial := (separate_lanes gpu.globalWorkSize).serializes only (otherWords _)
    otherWords_serve memory_ext reached finished distinct complete
  simp only [alone_plotting] at serial
  exact serial

/-- The launches of one call from hash `i` on, the accesses of each in some order. A launch
begins when the one before it is over. -/
inductive Launches (gpu : GpuPlotter) (plotId startNonce : BitVec 64) (nonces : Nat) :
    Int → Memory → Memory → Prop where
  | ended {i : Int} {devBuff : Memory} (ends : i ≤ 0) :
      Launches gpu plotId startNonce nonces i devBuff devBuff
  | launch {i : Int} {devBuff final : Memory} (positive : 0 < i)
      {s : SideBySide Memory Access Access.Reply Unit (Fin gpu.globalWorkSize)}
      (reached : (gpu.workItems (gpu.launchArgs plotId startNonce nonces i) devBuff).Reachable s)
      (finished : s.Finished)
      (rest : Launches gpu plotId startNonce nonces (toInt32 (i - gpu.step)) s.state final) :
      Launches gpu plotId startNonce nonces i devBuff final

/-- The last hash of a launch that starts at a multiple of the step. -/
private theorem launchArgs_ended (supported : gpu.Supported) (plotId startNonce : BitVec 64)
    (nonces : Nat) {i : Int} (positive : 0 < i) (upper : i ≤ 8192) (whole : gpu.step ∣ i) :
    -1 ≤ (gpu.launchArgs plotId startNonce nonces i).last := by
  have lower := supported.stepPositive
  have above := Int.le_of_dvd positive whole
  unfold launchArgs
  simp only
  rw [toInt32_eq (x := i - gpu.step) (by omega) (by omega)]
  split
  · rw [toInt32_eq (by omega) (by omega)]
    omega
  · rw [toInt32_eq (by omega) (by omega)]
    omega

/-- The launches leave what the launches do whose work items run one after the other. -/
private theorem Launches.eq_launchLoop (supported : gpu.Supported) {plotId startNonce : BitVec 64}
    {nonces : Nat} {i : Int} {devBuff final : Memory}
    (launches : gpu.Launches plotId startNonce nonces i devBuff final) (upper : i ≤ 8192)
    (whole : gpu.step ∣ i) {fuel : Nat} (enough : i ≤ fuel) :
    final = gpu.launchLoop plotId startNonce nonces fuel i devBuff := by
  have lower := supported.stepPositive
  induction launches generalizing fuel with
  | ended ends =>
      cases fuel with
      | zero => rfl
      | succ fuel => rw [launchLoop, if_neg (by omega)]
  | @launch i devBuff final positive s reached finished rest ih =>
      have above := Int.le_of_dvd positive whole
      have next : toInt32 (i - gpu.step) = i - gpu.step := toInt32_eq (by omega) (by omega)
      have left := launch_interleaved supported.bounded upper
        (launchArgs_ended supported plotId startNonce nonces positive upper whole) reached finished
      obtain ⟨fuel, rfl⟩ : ∃ n, fuel = n + 1 := ⟨fuel - 1, by omega⟩
      rw [launchLoop, if_pos positive, ← left]
      refine ih ?_ ?_ ?_
      · omega
      · rw [next]
        exact Int.dvd_sub whole (Int.dvd_refl _)
      · omega

/-- Every call can run to its end. -/
theorem exists_launches (supported : gpu.Supported) (plotId startNonce : BitVec 64)
    (nonces : Nat) {i : Int} (upper : i ≤ 8192) (devBuff : Memory) :
    ∃ final, gpu.Launches plotId startNonce nonces i devBuff final := by
  have lower := supported.stepPositive
  obtain ⟨n, bound⟩ : ∃ n : Nat, i ≤ n := ⟨i.toNat, by omega⟩
  induction n generalizing i devBuff with
  | zero => exact ⟨devBuff, .ended bound⟩
  | succ n ih =>
      by_cases positive : 0 < i
      · obtain ⟨s, reached, finished, _⟩ := sideBySide_oneByOne Access.serve devBuff
          (fun k : Fin gpu.globalWorkSize =>
            plotting gpu.junk (gpu.launchArgs plotId startNonce nonces i) k)
          (List.nodup_finRange _) List.mem_finRange
        have above := Int.le_of_dvd (by decide) supported.stepDivides
        have next : toInt32 (i - gpu.step) = i - gpu.step := toInt32_eq (by omega) (by omega)
        obtain ⟨final, rest⟩ := ih (i := toInt32 (i - gpu.step)) (by omega) s.state (by omega)
        exact ⟨final, .launch positive reached finished rest⟩
      · exact ⟨devBuff, .ended (by omega)⟩

/-- However a supported device mixes the accesses of the work items, a call leaves the buffer
that it leaves when they run one after the other, and every lane below `nonces` holds its
nonce. -/
theorem interleaved_plotted (supported : gpu.Supported) {plotId startNonce : BitVec 64}
    {nonces : Nat} (within : nonces ≤ gpu.globalWorkSize) {devBuff final : Memory}
    (launches : gpu.Launches plotId startNonce nonces 8192 devBuff final) :
    final = gpu.compute devBuff plotId startNonce nonces ∧
      ∀ k, k < nonces → LanePlotted (laneSeed plotId startNonce k) k final := by
  have same : final = gpu.compute devBuff plotId startNonce nonces := by
    unfold compute
    rw [Nat.min_eq_left within]
    exact launches.eq_launchLoop supported (Int.le_refl _) supported.stepDivides (by omega)
  refine ⟨same, fun k lane => ?_⟩
  rw [same]
  exact compute_plotted supported devBuff plotId startNonce within lane

/-- A device of sixteen work items. -/
theorem interleaved_plotted_inOrder : ∃ final : Memory,
    (inOrder 16).Launches 1 7 16 8192 (fun _ => 0) final ∧
      final = (inOrder 16).compute (fun _ => 0) 1 7 16 ∧
      ∀ k, k < 16 → LanePlotted (laneSeed 1 7 k) k final := by
  have supported : (inOrder 16).Supported := inOrder_supported (by decide) (by decide) (by decide)
  obtain ⟨final, launches⟩ :=
    exists_launches supported 1 7 16 (Int.le_refl 8192) fun _ => (0 : Byte)
  exact ⟨final, launches, interleaved_plotted supported (Nat.le_refl 16) launches⟩

end GpuPlotter

end HyperPlotter.Poc

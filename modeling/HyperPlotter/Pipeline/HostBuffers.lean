import HyperPlotter.Pipeline.Lanes
import HyperPlotter.Pipeline.Writer
import Mathlib.Order.CompletePartialOrder
import Mathlib.Order.Interval.Set.Disjoint
import Mathlib.Order.Interval.Set.LinearOrder

/-!
# The host buffers

The accesses of one hash task to its block and to the write buffer: the
read-backs of `hasher_worker::run`, the loads and the stores of `transposition`
in `perform_write_plot`. They are stated for any rounding of the `int` results.
Without one, every access is inside its buffer and no read-back overwrites
another's lanes; with that of the machine the accesses are the same exactly while
the lane addresses and the host pointer's product fit an `int`.
-/

namespace HyperPlotter.Pipeline

open Foundation Poc Interaction

/-! ## The accesses -/

section Accesses

variable (int : Int → Int)

/-- The calls of `plot` in the rounds of `while (total_nonces > 0)`. -/
def readBacks (gws : Nat) : Nat → Int → Nat → Int → List Chunk
  | 0, _, _, _ => []
  | fuel + 1, totalNonces, startNonces, hostBuff =>
    if totalNonces > 0 then
      let nonces := min totalNonces (int gws)
      ⟨startNonces, nonces, hostBuff⟩ :: readBacks gws fuel (int (totalNonces - nonces))
        (toUInt64 (startNonces + nonces)) (hostBuff + int (nonces * plotSize))
    else []

/-- The calls of `plot` for one hash task. -/
def HasherTask.readBacks (gws : Nat) (task : HasherTask) : List Chunk :=
  Pipeline.readBacks int gws task.nonces.toNat task.nonces task.sn 0

/-- `Address(nonce, hash, word)`. -/
def address (nonce hash word : Int) : Int :=
  let block := int (int (nonce / 16 * 16 * 8) * 8192)
  let row := int (int (hash * 16) * 8)
  int (int (int (block + row) + int (word * 16)) + nonce % 16)

/-- The index `des[w]` is loaded from. -/
def sourceWord (curScoop nstart : Int) (w : Nat) : Int :=
  if w < 8 then address int nstart (curScoop * 2) w
  else address int nstart (8192 - (curScoop * 2 + 1)) (w - 8)

/-- One call of `transposition`: the lanes from `nstart` on. -/
structure Gather where
  nstart : Int
  nsize : Int

/-- The calls of `transposition` for one scoop. -/
def gathers : Nat → Int → Int → List Gather
  | 0, _, _ => []
  | rounds + 1, nstart, nonces =>
    if nonces ≤ 0 then []
    else
      ⟨nstart, min nonces scoopsPerWrite⟩ ::
        gathers rounds (int (nstart + scoopsPerWrite)) (nonces - scoopsPerWrite)

/-- The calls of `transposition` for one scoop of a hash task. -/
def HasherTask.gathers (task : HasherTask) : List Gather :=
  Pipeline.gathers int task.nonces.toNat 0 task.nonces

/-- The bytes of a word of a buffer. -/
def wordBytes (word : Int) : Set Int := Set.Ico (4 * word) (4 * word + 4)

/-- The bytes of the block a read-back overwrites: always `gws` nonces. -/
def Chunk.copied (gws : Nat) (chunk : Chunk) : Set Int :=
  Set.Ico chunk.hostBuff (chunk.hostBuff + (gws * plotSize : Nat))

/-- A word of the block that a read-back fills with a word of one of its lanes. -/
def Chunk.Fills (chunk : Chunk) (word : Int) : Prop :=
  ∃ lane hash part : Int, (lane, hash, part) ∈ laneWords chunk.nonces ∧
    4 * word = chunk.hostBuff + 4 * address int lane hash part

/-- The bytes of a task's block. -/
def blockBytes (workSize : Nat) : Set Int := Set.Ico 0 (workSize * plotSize : Nat)

/-- `write_buffer_`, of `SCOOP_BYTES_PER_WRITE` bytes. -/
def writeBufferBytes : Set Int := Set.Ico 0 (scoopsPerWrite * 64)

/-- No access of a hash task leaves its buffer, no read-back alters a lane that was
filled before, and no word is loaded that was not filled. -/
structure BuffersKept (gws workSize : Nat) (task : HasherTask) : Prop where
  copied : ∀ chunk ∈ task.readBacks int gws, chunk.copied gws ⊆ blockBytes workSize
  kept : (task.readBacks int gws).Pairwise fun earlier later =>
    ∀ word, earlier.Fills int word → Disjoint (wordBytes word) (later.copied gws)
  loaded : ∀ gather ∈ task.gathers int, ∀ curScoop : Int, 0 ≤ curScoop → curScoop < 4096 →
    ∀ t : Nat, t < gather.nsize → ∀ w : Nat, w < 16 →
      wordBytes (sourceWord int curScoop (gather.nstart + t) w) ⊆ blockBytes workSize ∧
      ∃ chunk ∈ task.readBacks int gws,
        chunk.Fills int (sourceWord int curScoop (gather.nstart + t) w)
  stored : ∀ gather ∈ task.gathers int, ∀ t : Nat, t < gather.nsize → ∀ w : Nat, w < 16 →
    wordBytes (16 * t + w : Nat) ⊆ writeBufferBytes

end Accesses

/-! ## Exact arithmetic -/

/-- The macro without rounding. -/
theorem address_id (nonce hash word : Int) : address id nonce hash word = exactAddress nonce hash word := by
  unfold address exactAddress
  simp only [id_eq]
  omega

/-- The word a scoop's word is loaded from is one of the lane. -/
theorem sourceWord_id {curScoop : Int} (lower : 0 ≤ curScoop) (upper : curScoop < 4096) (lane : Int)
    {w : Nat} (word : w < 16) : ∃ hash part : Int, (0 ≤ hash ∧ hash < 8192) ∧
      (0 ≤ part ∧ part < 8) ∧ sourceWord id curScoop lane w = exactAddress lane hash part := by
  unfold sourceWord
  split
  · exact ⟨curScoop * 2, w, by omega, by omega, address_id ..⟩
  · exact ⟨8192 - (curScoop * 2 + 1), w - 8, by omega, by omega, address_id ..⟩

section Exact

variable {g : Nat}

/-- A round for the lanes from `first` on, of those from `base` on. -/
structure RoundAt (g : Nat) (base total : Int) (chunk : Chunk) (first : Int) : Prop where
  hostBuff : chunk.hostBuff = 262144 * first
  nonces : chunk.nonces = min (base + total - first) g
  step : ∃ rounds : Nat, first = base + g * rounds
  started : first < base + total

/-- The first round. -/
theorem RoundAt.start {base total nonces : Int} (more : 0 < total) (size : nonces = min total g)
    (sn : Nat) : RoundAt g base total ⟨sn, nonces, 262144 * base⟩ base where
  hostBuff := rfl
  nonces := by
    rw [add_sub_cancel_left]
    exact size
  step := ⟨0, (Int.add_zero base).symm⟩
  started := Int.lt_add_of_pos_right base more

/-- Rounds after the first one are rounds of the whole loop. -/
theorem RoundAt.later {base total first : Int} {chunk : Chunk}
    (round : RoundAt g (base + g) (total - g) chunk first) : RoundAt g base total chunk first := by
  obtain ⟨rounds, place⟩ := round.step
  have nonces := round.nonces
  have started := round.started
  refine ⟨round.hostBuff, ?_, ⟨rounds + 1, ?_⟩, ?_⟩
  · omega
  · rw [place, Int.natCast_succ, Int.mul_add, Int.mul_one]
    omega
  · omega

/-- A round starts at or behind the base. -/
theorem RoundAt.base_le {base total first : Int} {chunk : Chunk}
    (round : RoundAt g base total chunk first) : base ≤ first := by
  obtain ⟨rounds, rfl⟩ := round.step
  exact Int.le_add_of_nonneg_right (Int.mul_nonneg (Int.natCast_nonneg g) (Int.natCast_nonneg rounds))

/-- Nothing is read back when no nonces are left. -/
theorem readBacks_none (int : Int → Int) (fuel : Nat) {total : Int} (done : total ≤ 0) (sn : Nat)
    (hostBuff : Int) : readBacks int g fuel total sn hostBuff = [] := by
  cases fuel with
  | zero => rfl
  | succ fuel => rw [readBacks, if_neg (Int.not_lt.mpr done)]

/-- The last round reads what is left. -/
theorem readBacks_last {int : Int → Int} (size : int g = g) (zero : int 0 = 0) (fuel : Nat)
    {total : Int} (more : 0 < total) (last : total ≤ g) (sn : Nat) (hostBuff : Int) :
    readBacks int g (fuel + 1) total sn hostBuff = [⟨sn, total, hostBuff⟩] := by
  have nonces : min total (int g) = total := by
    rw [size]
    exact min_eq_left last
  rw [readBacks, if_pos more, nonces]
  simp only [Int.sub_self, zero]
  rw [readBacks_none int fuel (Int.le_refl 0)]

/-- A round reads a whole work size while more is left. -/
theorem readBacks_cons {int : Int → Int} (size : int g = g) (fuel : Nat) {total : Int}
    (left : int (total - g) = total - g) (product : int (g * plotSize) = g * plotSize)
    (more : (g : Int) < total) (sn : Nat) (base : Int) :
    readBacks int g (fuel + 1) total sn (262144 * base) =
      ⟨sn, g, 262144 * base⟩ ::
        readBacks int g fuel (total - g) (toUInt64 ((sn : Int) + g)) (262144 * (base + g)) := by
  have nonces : min total (int g) = g := by
    rw [size]
    exact min_eq_right (Int.le_of_lt more)
  have advance : 262144 * base + (g : Int) * plotSize = 262144 * (base + g) := by
    rw [Int.mul_comm (g : Int), show ((plotSize : Nat) : Int) = 262144 from rfl, Int.mul_add]
  rw [readBacks, if_pos (by omega), nonces]
  simp only [left, product]
  rw [advance]

/-- Every call is a round. -/
theorem exists_roundAt (fuel : Nat) : ∀ (total base : Int) (sn : Nat),
    ∀ chunk ∈ readBacks id g fuel total sn (262144 * base),
      ∃ first, RoundAt g base total chunk first := by
  induction fuel with
  | zero => exact fun _ _ _ _ member => by cases member
  | succ fuel ih =>
      intro total base sn chunk member
      by_cases more : 0 < total
      · by_cases last : total ≤ g
        · rw [readBacks_last rfl rfl fuel more last] at member
          obtain rfl := List.mem_singleton.mp member
          exact ⟨base, .start more (min_eq_left last).symm sn⟩
        · rw [readBacks_cons rfl fuel rfl rfl (Int.not_le.mp last)] at member
          rcases List.mem_cons.mp member with rfl | later
          · exact ⟨base, .start more (min_eq_right (le_of_not_ge last)).symm sn⟩
          · obtain ⟨first, round⟩ := ih _ _ _ chunk later
            exact ⟨first, round.later⟩
      · rw [readBacks_none id (fuel + 1) (Int.not_lt.mp more)] at member
        cases member

/-- A later call is a chunk or more behind an earlier one. -/
theorem readBacks_pairwise (fuel : Nat) : ∀ (total base : Int) (sn : Nat),
    (readBacks id g fuel total sn (262144 * base)).Pairwise fun earlier later : Chunk =>
      earlier.hostBuff + 262144 * g ≤ later.hostBuff := by
  induction fuel with
  | zero => exact fun _ _ _ => List.Pairwise.nil
  | succ fuel ih =>
      intro total base sn
      by_cases more : 0 < total
      · by_cases last : total ≤ g
        · rw [readBacks_last rfl rfl fuel more last]
          exact List.pairwise_singleton ..
        · rw [readBacks_cons rfl fuel rfl rfl (Int.not_le.mp last)]
          refine List.pairwise_cons.mpr ⟨fun later member => ?_, ih _ _ _⟩
          obtain ⟨first, round⟩ := exists_roundAt fuel _ _ _ later member
          have behind := round.base_le
          rw [round.hostBuff]
          show 262144 * base + 262144 * (g : Int) ≤ 262144 * first
          omega
      · rw [readBacks_none id (fuel + 1) (Int.not_lt.mp more)]
        exact List.Pairwise.nil

/-- Every lane is one of a call. -/
theorem readBacks_covers (positive : 0 < g) (fuel : Nat) : ∀ (total base lane : Int) (sn : Nat),
    total ≤ fuel → base ≤ lane → lane < base + total →
    ∃ chunk ∈ readBacks id g fuel total sn (262144 * base), ∃ first,
      RoundAt g base total chunk first ∧ first ≤ lane ∧ lane < first + chunk.nonces := by
  induction fuel with
  | zero =>
      intro total base lane sn enough lower upper
      omega
  | succ fuel ih =>
      intro total base lane sn enough lower upper
      by_cases last : total ≤ g
      · have member : (⟨sn, total, 262144 * base⟩ : Chunk) ∈
            readBacks id g (fuel + 1) total sn (262144 * base) := by
          rw [readBacks_last rfl rfl fuel (by omega) last]
          exact List.mem_singleton.mpr rfl
        exact ⟨_, member, base, .start (by omega) (min_eq_left last).symm sn, lower, upper⟩
      · rw [readBacks_cons rfl fuel rfl rfl (Int.not_le.mp last)]
        by_cases here : lane < base + g
        · exact ⟨_, List.mem_cons_self .., base,
            .start (by omega) (min_eq_right (le_of_not_ge last)).symm sn, lower, here⟩
        · obtain ⟨chunk, member, first, round, place⟩ :=
            ih (total - g) (base + g) lane (toUInt64 ((sn : Int) + g)) (by omega) (by omega) (by omega)
          exact ⟨chunk, List.mem_cons_of_mem _ member, first, round.later, place⟩

/-- A call of `transposition` is for a part of the lanes. -/
theorem gathers_within (rounds : Nat) : ∀ {nstart nonces : Int},
    ∀ gather ∈ gathers id rounds nstart nonces, nstart ≤ gather.nstart ∧
      gather.nsize ≤ scoopsPerWrite ∧ gather.nstart + gather.nsize ≤ nstart + nonces := by
  induction rounds with
  | zero => exact fun _ member => by cases member
  | succ rounds ih =>
      intro nstart nonces gather member
      rw [gathers] at member
      split at member
      · cases member
      · rcases List.mem_cons.mp member with rfl | later
        · exact ⟨Int.le_refl _, min_le_right .., Int.add_le_add_left (min_le_left ..) _⟩
        · have within := ih gather later
          simp only [id_eq, scoopsPerWrite] at within ⊢
          omega

end Exact

/-! ### Every access -/

/-- The bytes of some nonces as an `Int`. -/
theorem plotSize_mul (n : Nat) : ((n * plotSize : Nat) : Int) = 262144 * n := by
  rw [Int.natCast_mul, Int.mul_comm]
  rfl

section Kept

variable {g b : Nat} {task : HasherTask}

/-- The words of a call's lanes are within its first `g` nonces. -/
theorem Chunk.Fills.within (aligned : 16 ∣ g) {chunk : Chunk} (short : chunk.nonces ≤ g) {word : Int}
    (fills : chunk.Fills id word) :
    chunk.hostBuff ≤ 4 * word ∧ 4 * word + 4 ≤ chunk.hostBuff + 262144 * g := by
  obtain ⟨lane, hash, part, member, place⟩ := fills
  obtain ⟨⟨lower, upper⟩, words⟩ := mem_laneWords.mp member
  have bounds := exactAddress_mem (n := g) (by omega)
    (mem_laneWords.mpr ⟨⟨lower, Int.lt_of_lt_of_le upper short⟩, words⟩)
  rw [address_id] at place
  omega

/-- Every chunk of a task is read in some round. -/
theorem HasherTask.exists_roundAt (task : HasherTask) {chunk : Chunk}
    (member : chunk ∈ task.readBacks id g) :
    ∃ first, RoundAt g 0 task.nonces chunk first :=
  Pipeline.exists_roundAt task.nonces.toNat task.nonces 0 task.sn chunk member

/-- The chunks are copied into the block. -/
theorem readBacks_copied (fits : task.nonces ≤ (g * b : Nat)) :
    ∀ chunk ∈ task.readBacks id g, chunk.copied g ⊆ blockBytes (g * b) := by
  intro chunk member
  obtain ⟨first, round⟩ := task.exists_roundAt member
  obtain ⟨rounds, place⟩ := round.step
  have started := round.started
  have started_inside : g * rounds < g * b := by omega
  have room : g * (rounds + 1) ≤ g * b :=
    Nat.mul_le_mul_left g (Nat.lt_of_mul_lt_mul_left started_inside)
  rw [Nat.mul_succ] at room
  unfold Chunk.copied blockBytes
  rw [plotSize_mul, plotSize_mul, round.hostBuff, place]
  exact Set.Ico_subset_Ico (by omega) (by omega)

/-- No chunk overwrites words that an earlier one filled. -/
theorem readBacks_kept (aligned : 16 ∣ g) :
    (task.readBacks id g).Pairwise fun earlier later =>
      ∀ word, earlier.Fills id word → Disjoint (wordBytes word) (later.copied g) := by
  have ordered := readBacks_pairwise (g := g) task.nonces.toNat task.nonces 0 task.sn
  refine List.Pairwise.imp_of_mem (fun {earlier later} member _ behind word fills => ?_) ordered
  obtain ⟨first, round⟩ := task.exists_roundAt member
  have within := fills.within aligned (by rw [round.nonces]; exact min_le_right ..)
  refine Set.disjoint_left.mpr fun byte inWord inCopy => ?_
  have upper : byte < 4 * word + 4 := inWord.2
  have lower : later.hostBuff ≤ byte := inCopy.1
  omega

/-- The words of a lane of the task are filled. -/
theorem exists_fills (aligned : 16 ∣ g) (fits : task.nonces ≤ (g * b : Nat)) {lane hash part : Int}
    (inside : (lane, hash, part) ∈ laneWords task.nonces) :
    ∃ chunk ∈ task.readBacks id g, chunk.Fills id (exactAddress lane hash part) := by
  obtain ⟨⟨lower, upper⟩, words⟩ := mem_laneWords.mp inside
  have positive : 0 < g := by
    refine Nat.pos_of_ne_zero fun none => ?_
    rw [none, Nat.zero_mul] at fits
    omega
  obtain ⟨chunk, member, first, round, here, below⟩ := readBacks_covers positive task.nonces.toNat
    task.nonces 0 lane task.sn (by omega) lower (by omega)
  refine ⟨chunk, member, lane - first, hash, part, mem_laneWords.mpr ⟨by omega, words⟩, ?_⟩
  obtain ⟨rounds, rfl⟩ := round.step
  -- the chunk starts at a whole block of lanes, so its own lane numbers only shift the words
  have shift := exactAddress_chunk (g := g) (by omega) rounds (lane - (0 + g * rounds)) hash part
  rw [show (rounds : Int) * g + (lane - (0 + g * rounds)) = lane by
    rw [Int.mul_comm]
    omega] at shift
  rw [address_id, round.hostBuff, shift, Int.mul_comm (rounds : Int)]
  omega

/-- What the gathers load is in the block, and was filled by a chunk. -/
theorem gathers_loaded (aligned : 16 ∣ g) (fits : task.nonces ≤ (g * b : Nat)) :
    ∀ gather ∈ task.gathers id, ∀ curScoop : Int, 0 ≤ curScoop → curScoop < 4096 →
      ∀ t : Nat, t < gather.nsize → ∀ w : Nat, w < 16 →
        wordBytes (sourceWord id curScoop (gather.nstart + t) w) ⊆ blockBytes (g * b) ∧
        ∃ chunk ∈ task.readBacks id g,
          chunk.Fills id (sourceWord id curScoop (gather.nstart + t) w) := by
  intro gather member curScoop scoopLower scoopUpper t inside w word
  obtain ⟨start, _, finish⟩ := gathers_within _ gather member
  obtain ⟨hash, part, hashBound, partBound, source⟩ :=
    sourceWord_id scoopLower scoopUpper (gather.nstart + t) word
  have words : (gather.nstart + (t : Int), hash, part) ∈ laneWords task.nonces :=
    mem_laneWords.mpr ⟨by omega, hashBound, partBound⟩
  rw [source]
  refine ⟨?_, exists_fills aligned fits words⟩
  have inBlock : (gather.nstart + (t : Int), hash, part) ∈ laneWords (g * b : Nat) :=
    mem_laneWords.mpr ⟨by omega, hashBound, partBound⟩
  have bounds := exactAddress_mem
    (Int.natCast_dvd_natCast.mpr (Dvd.dvd.mul_right aligned b)) inBlock
  unfold wordBytes blockBytes
  rw [plotSize_mul]
  exact Set.Ico_subset_Ico (by omega) (by omega)

/-- What the gathers store is in the write buffer. -/
theorem gathers_stored : ∀ gather ∈ task.gathers id, ∀ t : Nat, t < gather.nsize →
    ∀ w : Nat, w < 16 → wordBytes (16 * t + w : Nat) ⊆ writeBufferBytes := by
  intro gather member t inside w word
  obtain ⟨_, short, _⟩ := gathers_within _ gather member
  unfold wordBytes writeBufferBytes
  exact Set.Ico_subset_Ico (by omega) (by omega)

/-- No access of a hash task leaves its buffer in exact arithmetic, whatever the work
size and the buffer factor are, nor is a lane overwritten or missing. -/
theorem buffersKept (aligned : 16 ∣ g) (fits : task.nonces ≤ (g * b : Nat)) :
    BuffersKept id g (g * b) task where
  copied := readBacks_copied fits
  kept := readBacks_kept aligned
  loaded := gathers_loaded aligned fits
  stored := gathers_stored

/-- A short last chunk of two buffers. -/
theorem buffersKept_tail : BuffersKept id 16 (16 * 2) ⟨1, 0, 24, 0, 0, 0⟩ :=
  buffersKept (by decide) (by decide)

end Kept

/-! ## The machine's accesses -/

/-- While the `int` values of the loop are exact, or there is one round. -/
theorem readBacks_toInt32 {g : Nat} (signed : g < 2147483648) (fuel : Nat) :
    ∀ (total base : Int) (sn : Nat), total < 2147483648 → g < 8192 ∨ total ≤ g →
      readBacks toInt32 g fuel total sn (262144 * base) =
        readBacks id g fuel total sn (262144 * base) := by
  have size : toInt32 (g : Int) = g := toInt32_eq (by omega) (by omega)
  induction fuel with
  | zero => exact fun _ _ _ _ _ => rfl
  | succ fuel ih =>
      intro total base sn small exact
      by_cases more : 0 < total
      · by_cases last : total ≤ g
        · rw [readBacks_last size rfl fuel more last, readBacks_last rfl rfl fuel more last]
        · have narrow : g < 8192 := by omega
          have left : toInt32 (total - g) = total - g := toInt32_eq (by omega) (by omega)
          have product : toInt32 ((g : Int) * plotSize) = g * plotSize := by
            rw [show ((plotSize : Nat) : Int) = 262144 from rfl]
            exact toInt32_eq (by omega) (by omega)
          rw [readBacks_cons size fuel left product (Int.not_le.mp last),
            readBacks_cons rfl fuel rfl rfl (Int.not_le.mp last),
            ih _ _ _ (by omega) (.inl narrow)]
      · rw [readBacks_none toInt32 _ (Int.not_lt.mp more), readBacks_none id _ (Int.not_lt.mp more)]

/-- The gathers of a short task do not wrap. -/
theorem gathers_toInt32 (rounds : Nat) : ∀ {nstart nonces : Int}, 0 ≤ nstart →
    nstart + nonces ≤ 32768 → gathers toInt32 rounds nstart nonces = gathers id rounds nstart nonces := by
  induction rounds with
  | zero => exact fun _ _ => rfl
  | succ rounds ih =>
      intro nstart nonces lower upper
      rw [gathers, gathers]
      split
      · rfl
      · have next : toInt32 (nstart + scoopsPerWrite) = nstart + scoopsPerWrite := by
          unfold scoopsPerWrite
          exact toInt32_eq (by omega) (by omega)
        rw [next, ih (by unfold scoopsPerWrite; omega) (by unfold scoopsPerWrite; omega)]
        rfl

/-- The words of the first 32768 lanes have their exact addresses. -/
theorem address_toInt32 {lane hash part : Int} (inside : (lane, hash, part) ∈ laneWords 32768) :
    address toInt32 lane hash part = address id lane hash part := by
  obtain ⟨⟨lower, upper⟩, ⟨hashLower, hashUpper⟩, partLower, partUpper⟩ := mem_laneWords.mp inside
  rw [address_id]
  exact addressesExact_iff.mpr (Int.le_refl _) lane hash part lower upper hashLower hashUpper partLower
    partUpper

/-- What a short chunk fills does not wrap. -/
theorem Chunk.fills_toInt32 {chunk : Chunk} (short : chunk.nonces ≤ 32768) (word : Int) :
    chunk.Fills toInt32 word ↔ chunk.Fills id word := by
  refine exists_congr fun lane => exists_congr fun hash => exists_congr fun part => ?_
  refine and_congr_right fun member => ?_
  obtain ⟨⟨lower, upper⟩, words⟩ := mem_laneWords.mp member
  rw [address_toInt32 (mem_laneWords.mpr ⟨⟨lower, Int.lt_of_lt_of_le upper short⟩, words⟩)]

/-- The word that a gather loads does not wrap. -/
theorem sourceWord_toInt32 {curScoop lane : Int} (scoopLower : 0 ≤ curScoop)
    (scoopUpper : curScoop < 4096) (lower : 0 ≤ lane) (upper : lane < 32768) {w : Nat}
    (word : w < 16) : sourceWord toInt32 curScoop lane w = sourceWord id curScoop lane w := by
  unfold sourceWord
  split
  · exact address_toInt32 (mem_laneWords.mpr ⟨⟨lower, upper⟩, by omega, by omega⟩)
  · exact address_toInt32 (mem_laneWords.mpr ⟨⟨lower, upper⟩, by omega, by omega⟩)

section Machine

variable {g b workSize : Nat} {task : HasherTask}

/-- The machine's accesses are the exact ones. -/
theorem BuffersKept.toInt32_of_exact (kept : BuffersKept id g workSize task)
    (signed : g < 2147483648) (lanes : task.nonces ≤ 32768) (host : g < 8192 ∨ task.nonces ≤ g) :
    BuffersKept toInt32 g workSize task := by
  have reads : task.readBacks toInt32 g = task.readBacks id g :=
    readBacks_toInt32 signed task.nonces.toNat task.nonces 0 task.sn (by omega) host
  have calls : task.gathers toInt32 = task.gathers id :=
    gathers_toInt32 task.nonces.toNat (Int.le_refl 0) (by omega)
  have short : ∀ chunk ∈ task.readBacks id g, chunk.nonces ≤ 32768 := by
    intro chunk member
    obtain ⟨first, round⟩ := task.exists_roundAt member
    have base := round.base_le
    have nonces := round.nonces
    omega
  constructor
  · rw [reads]
    exact kept.copied
  · rw [reads]
    refine List.Pairwise.imp_of_mem (fun {earlier _} member _ apart word fills => ?_) kept.kept
    exact apart word ((Chunk.fills_toInt32 (short earlier member) word).mp fills)
  · rw [reads, calls]
    intro gather member curScoop lower upper t inside w word
    obtain ⟨start, _, finish⟩ := gathers_within _ gather member
    rw [sourceWord_toInt32 lower upper (by omega) (by omega) word]
    obtain ⟨within, chunk, called, fills⟩ :=
      kept.loaded gather member curScoop lower upper t inside w word
    exact ⟨within, chunk, called, (Chunk.fills_toInt32 (short chunk called) _).mpr fills⟩
  · rw [calls]
    exact kept.stored

/-- The third call of `transposition` for a scoop loads in front of the block. -/
theorem BuffersKept.lanes_le (kept : BuffersKept toInt32 g workSize task) : task.nonces ≤ 32768 := by
  by_contra wide
  obtain ⟨rounds, count⟩ : ∃ rounds, task.nonces.toNat = rounds + 3 :=
    ⟨task.nonces.toNat - 3, by omega⟩
  have third : (⟨32768, min (task.nonces - 16384 - 16384) 16384⟩ : Gather) ∈ task.gathers toInt32 := by
    unfold HasherTask.gathers
    rw [count, gathers, if_neg (by omega), gathers, if_neg (by unfold scoopsPerWrite; omega), gathers,
      if_neg (by unfold scoopsPerWrite; omega)]
    exact List.mem_cons_of_mem _ (List.mem_cons_of_mem _ (List.mem_cons_self ..))
  have loaded := kept.loaded _ third 0 (Int.le_refl 0) (by decide) 0
    (show (0 : Int) < min (task.nonces - 16384 - 16384) 16384 by omega) 0 (by decide)
  have source : sourceWord toInt32 0 (32768 + (0 : Nat)) 0 = -2147483648 := by decide
  rw [source] at loaded
  have front := (loaded.1 (show (4 * -2147483648 : Int) ∈ wordBytes _ from ⟨by omega, by omega⟩)).1
  exact absurd front (by decide)

/-- With wide chunks the second read-back is in front of the block or on top of the
first one. -/
theorem BuffersKept.host_fits (aligned : 16 ∣ g) (kept : BuffersKept toInt32 g workSize task)
    (lanes : task.nonces ≤ 32768) : g < 8192 ∨ task.nonces ≤ g := by
  by_contra wide
  obtain ⟨narrow, second⟩ := not_or.mp wide
  have size : toInt32 (g : Int) = g := toInt32_eq (by omega) (by omega)
  have left : toInt32 (task.nonces - g) = task.nonces - g := toInt32_eq (by omega) (by omega)
  obtain ⟨fuel, count⟩ : ∃ fuel, task.nonces.toNat = fuel + 2 := ⟨task.nonces.toNat - 2, by omega⟩
  obtain ⟨sn, nonces, rest, calls⟩ : ∃ sn nonces rest, task.readBacks toInt32 g =
      ⟨task.sn, g, 0⟩ :: ⟨sn, nonces, toInt32 ((g : Int) * 262144)⟩ :: rest := by
    unfold HasherTask.readBacks
    rw [count, readBacks, if_pos (by omega), size, min_eq_right (by omega)]
    simp only [left, Int.zero_add]
    rw [readBacks, if_pos (by omega)]
    exact ⟨_, _, _, rfl⟩
  have copied := kept.copied
  have apart := kept.kept
  rw [calls] at copied apart
  have first := (List.pairwise_cons.mp apart).1 _ (List.mem_cons_self ..)
  have starts : toInt32 ((g : Int) * 262144) ∈
      Chunk.copied g ⟨sn, nonces, toInt32 ((g : Int) * 262144)⟩ := by
    refine ⟨Int.le_refl _, ?_⟩
    rw [plotSize_mul]
    show toInt32 ((g : Int) * 262144) < toInt32 ((g : Int) * 262144) + _
    omega
  have above := (copied _ (List.mem_cons_of_mem _ (List.mem_cons_self ..)) starts).1
  -- not in front of the block, so from lane `g - 16384` on
  have place : toInt32 ((g : Int) * 262144) = 262144 * ((g : Int) - 16384) := by
    unfold toInt32 at above ⊢
    omega
  have lane : ((g : Int) - 16384, 0, 0) ∈ laneWords g :=
    mem_laneWords.mpr ⟨by omega, by decide, by decide⟩
  have fills : Chunk.Fills toInt32 ⟨task.sn, g, 0⟩ (65536 * ((g : Int) - 16384)) := by
    refine ⟨(g : Int) - 16384, 0, 0, lane, ?_⟩
    rw [address_toInt32 (mem_laneWords.mpr ⟨by omega, by decide, by decide⟩), address_id]
    unfold exactAddress
    simp only []
    omega
  refine Set.disjoint_left.mp (first _ fills) ?_ starts
  rw [place]
  exact ⟨by omega, by omega⟩

/-- The machine keeps the buffers just when no lane address and no move of the host
pointer leaves an `int`. -/
theorem buffersKept_toInt32_iff (aligned : 16 ∣ g) (signed : g < 2147483648)
    (fits : task.nonces ≤ (g * b : Nat)) : BuffersKept toInt32 g (g * b) task ↔
      task.nonces ≤ 32768 ∧ (g < 8192 ∨ task.nonces ≤ g) := by
  constructor
  · exact fun kept => ⟨kept.lanes_le, kept.host_fits aligned kept.lanes_le⟩
  · rintro ⟨lanes, host⟩
    have kept : BuffersKept id g (g * b) task :=
      ⟨readBacks_copied fits, readBacks_kept aligned, gathers_loaded aligned fits, gathers_stored⟩
    exact kept.toInt32_of_exact signed lanes host

end Machine

/-! ### The program's accesses -/

/-- The chunks of the hasher are those read back. -/
theorem hashChunks_eq_readBacks (gws fuel : Nat) : ∀ (total : Int) (sn : Nat) (hostBuff : Int),
    hashChunks gws fuel total sn hostBuff = readBacks toInt32 gws fuel total sn hostBuff := by
  induction fuel with
  | zero => exact fun _ _ _ => rfl
  | succ fuel ih =>
      intro total sn hostBuff
      rw [hashChunks, readBacks]
      simp only [ih]

/-- A gather loads the source words. -/
theorem scoopSource_eq (src : Memory) (curScoop nstart : Int) (w : Nat) :
    scoopSource src curScoop nstart w = src.read32 (sourceWord toInt32 curScoop nstart w) := by
  unfold scoopSource sourceWord
  split <;> rfl

/-- The gathers of `perform_write_plot` are those of the task's scoops. -/
def WriterRequest.Gathers (task : HasherTask) : WriterRequest → Prop
  | .gather curScoop nstart nsize =>
    (0 ≤ curScoop ∧ curScoop < 4096) ∧ ⟨nstart, nsize⟩ ∈ task.gathers toInt32
  | _ => True

section

variable {task : HasherTask}

/-- The inner loop gathers what its task has. -/
theorem chunkLoop_gathers {curScoop : Int} (scoop : 0 ≤ curScoop ∧ curScoop < 4096) (rounds : Nat) :
    ∀ {nstart nonces : Int},
      (∀ gather ∈ gathers toInt32 rounds nstart nonces, gather ∈ task.gathers toInt32) →
      (chunkLoop curScoop rounds nstart nonces).Only (WriterRequest.Gathers task) := by
  induction rounds with
  | zero => exact fun _ => Only.perform trivial fun _ => trivial
  | succ rounds ih =>
      intro nstart nonces listed
      rw [chunkLoop]
      refine Only.perform trivial fun stop => ?_
      split
      · trivial
      · next goes =>
          have more : ¬nonces ≤ 0 := fun none => goes (by simp [none])
          rw [gathers, if_neg more] at listed
          obtain ⟨here, later⟩ := List.forall_mem_cons.mp listed
          refine Only.perform ⟨scoop, here⟩ fun _ => Only.perform trivial fun written => ?_
          cases written with
          | true => exact ih later
          | false => trivial

/-- So does the loop over the scoops. -/
theorem scoopLoop_gathers (file : PlannedFile) (rest : Nat) : ∀ {curScoop : Int}, 0 ≤ curScoop →
    curScoop + rest ≤ 4096 →
    (scoopLoop file task rest curScoop).Only (WriterRequest.Gathers task) := by
  induction rest with
  | zero => exact fun _ _ => Only.perform trivial fun _ => trivial
  | succ rest ih =>
      intro curScoop lower upper
      rw [scoopLoop]
      refine Only.perform trivial fun stop => ?_
      cases stop with
      | true => trivial
      | false =>
          refine Only.perform trivial fun sought => ?_
          cases sought with
          | false => trivial
          | true =>
              refine (chunkLoop_gathers ⟨lower, by omega⟩ _ fun _ member => member).bind
                fun written => ?_
              cases written with
              | true => exact ih (by omega) (by omega)
              | false => trivial

/-- Whatever the file operations answer. -/
theorem performWritePlot_gathers (file : PlannedFile) :
    (performWritePlot file task).Only (WriterRequest.Gathers task) :=
  scoopLoop_gathers file scoopsPerPlot (Int.le_refl 0) (Int.le_refl 4096)

end

/-! ### What they change -/

namespace BuffersKept

variable {gpu : GpuPlotter} {gws workSize : Nat} {task : HasherTask}

/-- The read-backs change nothing around the block. -/
theorem hashTask_outside (kept : BuffersKept toInt32 gpu.globalWorkSize workSize task)
    (devBuff block : Memory) {a : Int} (outside : a ∉ blockBytes workSize) :
    (hashTask gpu devBuff block task).2 a = block a := by
  have inside := kept.copied
  unfold HasherTask.readBacks at inside
  rw [← hashChunks_eq_readBacks] at inside
  unfold hashTask HasherTask.chunks
  generalize hashChunks gpu.globalWorkSize task.nonces.toNat task.nonces task.sn 0 = chunks at inside
  induction chunks generalizing devBuff block with
  | nil => rfl
  | cons chunk chunks ih =>
      obtain ⟨here, later⟩ := List.forall_mem_cons.mp inside
      rw [List.foldl_cons, ih _ _ later]
      exact GpuPlotter.plot_outside _ _ _ _ _ fun within => outside (here within)

/-- What is gathered depends on the block alone. -/
theorem transposition_congr (kept : BuffersKept toInt32 gws workSize task) {data data' : Memory}
    (same : ∀ a ∈ blockBytes workSize, data a = data' a) (writeBuff : Memory) {gather : Gather}
    (member : gather ∈ task.gathers toInt32) {curScoop : Int} (lower : 0 ≤ curScoop)
    (upper : curScoop < 4096) :
    transposition data writeBuff curScoop gather.nstart gather.nsize =
      transposition data' writeBuff curScoop gather.nstart gather.nsize := by
  refine transposition_eq_of_source fun t inside w word => ?_
  obtain ⟨within, _⟩ := kept.loaded gather member curScoop lower upper t (by omega) w word
  rw [scoopSource_eq, scoopSource_eq]
  refine Memory.read32_congr fun k first last => same _ (within ?_)
  exact ⟨by omega, by omega⟩

/-- Nothing around the write buffer changes. -/
theorem transposition_outside (kept : BuffersKept toInt32 gws workSize task)
    (data writeBuff : Memory) {gather : Gather} (member : gather ∈ task.gathers toInt32)
    (curScoop : Int) {a : Int} (outside : a ∉ writeBufferBytes) :
    transposition data writeBuff curScoop gather.nstart gather.nsize a = writeBuff a := by
  refine byte_transposition_of_ne data writeBuff curScoop gather.nstart fun within => outside ?_
  have stored := kept.stored gather member (a / 64).toNat (by omega) (a / 4 % 16).toNat (by omega)
  exact stored ⟨by omega, by omega⟩

/-- Only a gather changes the write buffer. -/
theorem respond_writeBuffer (choice : Choice) (s : WriterState) {request : WriterRequest}
    (other : ∀ curScoop nstart nsize, request ≠ .gather curScoop nstart nsize) :
    (s.respond choice request).2.writeBuffer = s.writeBuffer := by
  cases request with
  | gather curScoop nstart nsize => exact absurd rfl (other curScoop nstart nsize)
  | openFile file create =>
      show (s.openFile choice.toOutcome file create).2.writeBuffer = s.writeBuffer
      unfold WriterState.openFile
      split_ifs <;> rfl
  | allocate bytes =>
      show (s.allocate choice.toOutcome bytes).2.writeBuffer = s.writeBuffer
      unfold WriterState.allocate
      cases s.opened with
      | none => rfl
      | some opened =>
          simp only []
          split_ifs <;> rfl
  | seek offset =>
      show (s.seek choice.toOutcome offset).2.writeBuffer = s.writeBuffer
      unfold WriterState.seek
      cases s.opened <;> rfl
  | write bytes =>
      show (s.write choice.toOutcome bytes).2.writeBuffer = s.writeBuffer
      unfold WriterState.write
      cases s.opened <;> rfl
  | rename file =>
      show (s.rename choice.toOutcome file).2.writeBuffer = s.writeBuffer
      unfold WriterState.rename
      cases s.plotting file with
      | none => rfl
      | some entry =>
          simp only []
          split_ifs <;> rfl
  | _ => rfl

/-- The whole of `perform_write_plot` changes nothing around the write buffer. -/
theorem performWritePlot_outside (kept : BuffersKept toInt32 gws workSize task)
    (choices : Nat → Choice) (file : PlannedFile) (s : WriterState) (i : Nat) {a : Int}
    (outside : a ∉ writeBufferBytes) :
    (exec (WriterState.respond ·) choices (performWritePlot file task) s i).2.1.writeBuffer a =
      s.writeBuffer a := by
  refine (performWritePlot_gathers file).exec
    (fun t : WriterState => t.writeBuffer a = s.writeBuffer a) rfl i ?_
  intro choice t request gathers same
  by_cases gather : ∃ curScoop nstart nsize, request = .gather curScoop nstart nsize
  · obtain ⟨curScoop, nstart, nsize, rfl⟩ := gather
    exact (kept.transposition_outside choice.block t.writeBuffer gathers.2 curScoop outside).trans same
  · rw [respond_writeBuffer choice t fun curScoop nstart nsize is =>
      gather ⟨curScoop, nstart, nsize, is⟩]
    exact same

end BuffersKept

end HyperPlotter.Pipeline

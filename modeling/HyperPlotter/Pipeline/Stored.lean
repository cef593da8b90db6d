import HyperPlotter.Pipeline.Writer

/-!
# What a file holds

A file of `N` nonces is `4096 * N` slots of 64 bytes: slot `c * N + k` belongs
to scoop `c` of nonce `k`. A slot holds a lane of a block when its bytes are
those `transposition` gathers from the lane.
-/

namespace HyperPlotter.Pipeline

open Foundation Poc

/-- Byte `b` of scoop `c` of lane `k` as `transposition` gathers it. -/
def laneByte (block : Memory) (c k b : Nat) : Byte :=
  Word.byte (scoopSource block c k (b / 4)) (b % 4)

/-- The gathered bytes of a run of lanes. -/
theorem transposition_laneByte (block writeBuffer : Memory) (c nstart : Nat) {n t b : Nat}
    (inside : t < n) (byte : b < 64) :
    transposition block writeBuffer c nstart n (64 * t + b : Nat) =
      laneByte block c (nstart + t) b := by
  have word := read32_transposition block writeBuffer c nstart inside (w := b / 4) (by omega)
  have bytes := Memory.byte_read32 (transposition block writeBuffer c nstart n)
    (16 * t + b / 4 : Nat) (k := b % 4) (by omega)
  rw [word] at bytes
  rw [laneByte, Int.natCast_add nstart t, bytes]
  exact congrArg _ (by omega)

/-- Slot `q` of the file is written with scoop `c` of lane `k`. -/
structure SlotHolds (entry : FileEntry) (q : Nat) (block : Memory) (c k : Nat) : Prop where
  inside : 64 * (q + 1) ≤ entry.size
  bytes : ∀ b : Nat, b < 64 → entry.bytes (64 * q + b : Nat) = laneByte block c k b

/-- Slots of different scoops and nonces are different slots. -/
theorem slot_injective {nonces c c' x x' : Nat} (below : x < nonces) (below' : x' < nonces)
    (same : c * nonces + x = c' * nonces + x') : c = c' ∧ x = x' := by
  have quotient : (c * nonces + x) / nonces = c := by
    rw [Nat.mul_comm, Nat.mul_add_div (by omega), Nat.div_eq_of_lt below, Nat.add_zero]
  have quotient' : (c' * nonces + x') / nonces = c' := by
    rw [Nat.mul_comm, Nat.mul_add_div (by omega), Nat.div_eq_of_lt below', Nat.add_zero]
  have scoops : c = c' := by rw [← quotient, same, quotient']
  subst scoops
  exact ⟨rfl, by omega⟩

/-- The slots of a scoop end within the file. -/
theorem slot_le {nonces c x : Nat} (scoop : c < 4096) (below : x ≤ nonces) :
    c * nonces + x ≤ 4096 * nonces := by
  have rows : (c + 1) * nonces ≤ 4096 * nonces := Nat.mul_le_mul_right nonces (by omega)
  rw [Nat.add_mul, Nat.one_mul] at rows
  omega

/-- A slot is beside a run of slots of one scoop, unless it is one of them. -/
theorem slot_beside {nonces c c' x x' m : Nat} (below : x' < nonces) (fits : x + m ≤ nonces)
    (differ : c' ≠ c ∨ x' < x ∨ x + m ≤ x') :
    c' * nonces + x' < c * nonces + x ∨ c * nonces + x + m ≤ c' * nonces + x' := by
  by_contra within
  obtain ⟨j, step, shift⟩ : ∃ j, j < m ∧ c' * nonces + x' = c * nonces + (x + j) :=
    ⟨c' * nonces + x' - (c * nonces + x), by omega, by omega⟩
  obtain ⟨scoops, places⟩ := slot_injective below (show x + j < nonces by omega) shift
  omega

/-- A file holds the data of a hash task: every scoop of each of its lanes. -/
def TaskHolds (entry : FileEntry) (file : PlannedFile) (task : HasherTask) (block : Memory) : Prop :=
  ∀ c k : Nat, c < 4096 → (k : Int) < task.nonces →
    SlotHolds entry (c * file.nonces.toNat + (task.offset file + k)) block c k

/-- A file holds the data of those of the given tasks that belong to file `i`. -/
def FileHolds (entry : FileEntry) (file : PlannedFile) (i : Nat)
    (tasks : List (HasherTask × Memory)) : Prop :=
  ∀ task block, (task, block) ∈ tasks → task.currentWriteTask = (i : Int) →
    TaskHolds entry file task block

/-! ## Tasks within their file -/

section Tasks

variable {plan : List PlannedFile}

/-- The first nonce of the next task is the number of nonces before it. -/
theorem Continues.offset_eq (valid : ∀ file ∈ plan, file.Valid) {earlier : List HasherTask}
    {task : HasherTask} {index : Nat} {file : PlannedFile} (sequence : Sequence plan earlier)
    (next : Continues plan earlier task index file) :
    (task.offset file : Int) = issuedNonces index earlier := by
  obtain ⟨lower, upper⟩ := sequence.issued_le (PlannedFile.typed valid) next.found
  have bounds := valid file (List.mem_of_getElem? next.found)
  have start := bounds.start
  have bounded := bounds.bounded
  unfold HasherTask.offset
  rw [next.start]
  unfold toUInt64
  omega

/-- Each task of a series ends within what the series covers of its file. -/
theorem Sequence.offset_add_le (valid : ∀ file ∈ plan, file.Valid) {tasks : List HasherTask}
    (sequence : Sequence plan tasks) {task : HasherTask} (member : task ∈ tasks) {i : Nat}
    {file : PlannedFile} (current : task.currentWriteTask = (i : Int))
    (found : plan[i]? = some file) :
    (task.offset file : Int) + task.nonces ≤ issuedNonces i tasks := by
  induction sequence with
  | nil => cases member
  | @snoc earlier last index other prior next ih =>
      have positive := next.positive
      rw [issuedNonces_append, issuedNonces_singleton]
      rcases List.mem_append.mp member with before | here
      · have bound := ih before
        split <;> omega
      · obtain rfl : task = last := by simpa using here
        have same : index = i := by
          have := next.current
          omega
        subst same
        obtain rfl : other = file := Option.some.inj (next.found.symm.trans found)
        have offset := next.offset_eq valid prior
        rw [if_pos current]
        omega

/-- Every nonce a series covers belongs to one of its tasks. -/
theorem Sequence.covers (valid : ∀ file ∈ plan, file.Valid) {tasks : List HasherTask}
    (sequence : Sequence plan tasks) {i : Nat} {file : PlannedFile} (found : plan[i]? = some file)
    {x : Nat} (below : (x : Int) < issuedNonces i tasks) :
    ∃ task ∈ tasks, task.currentWriteTask = (i : Int) ∧ task.offset file ≤ x ∧
      (x : Int) < task.offset file + task.nonces := by
  induction sequence with
  | nil =>
      rw [issuedNonces_nil] at below
      omega
  | @snoc earlier last index other prior next ih =>
      rw [issuedNonces_append, issuedNonces_singleton] at below
      by_cases earlier_x : (x : Int) < issuedNonces i earlier
      · obtain ⟨task, member, rest⟩ := ih earlier_x
        exact ⟨task, List.mem_append_left _ member, rest⟩
      · by_cases same : last.currentWriteTask = (i : Int)
        · rw [if_pos same] at below
          obtain rfl : index = i := by
            have := next.current
            omega
          obtain rfl : other = file := Option.some.inj (next.found.symm.trans found)
          have offset := next.offset_eq valid prior
          exact ⟨last, by simp, same, by omega, by omega⟩
        · rw [if_neg same] at below
          omega

end Tasks

/-- A file that holds every task of a complete series has no slot left out. -/
theorem FileHolds.slot {plan : List PlannedFile} (valid : ∀ file ∈ plan, file.Valid)
    {entry : FileEntry} {file : PlannedFile} {i : Nat} {tasks : List (HasherTask × Memory)}
    (holds : FileHolds entry file i tasks) (sequence : Sequence plan (tasks.map Prod.fst))
    (found : plan[i]? = some file) (complete : issuedNonces i (tasks.map Prod.fst) = file.nonces)
    {c x : Nat} (scoop : c < 4096) (nonce : (x : Int) < file.nonces) :
    ∃ task block, (task, block) ∈ tasks ∧ task.currentWriteTask = (i : Int) ∧
      task.offset file ≤ x ∧ (x : Int) < task.offset file + task.nonces ∧
      SlotHolds entry (c * file.nonces.toNat + x) block c (x - task.offset file) := by
  rw [← complete] at nonce
  obtain ⟨task, member, current, lower, upper⟩ := sequence.covers valid found nonce
  obtain ⟨pair, paired, same⟩ := List.mem_map.mp member
  subst same
  have slot := holds pair.1 pair.2 paired current c (x - pair.1.offset file) scoop (by omega)
  rw [show pair.1.offset file + (x - pair.1.offset file) = x by omega] at slot
  exact ⟨pair.1, pair.2, paired, current, lower, upper, slot⟩

/-! ## What a write leaves -/

/-- The entry after some bytes of a gathered run of lanes were written. -/
def FileEntry.written (entry : FileEntry) (position : Nat) (buffer : Memory) (count : Nat) :
    FileEntry :=
  ⟨if count = 0 then entry.size else max entry.size (position + count),
    entry.bytes.copy position buffer 0 count⟩

/-- Slots beside the written ones keep their data, even when the write stops
half way. -/
theorem SlotHolds.written {entry : FileEntry} {q p m count : Nat} {block buffer : Memory}
    {c k : Nat} (slot : SlotHolds entry q block c k) (bound : count ≤ 64 * m)
    (beside : q < p ∨ p + m ≤ q) :
    SlotHolds (entry.written (64 * p) buffer count) q block c k := by
  constructor
  · have inside := slot.inside
    unfold FileEntry.written
    simp only []
    split <;> omega
  · intro b byte
    rw [← slot.bytes b byte]
    exact Memory.copy_outside _ _ 0 (by omega)

/-- A written slot holds its lane. -/
theorem slotHolds_written (entry : FileEntry) {p m t : Nat} (block buffer : Memory)
    (c nstart : Nat) (inside : t < m) :
    SlotHolds (entry.written (64 * p) (transposition block buffer c nstart m) (64 * m)) (p + t)
      block c (nstart + t) := by
  constructor
  · unfold FileEntry.written
    simp only []
    rw [if_neg (by omega)]
    omega
  · intro b byte
    have gathered := transposition_laneByte block buffer c nstart inside byte
    rw [← gathered]
    refine (Memory.copy_inside entry.bytes _ 0 (by omega)).trans ?_
    exact congrArg _ (by omega)

end HyperPlotter.Pipeline

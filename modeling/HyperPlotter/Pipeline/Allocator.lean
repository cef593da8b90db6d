import Mathlib.Algebra.BigOperators.Group.List.Basic
import Mathlib.Algebra.Ring.Nat
import Mathlib.Data.List.Nodup
import Mathlib.Order.Interval.Finset.Nat
import Mathlib.Data.List.Perm.Basic
import HyperPlotter.Foundation.MachineInt

/-!
# The block allocator

`block_allocator` with its maps of free and used blocks. A block is handed out
again only after it was retained.
-/

namespace HyperPlotter.Pipeline

open Foundation

/-- `paged_block`: the address and the length of a block. -/
structure PagedBlock where
  data : Nat
  len : Nat
deriving DecidableEq

/-- `operator bool` of `paged_block`. -/
def PagedBlock.valid (block : PagedBlock) : Bool := block.data ≠ 0 ∧ block.len ≠ 0

/-- `block_allocator`. The maps are lists of blocks; the key of a block is its
address. -/
structure BlockAllocator where
  free : List PagedBlock
  used : List PagedBlock
  totalAllocated : Nat
  maxMem : Nat

/-- What the system decides: which of the fitting free blocks the unordered map
yields first, how much memory is free, and the address `operator new` returns,
if it does not throw. -/
structure MemoryChoice where
  pick : Nat
  freeBytes : Nat
  fresh : Option Nat

namespace BlockAllocator

variable (allocator : BlockAllocator)

/-- No memory is used. -/
def empty (maxMem : Nat) : BlockAllocator := ⟨[], [], 0, maxMem⟩

/-- The free blocks of the length asked for. -/
def fitting (len : Nat) : List PagedBlock := allocator.free.filter fun block => block.len = len

/-- The size the allocator would have with one block more, as `size_t`. -/
def allocatedMem (len : Nat) : Nat := toUInt64 (allocator.totalAllocated + len)

/-- `allocate`; `none` stands for `dummy_block`. -/
def allocate (choice : MemoryChoice) (len : Nat) : Option PagedBlock × BlockAllocator :=
  match (allocator.fitting len)[choice.pick % (allocator.fitting len).length]? with
  | some block =>
    (some block, { allocator with
      free := allocator.free.erase block, used := allocator.used ++ [block] })
  | none =>
    if allocator.allocatedMem len > allocator.maxMem ∨ choice.freeBytes < len then (none, allocator)
    else
      match choice.fresh with
      | none => (none, allocator)
      | some data =>
        (some ⟨data, len⟩, { allocator with
          used := allocator.used ++ [⟨data, len⟩], totalAllocated := allocator.allocatedMem len })

/-- `retain`: `emplace` leaves an entry with the same key alone. -/
def retain (block : PagedBlock) : BlockAllocator :=
  { allocator with
    free := if allocator.free.any (fun other => other.data = block.data) then allocator.free
      else allocator.free ++ [block]
    used := allocator.used.filter fun other => other.data ≠ block.data }

/-- The used block a pointer refers to. -/
def usedAt (data : Nat) : PagedBlock :=
  (allocator.used.find? fun block => block.data = data).getD ⟨0, 0⟩

/-- The blocks the allocator holds. -/
def held : List PagedBlock := allocator.free ++ allocator.used

/-- Two blocks without a common byte. -/
def Apart (block other : PagedBlock) : Prop :=
  block.data + block.len ≤ other.data ∨ other.data + other.len ≤ block.data

instance (block other : PagedBlock) : Decidable (Apart block other) :=
  inferInstanceAs (Decidable (_ ∨ _))

/-- The end of the user address space of a 64-bit process. -/
def addressSpace : Nat := 140737488355328

/-- `operator new` returns memory of its own, within the address space. -/
def Fresh (block : PagedBlock) : Prop :=
  0 < block.data ∧ block.data + block.len ≤ addressSpace ∧
    ∀ other ∈ allocator.held, Apart block other

instance (block : PagedBlock) : Decidable (allocator.Fresh block) :=
  inferInstanceAs (Decidable (_ ∧ _ ∧ ∀ other ∈ allocator.held, Apart block other))

/-- The blocks held are apart and their lengths add up to the total, which is
within the limit. -/
structure Represented : Prop where
  apart : allocator.held.Pairwise Apart
  valid : ∀ block ∈ allocator.held, block.valid
  inside : ∀ block ∈ allocator.held, block.data + block.len ≤ addressSpace
  total : allocator.totalAllocated = (allocator.held.map PagedBlock.len).sum
  within : allocator.totalAllocated ≤ allocator.maxMem

variable {allocator}

/-- Being apart is symmetric. -/
theorem apart_symm {block other : PagedBlock} (apart : Apart block other) : Apart other block :=
  apart.symm

/-- An allocator without blocks is represented. -/
theorem empty_represented (maxMem : Nat) : (empty maxMem).Represented :=
  ⟨.nil, nofun, nofun, rfl, Nat.zero_le _⟩

/-- The bytes of some blocks. -/
private def cells : List PagedBlock → Finset Nat
  | [] => ∅
  | block :: rest => Finset.Ico block.data (block.data + block.len) ∪ cells rest

private theorem mem_cells {blocks : List PagedBlock} {a : Nat} :
    a ∈ cells blocks ↔ ∃ block ∈ blocks, block.data ≤ a ∧ a < block.data + block.len := by
  induction blocks with
  | nil => simp [cells]
  | cons block rest ih => simp [cells, ih]

/-- Blocks that are apart have as many bytes as their lengths say. -/
private theorem card_cells {blocks : List PagedBlock} (apart : blocks.Pairwise Apart) :
    (cells blocks).card = (blocks.map PagedBlock.len).sum := by
  induction apart with
  | nil => rfl
  | @cons block rest apart _ ih =>
      have disjoint : Disjoint (Finset.Ico block.data (block.data + block.len)) (cells rest) := by
        rw [Finset.disjoint_left]
        intro a here there
        obtain ⟨other, member, lower, upper⟩ := mem_cells.mp there
        have := apart other member
        rw [Finset.mem_Ico] at here
        unfold Apart at this
        omega
      rw [cells, Finset.card_union_of_disjoint disjoint, ih, Nat.card_Ico, List.map_cons,
        List.sum_cons]
      omega

/-- Blocks that are apart fit together where they lie. -/
theorem sum_len_le {blocks : List PagedBlock} {lower upper : Nat} (apart : blocks.Pairwise Apart)
    (inside : ∀ block ∈ blocks, lower ≤ block.data ∧ block.data + block.len ≤ upper) :
    (blocks.map PagedBlock.len).sum ≤ upper - lower := by
  rw [← card_cells apart, ← Nat.card_Ico lower upper]
  refine Finset.card_le_card fun a member => ?_
  obtain ⟨block, listed, below, above⟩ := mem_cells.mp member
  have := inside block listed
  rw [Finset.mem_Ico]
  omega

/-- Blocks that are apart fit together into the address space. -/
private theorem sum_le_addressSpace {blocks : List PagedBlock} (apart : blocks.Pairwise Apart)
    (inside : ∀ block ∈ blocks, block.data + block.len ≤ addressSpace) :
    (blocks.map PagedBlock.len).sum ≤ addressSpace :=
  sum_len_le apart fun block member => ⟨Nat.zero_le _, inside block member⟩

/-- Moving blocks between the maps keeps the representation. -/
theorem Represented.of_perm {moved : BlockAllocator} (represented : allocator.Represented)
    (perm : moved.held.Perm allocator.held)
    (total : moved.totalAllocated = allocator.totalAllocated)
    (maxMem : moved.maxMem = allocator.maxMem) : moved.Represented where
  apart := (perm.pairwise_iff apart_symm).mpr represented.apart
  valid := fun block member => represented.valid block (perm.mem_iff.mp member)
  inside := fun block member => represented.inside block (perm.mem_iff.mp member)
  total := by rw [total, represented.total, (perm.map _).sum_eq]
  within := by
    rw [total, maxMem]
    exact represented.within

/-- No two blocks have one key. -/
theorem Represented.keys (represented : allocator.Represented) :
    (allocator.held.map PagedBlock.data).Nodup := by
  refine List.Pairwise.map PagedBlock.data ?_ (represented.apart.imp_of_mem ?_)
    (R := fun block other => block.data ≠ other.data)
  · exact fun _ _ differ => differ
  · intro block other member memberOther apart same
    have here : block.data ≠ 0 ∧ block.len ≠ 0 := by
      simpa [PagedBlock.valid] using represented.valid block member
    have there : other.data ≠ 0 ∧ other.len ≠ 0 := by
      simpa [PagedBlock.valid] using represented.valid other memberOther
    unfold Apart at apart
    omega

/-- The blocks held fit into the address space. -/
theorem Represented.total_le (represented : allocator.Represented) :
    allocator.totalAllocated ≤ addressSpace := by
  rw [represented.total]
  exact sum_le_addressSpace represented.apart represented.inside

/-- Nothing is picked from an empty list only. -/
theorem eq_nil_of_pick {α : Type} {blocks : List α} {pick : Nat}
    (nothing : blocks[pick % blocks.length]? = none) : blocks = [] := by
  by_contra some_block
  have inside := Nat.mod_lt pick (List.length_pos_iff.mpr some_block)
  rw [List.getElem?_eq_getElem inside] at nothing
  cases nothing

/-- What `allocate` does: hand out a free block of the length, refuse, or take
new memory. -/
theorem allocate_cases (choice : MemoryChoice) (len : Nat) :
    (∃ block ∈ allocator.free, block.len = len ∧ allocator.allocate choice len =
      (some block, { allocator with
        free := allocator.free.erase block, used := allocator.used ++ [block] })) ∨
    allocator.allocate choice len = (none, allocator) ∨
    (∃ data, choice.fresh = some data ∧ allocator.fitting len = [] ∧
      allocator.allocatedMem len ≤ allocator.maxMem ∧ allocator.allocate choice len =
        (some ⟨data, len⟩, { allocator with
          used := allocator.used ++ [⟨data, len⟩]
          totalAllocated := allocator.allocatedMem len })) := by
  unfold allocate
  split
  · rename_i block picked
    have member := List.mem_of_getElem? picked
    rw [fitting, List.mem_filter] at member
    exact .inl ⟨block, member.1, by simpa using member.2, rfl⟩
  · rename_i nothing
    have unfit : allocator.fitting len = [] := eq_nil_of_pick nothing
    split
    · exact .inr (.inl rfl)
    · rename_i room
      split
      · exact .inr (.inl rfl)
      · rename_i data fresh
        exact .inr (.inr ⟨data, fresh, unfit, by omega, rfl⟩)

/-- A block handed out from the free ones is held as before. -/
theorem held_reuse {block : PagedBlock} (member : block ∈ allocator.free) :
    ({ allocator with
      free := allocator.free.erase block
      used := allocator.used ++ [block] } : BlockAllocator).held.Perm allocator.held := by
  show (allocator.free.erase block ++ (allocator.used ++ [block])).Perm
    (allocator.free ++ allocator.used)
  refine List.Perm.trans ?_ ((List.perm_cons_erase member).symm.append_right _)
  rw [← List.append_assoc]
  exact List.perm_append_singleton _ _

/-- New memory apart from the blocks held. -/
private theorem Represented.grow (represented : allocator.Represented) {block : PagedBlock}
    (positive : 0 < block.len) (fresh : allocator.Fresh block)
    (room : allocator.allocatedMem block.len ≤ allocator.maxMem) :
    ({ allocator with
      used := allocator.used ++ [block]
      totalAllocated := allocator.allocatedMem block.len } : BlockAllocator).Represented := by
  obtain ⟨address, inside, apart⟩ := fresh
  have heldEq : ∀ total, ({ allocator with
      used := allocator.used ++ [block], totalAllocated := total } : BlockAllocator).held =
        allocator.held ++ [block] := by
    intro total
    exact (List.append_assoc ..).symm
  have together : (allocator.held ++ [block]).Pairwise Apart := by
    rw [List.pairwise_append]
    refine ⟨represented.apart, List.pairwise_singleton .., fun other member new here => ?_⟩
    rw [List.mem_singleton.mp here]
    exact apart_symm (apart other member)
  have within : ∀ other ∈ allocator.held ++ [block], other.data + other.len ≤ addressSpace := by
    intro other member
    rcases List.mem_append.mp member with old | new
    · exact represented.inside other old
    · rw [List.mem_singleton.mp new]
      exact inside
  have sum := sum_le_addressSpace together within
  rw [List.map_append, List.sum_append, ← represented.total, List.map_singleton,
    List.sum_singleton] at sum
  have exact : allocator.allocatedMem block.len = allocator.totalAllocated + block.len := by
    rw [addressSpace] at sum
    exact toUInt64_natCast (by omega)
  constructor
  · rw [heldEq]
    exact together
  · rw [heldEq]
    intro other member
    rcases List.mem_append.mp member with old | new
    · exact represented.valid other old
    · rw [List.mem_singleton.mp new]
      simp only [PagedBlock.valid, decide_eq_true_eq]
      omega
  · rw [heldEq]
    exact within
  · rw [heldEq, List.map_append, List.sum_append, ← represented.total, List.map_singleton,
      List.sum_singleton]
    exact exact
  · exact room

/-- `allocate` keeps the representation. -/
theorem Represented.allocate (represented : allocator.Represented) (choice : MemoryChoice)
    {len : Nat} (positive : 0 < len)
    (fresh : ∀ data, choice.fresh = some data → allocator.Fresh (PagedBlock.mk data len)) :
    (allocator.allocate choice len).2.Represented := by
  rcases allocator.allocate_cases choice len with
    ⟨block, member, _, taken⟩ | refused | ⟨data, chosen, _, room, grown⟩
  · rw [taken]
    exact represented.of_perm (held_reuse member) rfl rfl
  · rw [refused]
    exact represented
  · rw [grown]
    exact represented.grow positive (fresh data chosen) room

/-- A block is identified by its key. -/
theorem Represented.injective (represented : allocator.Represented) {block other : PagedBlock}
    (member : block ∈ allocator.held) (listed : other ∈ allocator.held)
    (same : block.data = other.data) : block = other :=
  List.inj_on_of_nodup_map represented.keys member listed same

/-- The pointer to a used block finds it. -/
theorem Represented.usedAt (represented : allocator.Represented) {block : PagedBlock}
    (member : block ∈ allocator.used) : allocator.usedAt block.data = block := by
  unfold BlockAllocator.usedAt
  cases found : allocator.used.find? fun other => other.data = block.data with
  | none =>
      rw [List.find?_eq_none] at found
      exact absurd (decide_eq_true rfl) (found block member)
  | some other =>
      have same : other.data = block.data := by simpa using List.find?_some found
      exact represented.injective (List.mem_append_right _ (List.mem_of_find?_eq_some found))
        (List.mem_append_right _ member) same

/-- `retain` of a used block makes it free. -/
theorem Represented.retain_eq (represented : allocator.Represented) {block : PagedBlock}
    (member : block ∈ allocator.used) : allocator.retain block =
      { allocator with free := allocator.free ++ [block], used := allocator.used.erase block } := by
  have keys := represented.keys
  rw [held, List.map_append, List.nodup_append] at keys
  obtain ⟨_, usedKeys, separate⟩ := keys
  have absent : ¬(allocator.free.any fun other => other.data = block.data) := by
    rw [List.any_eq_true]
    rintro ⟨other, listed, same⟩
    exact separate other.data (List.mem_map_of_mem listed) block.data (List.mem_map_of_mem member)
      (by simpa using same)
  have rest : (allocator.used.filter fun other => other.data ≠ block.data) =
      allocator.used.erase block := by
    rw [usedKeys.of_map.erase_eq_filter]
    refine List.filter_congr fun other listed => ?_
    by_cases same : other = block
    · simp [same]
    · have differ : other.data ≠ block.data := fun keys =>
        same (List.inj_on_of_nodup_map usedKeys listed member keys)
      simp [same, differ]
  rw [retain, if_neg absent, rest]

/-- A retained block is held as before. -/
theorem Represented.held_retain (represented : allocator.Represented) {block : PagedBlock}
    (member : block ∈ allocator.used) : (allocator.retain block).held.Perm allocator.held := by
  rw [represented.retain_eq member]
  show (allocator.free ++ [block] ++ allocator.used.erase block).Perm
    (allocator.free ++ allocator.used)
  rw [List.append_assoc]
  exact (List.perm_cons_erase member).symm.append_left _

/-- `retain` keeps the representation. -/
theorem Represented.retain (represented : allocator.Represented) {block : PagedBlock}
    (member : block ∈ allocator.used) : (allocator.retain block).Represented :=
  represented.of_perm (represented.held_retain member) rfl rfl

end BlockAllocator

end HyperPlotter.Pipeline

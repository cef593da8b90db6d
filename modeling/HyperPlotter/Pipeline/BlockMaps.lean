import HyperPlotter.Foundation.Machine
import HyperPlotter.Foundation.UnorderedMap
import HyperPlotter.Pipeline.Allocator

/-!
# The allocator's maps

`block_allocator` with its two maps as they are: keys of their own, entries that
are moved from and erased, and references to entries handed out and passed back
to `retain`. In every run the key of an entry is the address of its block, and
forgetting the keys gives the allocator the dispatcher is described with.
-/

namespace HyperPlotter.Pipeline

open Foundation

/-- `dummy_block`, and what is left of a block that was moved from. -/
def PagedBlock.null : PagedBlock := ⟨0, 0⟩

/-- `block_allocator`. -/
structure BlockMaps where
  free : UnorderedMap Nat PagedBlock
  used : UnorderedMap Nat PagedBlock
  totalAllocated : Nat
  maxMem : Nat

namespace BlockMaps

section

variable (maps : BlockMaps)

/-- No memory is used. -/
def empty (maxMem : Nat) : BlockMaps := ⟨.empty, .empty, 0, maxMem⟩

/-- The free entries with blocks of the length asked for. -/
def fitting (len : Nat) : List (Nat × PagedBlock) :=
  maps.free.entries.filter fun entry => entry.2.len = len

/-- The size the allocator would have with one block more, as `size_t`. -/
def allocatedMem (len : Nat) : Nat := toUInt64 (maps.totalAllocated + len)

/-- `allocate`: the key of the used entry it refers to; `none` for `dummy_block`. -/
def allocate (choice : MemoryChoice) (len : Nat) : Option Nat × BlockMaps :=
  match (maps.fitting len)[choice.pick % (maps.fitting len).length]? with
  | some (it, block) =>
    let key := block.data
    (some key, { maps with
      used := maps.used.emplace key block, free := (maps.free.assign it .null).erase it })
  | none =>
    if maps.allocatedMem len > maps.maxMem ∨ choice.freeBytes < len then (none, maps)
    else
      match choice.fresh with
      | none => (none, maps)
      | some nbytes =>
        let key := nbytes
        (some key, { maps with
          totalAllocated := maps.allocatedMem len, used := maps.used.emplace key ⟨nbytes, len⟩ })

/-- The block a reference to a used entry refers to. -/
def deref (reference : Nat) : PagedBlock := (maps.used.find? reference).getD .null

/-- `retain`. -/
def retain (reference : Nat) : BlockMaps :=
  let pb := maps.deref reference
  let key := pb.data
  { maps with
    free := maps.free.emplace key pb
    used := (maps.used.assign reference .null).erase key }

/-- The maps without their keys. -/
def blocks : BlockAllocator where
  free := maps.free.entries.map Prod.snd
  used := maps.used.entries.map Prod.snd
  totalAllocated := maps.totalAllocated
  maxMem := maps.maxMem

/-- `operator new` returns memory that is apart from all blocks held. -/
def Fresh (block : PagedBlock) : Prop :=
  0 < block.data ∧ block.data + block.len ≤ 18446744073709551616 ∧
    ∀ other ∈ maps.blocks.held, BlockAllocator.Apart block other

end

/-- The maps are keyed by address, and the blocks in them are apart and add up to
the total. `handed` are the references handed out. -/
structure Sound (maps : BlockMaps) (handed : List Nat) : Prop where
  keyed : ∀ entry ∈ maps.free.entries ++ maps.used.entries, entry.1 = entry.2.data
  apart : maps.blocks.held.Pairwise BlockAllocator.Apart
  valid : ∀ block ∈ maps.blocks.held, block.valid
  inside : ∀ block ∈ maps.blocks.held, block.data + block.len ≤ 18446744073709551616
  total : maps.totalAllocated = (maps.blocks.held.map PagedBlock.len).sum
  within : maps.totalAllocated ≤ maps.maxMem
  handed : handed.Perm maps.used.keys

variable {maps : BlockMaps} {handed : List Nat}

/-- Without blocks the maps are sound. -/
theorem empty_sound (maxMem : Nat) : (empty maxMem).Sound [] :=
  ⟨List.forall_mem_nil _, .nil, List.forall_mem_nil _, List.forall_mem_nil _, rfl, Nat.zero_le _,
    .nil⟩

/-- A valid block has an address and a length. -/
private theorem valid_iff {block : PagedBlock} :
    block.valid = true ↔ 0 < block.data ∧ 0 < block.len := by
  simp [PagedBlock.valid, Nat.pos_iff_ne_zero]

/-- The blocks held have different addresses. -/
private theorem Sound.addresses (sound : maps.Sound handed) :
    (maps.blocks.held.map PagedBlock.data).Nodup := by
  refine List.Pairwise.map PagedBlock.data ?_ (sound.apart.imp_of_mem ?_)
    (R := fun block other => block.data ≠ other.data)
  · exact fun _ _ differ => differ
  · intro block other member memberOther apart same
    have here := valid_iff.mp (sound.valid block member)
    have there := valid_iff.mp (sound.valid other memberOther)
    unfold BlockAllocator.Apart at apart
    omega

/-- The keys of both maps are the addresses of the blocks. -/
private theorem Sound.keys_append (sound : maps.Sound handed) :
    maps.free.keys ++ maps.used.keys = maps.blocks.held.map PagedBlock.data := by
  unfold UnorderedMap.keys BlockAllocator.held blocks
  rw [← List.map_append, ← List.map_append, List.map_map]
  exact List.map_congr_left sound.keyed

/-- No key is in both maps. -/
theorem Sound.separate (sound : maps.Sound handed) {key : Nat} (free : key ∈ maps.free.keys) :
    key ∉ maps.used.keys := by
  intro used
  have nodup := sound.addresses
  rw [← sound.keys_append, List.nodup_append] at nodup
  exact nodup.2.2 key free key used rfl

/-- Entries that were there before, in either map, keep the maps sound. -/
private theorem Sound.of_perm {moved : BlockMaps} {handed' : List Nat} (sound : maps.Sound handed)
    (perm : (moved.free.entries ++ moved.used.entries).Perm
      (maps.free.entries ++ maps.used.entries))
    (total : moved.totalAllocated = maps.totalAllocated) (maxMem : moved.maxMem = maps.maxMem)
    (references : handed'.Perm moved.used.keys) : moved.Sound handed' := by
  have held : moved.blocks.held.Perm maps.blocks.held := by
    have blocks := perm.map Prod.snd
    rwa [List.map_append, List.map_append] at blocks
  exact
    { keyed := fun entry member => sound.keyed entry (perm.mem_iff.mp member)
      apart := (held.pairwise_iff BlockAllocator.apart_symm).mpr sound.apart
      valid := fun block member => sound.valid block (held.mem_iff.mp member)
      inside := fun block member => sound.inside block (held.mem_iff.mp member)
      total := by rw [total, sound.total, (held.map _).sum_eq]
      within := by
        rw [total, maxMem]
        exact sound.within
      handed := references }

/-! ## What the operations do -/

/-- `allocate` moves a free entry of the length, refuses, or takes new memory. -/
theorem Sound.allocate_cases (sound : maps.Sound handed) (choice : MemoryChoice) (len : Nat) :
    (∃ key block, (key, block) ∈ maps.free.entries ∧ block.len = len ∧
      (maps.allocate choice len).1 = some key ∧
      (maps.allocate choice len).2.used.entries = maps.used.entries ++ [(key, block)] ∧
      (maps.allocate choice len).2.free.entries = (maps.free.erase key).entries ∧
      (maps.allocate choice len).2.totalAllocated = maps.totalAllocated ∧
      (maps.allocate choice len).2.maxMem = maps.maxMem) ∨
    maps.allocate choice len = (none, maps) ∨
    ∃ nbytes, choice.fresh = some nbytes ∧ maps.fitting len = [] ∧
      maps.allocatedMem len ≤ maps.maxMem ∧ maps.allocate choice len =
        (some nbytes, { maps with
          totalAllocated := maps.allocatedMem len
          used := maps.used.emplace nbytes ⟨nbytes, len⟩ }) := by
  unfold allocate
  split
  · rename_i it block picked
    have member := List.mem_of_getElem? picked
    rw [fitting, List.mem_filter] at member
    obtain rfl : it = block.data := sound.keyed _ (List.mem_append_left _ member.1)
    have absent := sound.separate (UnorderedMap.mem_keys_of_mem member.1)
    exact .inl ⟨block.data, block, member.1, by simpa using member.2, rfl,
      UnorderedMap.entries_emplace absent, UnorderedMap.entries_assign_erase _, rfl, rfl⟩
  · rename_i nothing
    have unfit : maps.fitting len = [] := BlockAllocator.eq_nil_of_pick nothing
    split
    · exact .inr (.inl rfl)
    · rename_i room
      split
      · exact .inr (.inl rfl)
      · rename_i nbytes fresh
        exact .inr (.inr ⟨nbytes, fresh, unfit, by omega, rfl⟩)

/-- The address of new memory is no key yet. -/
private theorem Sound.fresh_absent (sound : maps.Sound handed) {block : PagedBlock}
    (positive : 0 < block.len) (fresh : maps.Fresh block) : block.data ∉ maps.used.keys := by
  intro listed
  have held : block.data ∈ maps.blocks.held.map PagedBlock.data := by
    rw [← sound.keys_append]
    exact List.mem_append_right _ listed
  obtain ⟨other, member, same⟩ := List.mem_map.mp held
  have apart := fresh.2.2 other member
  have there := valid_iff.mp (sound.valid other member)
  unfold BlockAllocator.Apart at apart
  omega

/-- A free entry becomes a used one. -/
private theorem Sound.reuse {moved : BlockMaps} (sound : maps.Sound handed) {key : Nat}
    {block : PagedBlock} (member : (key, block) ∈ maps.free.entries)
    (used : moved.used.entries = maps.used.entries ++ [(key, block)])
    (free : moved.free.entries = (maps.free.erase key).entries)
    (total : moved.totalAllocated = maps.totalAllocated) (maxMem : moved.maxMem = maps.maxMem) :
    moved.Sound (handed ++ [key]) := by
  refine sound.of_perm ?_ total maxMem ?_
  · rw [used, free, ← List.append_assoc]
    refine (List.perm_append_singleton _ _).trans ?_
    exact ((UnorderedMap.perm_cons_erase member).append_right _).symm
  · unfold UnorderedMap.keys
    rw [used, List.map_append, List.map_singleton]
    exact sound.handed.append_right _

/-- New memory becomes a used entry. -/
private theorem Sound.grow (sound : maps.Sound handed) {block : PagedBlock}
    (positive : 0 < block.len) (fresh : maps.Fresh block)
    (room : maps.allocatedMem block.len ≤ maps.maxMem) :
    ({ maps with
      totalAllocated := maps.allocatedMem block.len
      used := maps.used.emplace block.data block } : BlockMaps).Sound (handed ++ [block.data]) := by
  have entries : (maps.used.emplace block.data block).entries =
      maps.used.entries ++ [(block.data, block)] :=
    UnorderedMap.entries_emplace (sound.fresh_absent positive fresh)
  obtain ⟨address, upper, apart⟩ := fresh
  have held : ∀ total, ({ maps with
      totalAllocated := total
      used := maps.used.emplace block.data block } : BlockMaps).blocks.held =
        maps.blocks.held ++ [block] := by
    intro total
    unfold BlockAllocator.held blocks
    simp only []
    rw [entries, List.map_append, List.map_singleton, List.append_assoc]
  have together : (maps.blocks.held ++ [block]).Pairwise BlockAllocator.Apart := by
    rw [List.pairwise_append]
    refine ⟨sound.apart, List.pairwise_singleton .., fun other member new here => ?_⟩
    rw [List.mem_singleton.mp here]
    exact BlockAllocator.apart_symm (apart other member)
  have valid : ∀ other ∈ maps.blocks.held ++ [block], other.valid = true := by
    intro other member
    rcases List.mem_append.mp member with old | new
    · exact sound.valid other old
    · rw [List.mem_singleton.mp new]
      exact valid_iff.mpr ⟨address, positive⟩
  have inside : ∀ other ∈ maps.blocks.held ++ [block],
      other.data + other.len ≤ 18446744073709551616 := by
    intro other member
    rcases List.mem_append.mp member with old | new
    · exact sound.inside other old
    · rw [List.mem_singleton.mp new]
      exact upper
  -- blocks that are apart leave no room for a wrap of the sum
  have sum : ((maps.blocks.held ++ [block]).map PagedBlock.len).sum ≤ 18446744073709551616 - 1 :=
    BlockAllocator.sum_len_le together fun other member =>
      ⟨(valid_iff.mp (valid other member)).1, inside other member⟩
  rw [List.map_append, List.sum_append, ← sound.total, List.map_singleton, List.sum_singleton] at sum
  have exact : maps.allocatedMem block.len = maps.totalAllocated + block.len :=
    toUInt64_natCast (by omega)
  constructor
  · intro entry member
    have listed : entry ∈ maps.free.entries ++ (maps.used.emplace block.data block).entries := member
    rw [entries, ← List.append_assoc] at listed
    rcases List.mem_append.mp listed with old | new
    · exact sound.keyed entry old
    · rw [List.mem_singleton.mp new]
  · rw [held]
    exact together
  · rw [held]
    exact valid
  · rw [held]
    exact inside
  · rw [held, List.map_append, List.sum_append, ← sound.total, List.map_singleton, List.sum_singleton]
    exact exact
  · exact room
  · unfold UnorderedMap.keys
    rw [entries, List.map_append, List.map_singleton]
    exact sound.handed.append_right _

/-- `retain` of a reference handed out moves its entry to the free ones. -/
theorem Sound.retain_eq (sound : maps.Sound handed) {reference : Nat} (held : reference ∈ handed) :
    ∃ block, maps.used.find? reference = some block ∧ reference = block.data ∧
      (reference, block) ∈ maps.used.entries ∧
      (maps.retain reference).free.entries = maps.free.entries ++ [(reference, block)] ∧
      (maps.retain reference).used.entries = (maps.used.erase reference).entries := by
  have listed := sound.handed.mem_iff.mp held
  obtain ⟨block, found⟩ := UnorderedMap.exists_find? listed
  have member := UnorderedMap.find?_eq_some.mp found
  have key : reference = block.data := sound.keyed _ (List.mem_append_right _ member)
  have absent : reference ∉ maps.free.keys := fun free => sound.separate free listed
  refine ⟨block, found, key, member, ?_, ?_⟩
  · unfold retain deref
    simp only [found, Option.getD_some, ← key]
    exact UnorderedMap.entries_emplace absent
  · unfold retain deref
    simp only [found, Option.getD_some, ← key]
    exact UnorderedMap.entries_assign_erase _

/-- `retain` keeps the maps sound. -/
theorem Sound.retain (sound : maps.Sound handed) {reference : Nat} (held : reference ∈ handed) :
    (maps.retain reference).Sound (handed.erase reference) := by
  obtain ⟨block, found, key, member, free, used⟩ := sound.retain_eq held
  have others := UnorderedMap.perm_cons_erase member
  refine sound.of_perm ?_ rfl rfl ?_
  · rw [free, used, List.append_assoc]
    exact others.symm.append_left _
  · have keys := others.map Prod.fst
    unfold UnorderedMap.keys
    rw [used]
    exact ((sound.handed.trans keys).erase reference).trans (by simp)

/-- `allocate` keeps the maps sound. -/
theorem Sound.allocate (sound : maps.Sound handed) (choice : MemoryChoice) {len : Nat}
    (positive : 0 < len) (fresh : ∀ nbytes, choice.fresh = some nbytes → maps.Fresh ⟨nbytes, len⟩) :
    (maps.allocate choice len).2.Sound (handed ++ (maps.allocate choice len).1.toList) := by
  rcases sound.allocate_cases choice len with
    ⟨key, block, member, _, answer, used, free, total, maxMem⟩ | refused | ⟨nbytes, chosen, _, room, grown⟩
  · rw [answer]
    exact sound.reuse member used free total maxMem
  · rw [refused]
    simpa using sound
  · rw [grown]
    exact sound.grow positive (fresh nbytes chosen) room

/-! ## The allocator without keys -/

/-- The blocks without an entry. -/
private theorem Sound.map_snd_erase (sound : maps.Sound handed) {m : UnorderedMap Nat PagedBlock}
    (within : m.entries.Sublist (maps.free.entries ++ maps.used.entries)) {key : Nat}
    {block : PagedBlock} (member : (key, block) ∈ m.entries) :
    (m.erase key).entries.map Prod.snd = (m.entries.map Prod.snd).erase block := by
  have blocks : (m.entries.map Prod.snd).Nodup := by
    have held : (m.entries.map Prod.snd).Sublist maps.blocks.held := by
      have mapped := within.map Prod.snd
      rwa [List.map_append] at mapped
    exact sound.addresses.of_map.sublist held
  have keyed : ∀ entry ∈ m.entries, entry.1 = entry.2.data := fun entry listed =>
    sound.keyed entry (within.subset listed)
  rw [blocks.erase_eq_filter, List.filter_map]
  refine congrArg _ (List.filter_congr fun entry listed => ?_)
  have here := keyed entry listed
  have there := keyed _ member
  by_cases same : entry.2 = block
  · simp only [] at there
    simp [same, here, there]
  · have other : entry.1 ≠ key := fun keys => same
      (congrArg Prod.snd (List.inj_on_of_nodup_map m.nodup listed member keys))
    simp [same, other]

/-- `allocate` is that of the allocator without keys. -/
theorem Sound.blocks_allocate (sound : maps.Sound handed) (choice : MemoryChoice) {len : Nat}
    (positive : 0 < len) (fresh : ∀ nbytes, choice.fresh = some nbytes → maps.Fresh ⟨nbytes, len⟩) :
    (maps.allocate choice len).2.blocks = (maps.blocks.allocate choice len).2 ∧
      (maps.allocate choice len).1 = (maps.blocks.allocate choice len).1.map PagedBlock.data := by
  have fits : maps.blocks.fitting len = (maps.fitting len).map Prod.snd := by
    unfold BlockAllocator.fitting fitting blocks
    rw [List.filter_map]
    rfl
  unfold BlockMaps.allocate BlockAllocator.allocate
  rw [fits, List.length_map, List.getElem?_map]
  cases picked : (maps.fitting len)[choice.pick % (maps.fitting len).length]? with
  | some entry =>
      obtain ⟨it, block⟩ := entry
      have member := List.mem_of_getElem? picked
      rw [fitting, List.mem_filter] at member
      obtain rfl : it = block.data := sound.keyed _ (List.mem_append_left _ member.1)
      have absent := sound.separate (UnorderedMap.mem_keys_of_mem member.1)
      refine ⟨?_, rfl⟩
      simp only [Option.map_some, blocks, UnorderedMap.entries_emplace absent,
        UnorderedMap.entries_assign_erase, List.map_append, List.map_cons, List.map_nil]
      rw [sound.map_snd_erase (List.sublist_append_left ..) member.1]
  | none =>
      simp only [Option.map_none]
      by_cases refused : maps.allocatedMem len > maps.maxMem ∨ choice.freeBytes < len
      · rw [if_pos refused, if_pos (show maps.blocks.allocatedMem len > maps.blocks.maxMem ∨
          choice.freeBytes < len from refused)]
        exact ⟨rfl, rfl⟩
      · rw [if_neg refused, if_neg (show ¬(maps.blocks.allocatedMem len > maps.blocks.maxMem ∨
          choice.freeBytes < len) from refused)]
        cases chosen : choice.fresh with
        | none => exact ⟨rfl, rfl⟩
        | some nbytes =>
            refine ⟨?_, rfl⟩
            have fits : maps.Fresh ⟨nbytes, len⟩ := fresh nbytes chosen
            have absent := sound.fresh_absent positive fits
            simp only [blocks, UnorderedMap.entries_emplace absent, List.map_append, List.map_cons,
              List.map_nil]
            rfl

/-- `retain` is that of the allocator without keys. -/
theorem Sound.blocks_retain (sound : maps.Sound handed) {reference : Nat}
    (held : reference ∈ handed) :
    (maps.retain reference).blocks = maps.blocks.retain (maps.deref reference) := by
  obtain ⟨block, found, key, member, free, used⟩ := sound.retain_eq held
  have keyed : ∀ entry ∈ maps.used.entries, entry.1 = entry.2.data := fun entry listed =>
    sound.keyed entry (List.mem_append_right _ listed)
  have absent : ¬(maps.blocks.free.any fun other => other.data = block.data) := by
    rw [List.any_eq_true]
    rintro ⟨other, listed, same⟩
    obtain ⟨entry, free, rfl⟩ := List.mem_map.mp listed
    have here := sound.keyed entry (List.mem_append_left _ free)
    refine sound.separate (List.mem_map_of_mem (f := Prod.fst) free) ?_
    rw [here, show entry.2.data = block.data by simpa using same, ← key]
    exact UnorderedMap.mem_keys_of_mem member
  have erased : (maps.used.erase reference).entries.map Prod.snd =
      (maps.used.entries.map Prod.snd).filter fun other => other.data ≠ block.data := by
    rw [List.filter_map]
    refine congrArg _ (List.filter_congr fun entry listed => ?_)
    simp only [Function.comp_apply, keyed entry listed, key]
  unfold BlockAllocator.retain
  rw [show maps.deref reference = block by rw [deref, found]; rfl, if_neg absent]
  unfold blocks
  rw [free, used, erased, List.map_append]
  rfl

/-! ## Every history -/

instance (maps : BlockMaps) (block : PagedBlock) : Decidable (maps.Fresh block) :=
  inferInstanceAs (Decidable (_ ∧ _ ∧ ∀ other ∈ maps.blocks.held, BlockAllocator.Apart block other))

/-- The allocator and the references it has handed out. -/
structure Allocating where
  maps : BlockMaps
  handed : List Nat

/-- A call of `allocate` and what the system does in it, or of `retain` with a
reference. -/
inductive AllocatorEvent where
  | allocate (choice : MemoryChoice) (len : Nat)
  | retain (reference : Nat)

/-- The histories of an allocator: memory is asked for by positive lengths, and
blocks are retained while they are handed out. -/
def machine (maxMem : Nat) : Machine Allocating AllocatorEvent where
  Start s := s = ⟨empty maxMem, []⟩
  step s
    | .allocate choice len =>
      if 0 < len ∧ ∀ nbytes ∈ choice.fresh, s.maps.Fresh ⟨nbytes, len⟩ then
        let answer := s.maps.allocate choice len
        some ⟨answer.2, s.handed ++ answer.1.toList⟩
      else none
    | .retain reference =>
      if reference ∈ s.handed then some ⟨s.maps.retain reference, s.handed.erase reference⟩
      else none

/-- The maps are sound in every history. -/
theorem reachable_sound {maxMem : Nat} {s : Allocating} (reached : (machine maxMem).Reachable s) :
    s.maps.Sound s.handed ∧ s.maps.maxMem = maxMem := by
  refine reached.invariant (fun s => s.maps.Sound s.handed ∧ s.maps.maxMem = maxMem) ?_ ?_
  · rintro _ rfl
    exact ⟨empty_sound maxMem, rfl⟩
  · rintro ⟨maps, handed⟩ event next _ ⟨sound, limit⟩ _ taken
    cases event with
    | allocate choice len =>
        unfold machine at taken
        simp only [] at taken sound limit
        split at taken
        · rename_i permitted
          obtain rfl := Option.some.inj taken
          refine ⟨sound.allocate choice permitted.1 permitted.2, ?_⟩
          rcases sound.allocate_cases choice len with
            ⟨_, _, _, _, _, _, _, _, maxMem⟩ | refused | ⟨_, _, _, _, grown⟩
          · exact maxMem.trans limit
          · simp only [refused, limit]
          · simp only [grown, limit]
        · cases taken
    | retain reference =>
        unfold machine at taken
        simp only [] at taken sound limit
        split at taken
        · rename_i held
          obtain rfl := Option.some.inj taken
          exact ⟨sound.retain held, limit⟩
        · cases taken

/-- What holds in a state of the allocator, and what its operations do there. -/
structure Guarantees (maxMem : Nat) (s : Allocating) : Prop where
  keyed : ∀ entry ∈ s.maps.free.entries ++ s.maps.used.entries, entry.1 = entry.2.data
  separate : ∀ key ∈ s.maps.free.keys, key ∉ s.maps.used.keys
  total : s.maps.totalAllocated = (s.maps.blocks.held.map PagedBlock.len).sum
  within : s.maps.totalAllocated ≤ maxMem
  handed : s.handed.Perm s.maps.used.keys
  refused : ∀ choice len, (s.maps.allocate choice len).1 = none →
    (s.maps.allocate choice len).2 = s.maps
  allocated : ∀ choice len, 0 < len →
    (∀ nbytes, choice.fresh = some nbytes → s.maps.Fresh ⟨nbytes, len⟩) →
    ∀ reference, (s.maps.allocate choice len).1 = some reference →
      ((s.maps.allocate choice len).2.deref reference).valid ∧
      ((s.maps.allocate choice len).2.deref reference).len = len ∧
      ∀ other ∈ s.handed, BlockAllocator.Apart ((s.maps.allocate choice len).2.deref reference)
        ((s.maps.allocate choice len).2.deref other)
  retained : ∀ reference ∈ s.handed, s.maps.deref reference ∈
      (s.maps.retain reference).free.entries.map Prod.snd
  reusable : ∀ block ∈ s.maps.free.entries.map Prod.snd, ∀ freeBytes fresh, ∃ pick,
    s.maps.allocate ⟨pick, freeBytes, fresh⟩ block.len = (some block.data, { s.maps with
      used := s.maps.used.emplace block.data block
      free := (s.maps.free.assign block.data .null).erase block.data })

section

variable {maps : BlockMaps} {handed : List Nat}

instance : Std.Symm BlockAllocator.Apart := ⟨fun _ _ apart => BlockAllocator.apart_symm apart⟩

/-- References that are handed out at the same time are to blocks that are apart. -/
private theorem Sound.deref_apart (sound : maps.Sound handed) {reference other : Nat}
    (held : reference ∈ handed) (heldOther : other ∈ handed) (differ : reference ≠ other) :
    BlockAllocator.Apart (maps.deref reference) (maps.deref other) := by
  obtain ⟨block, found, key, member, _⟩ := sound.retain_eq held
  obtain ⟨block', found', key', member', _⟩ := sound.retain_eq heldOther
  have here : maps.deref reference = block := by rw [deref, found]; rfl
  have there : maps.deref other = block' := by rw [deref, found']; rfl
  rw [here, there]
  refine sound.apart.forall
    (List.mem_append_right _ (List.mem_map_of_mem (f := Prod.snd) member))
    (List.mem_append_right _ (List.mem_map_of_mem (f := Prod.snd) member')) ?_
  rintro rfl
  exact differ (key.trans key'.symm)

/-- The block of a reference handed out is valid. -/
private theorem Sound.deref_valid (sound : maps.Sound handed) {reference : Nat}
    (held : reference ∈ handed) : (maps.deref reference).valid := by
  obtain ⟨block, found, _, member, _⟩ := sound.retain_eq held
  rw [deref, found]
  exact sound.valid block (List.mem_append_right _ (List.mem_map_of_mem (f := Prod.snd) member))

/-- A new reference is to a block of the length, apart from those handed out. -/
private theorem Sound.allocated (sound : maps.Sound handed) {choice : MemoryChoice} {len : Nat}
    (positive : 0 < len) (fresh : ∀ nbytes, choice.fresh = some nbytes → maps.Fresh ⟨nbytes, len⟩)
    {reference : Nat} (answer : (maps.allocate choice len).1 = some reference) :
    ((maps.allocate choice len).2.deref reference).valid ∧
      ((maps.allocate choice len).2.deref reference).len = len ∧
      ∀ other ∈ handed, BlockAllocator.Apart ((maps.allocate choice len).2.deref reference)
        ((maps.allocate choice len).2.deref other) := by
  have after := sound.allocate choice positive fresh
  rw [answer] at after
  have here : reference ∈ handed ++ (some reference).toList := by simp
  refine ⟨after.deref_valid here, ?_, fun other held => ?_⟩
  · rcases sound.allocate_cases choice len with
      ⟨key, block, _, size, answered, used, _⟩ | refused | ⟨nbytes, chosen, _, _, grown⟩
    · obtain rfl : key = reference := Option.some.inj (answered.symm.trans answer)
      have found : (maps.allocate choice len).2.used.find? key = some block := by
        rw [UnorderedMap.find?_eq_some, used]
        exact List.mem_append_right _ (List.mem_singleton_self _)
      rw [deref, found]
      exact size
    · rw [refused] at answer
      cases answer
    · rw [grown] at answer ⊢
      obtain rfl : nbytes = reference := Option.some.inj answer
      have fits : maps.Fresh ⟨nbytes, len⟩ := fresh nbytes chosen
      have absent := sound.fresh_absent positive fits
      have found : (maps.used.emplace nbytes ⟨nbytes, len⟩).find? nbytes = some ⟨nbytes, len⟩ := by
        rw [UnorderedMap.find?_eq_some, UnorderedMap.entries_emplace absent]
        exact List.mem_append_right _ (List.mem_singleton_self _)
      show (((maps.used.emplace nbytes ⟨nbytes, len⟩).find? nbytes).getD .null).len = len
      rw [found]
      rfl
  · refine after.deref_apart here (List.mem_append_left _ held) ?_
    rintro rfl
    have once : (handed ++ [reference]).Nodup := after.handed.nodup_iff.mpr
      (maps.allocate choice len).2.used.nodup
    rw [List.nodup_append] at once
    exact once.2.2 reference held reference (List.mem_singleton_self _) rfl

/-- A free block can be the one that is handed out for its length. -/
private theorem Sound.reusable (sound : maps.Sound handed) {block : PagedBlock}
    (free : block ∈ maps.free.entries.map Prod.snd) (freeBytes : Nat) (fresh : Option Nat) :
    ∃ pick, maps.allocate ⟨pick, freeBytes, fresh⟩ block.len = (some block.data, { maps with
      used := maps.used.emplace block.data block
      free := (maps.free.assign block.data .null).erase block.data }) := by
  obtain ⟨⟨key, block⟩, member, rfl⟩ := List.mem_map.mp free
  obtain rfl : key = block.data := sound.keyed _ (List.mem_append_left _ member)
  have fits : (block.data, block) ∈ maps.fitting block.len :=
    List.mem_filter.mpr ⟨member, by simp⟩
  obtain ⟨pick, found⟩ := List.getElem?_of_mem fits
  have inside := (List.getElem?_eq_some_iff.mp found).1
  refine ⟨pick, ?_⟩
  unfold BlockMaps.allocate
  simp only [Nat.mod_eq_of_lt inside, found]

end

/-- In every history of `allocate` and `retain` the representation is right and
the operations do what they should. -/
theorem reachable_guarantees {maxMem : Nat} {s : Allocating}
    (reached : (machine maxMem).Reachable s) : Guarantees maxMem s := by
  obtain ⟨sound, limit⟩ := reachable_sound reached
  exact
    { keyed := sound.keyed
      separate := fun key free => sound.separate free
      total := sound.total
      within := limit ▸ sound.within
      handed := sound.handed
      refused := by
        intro choice len none
        rcases sound.allocate_cases choice len with
          ⟨_, _, _, _, answer, _⟩ | refused | ⟨_, _, _, _, grown⟩
        · rw [answer] at none
          cases none
        · rw [refused]
        · rw [grown] at none
          cases none
      allocated := fun choice len positive fresh reference answer =>
        sound.allocated positive fresh answer
      retained := by
        intro reference held
        obtain ⟨block, found, _, _, free, _⟩ := sound.retain_eq held
        rw [free, deref, found, List.map_append]
        exact List.mem_append_right _ (List.mem_singleton_self _)
      reusable := fun block free freeBytes fresh => sound.reusable free freeBytes fresh }

/-- Two blocks of a page, the first of which was retained and reused. -/
theorem reachable_guarantees_reused : ∃ s : Allocating,
    s.handed = [8192, 4096] ∧ Guarantees 8192 s :=
  ⟨_, rfl, reachable_guarantees (Machine.Reaches.run (.start rfl)
    [.allocate ⟨0, 65536, some 4096⟩ 4096, .allocate ⟨0, 65536, some 8192⟩ 4096, .retain 4096,
      .allocate ⟨0, 0, none⟩ 4096] rfl)⟩

end BlockMaps

end HyperPlotter.Pipeline

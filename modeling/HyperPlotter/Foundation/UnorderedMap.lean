import Mathlib.Data.List.Nodup

/-!
# Unordered maps

Maps with one entry for each key, in an order that says nothing, and the
operations of a hash map on them: an insertion that leaves an entry of the same
key alone, an assignment through a reference, and the removal of a key.
-/

namespace HyperPlotter.Foundation

/-- A map; no two entries have one key. -/
structure UnorderedMap (K V : Type) where
  entries : List (K × V)
  nodup : (entries.map Prod.fst).Nodup

namespace UnorderedMap

variable {K V : Type}

/-- No entries. -/
def empty : UnorderedMap K V := ⟨[], List.nodup_nil⟩

/-- The keys of a map. -/
def keys (m : UnorderedMap K V) : List K := m.entries.map Prod.fst

variable (m : UnorderedMap K V) (key : K) (value : V)

private theorem nodup_snoc (absent : key ∉ m.keys) :
    ((m.entries ++ [(key, value)]).map Prod.fst).Nodup := by
  rw [List.map_append, List.nodup_append]
  refine ⟨m.nodup, by simp, ?_⟩
  rintro other listed _ new rfl
  obtain rfl : other = key := by simpa using new
  exact absent listed

variable [DecidableEq K]

/-- The value at a key. -/
def find? : Option V := (m.entries.find? fun entry => entry.1 = key).map Prod.snd

/-- A new entry, unless there is one with this key. -/
def emplace : UnorderedMap K V :=
  if absent : key ∉ m.keys then ⟨m.entries ++ [(key, value)], nodup_snoc m key value absent⟩ else m

private theorem map_fst_assign : (m.entries.map fun entry =>
    if entry.1 = key then (entry.1, value) else entry).map Prod.fst = m.entries.map Prod.fst := by
  rw [List.map_map]
  apply List.map_congr_left
  intro entry _
  simp only [Function.comp_apply]
  split <;> rfl

/-- The value of an entry is overwritten. -/
def assign : UnorderedMap K V where
  entries := m.entries.map fun entry => if entry.1 = key then (entry.1, value) else entry
  nodup := by
    rw [map_fst_assign]
    exact m.nodup

/-- The entry of a key is removed. -/
def erase : UnorderedMap K V where
  entries := m.entries.filter fun entry => entry.1 ≠ key
  nodup := m.nodup.sublist (List.filter_sublist.map Prod.fst)

variable {m key value}

omit [DecidableEq K] in
/-- The key of an entry is one of the keys. -/
theorem mem_keys_of_mem (member : (key, value) ∈ m.entries) : key ∈ m.keys :=
  List.mem_map_of_mem (f := Prod.fst) member

/-- A new key comes last. -/
theorem entries_emplace (absent : key ∉ m.keys) :
    (m.emplace key value).entries = m.entries ++ [(key, value)] := by
  rw [emplace, dif_pos absent]

/-- What is found is what is there. -/
theorem find?_eq_some : m.find? key = some value ↔ (key, value) ∈ m.entries := by
  unfold find?
  constructor
  · intro found
    obtain ⟨⟨other, value'⟩, here, rfl⟩ := Option.map_eq_some_iff.mp found
    obtain rfl : other = key := by simpa using List.find?_some here
    exact List.mem_of_find?_eq_some here
  · intro member
    cases found : m.entries.find? fun entry => entry.1 = key with
    | none =>
        rw [List.find?_eq_none] at found
        exact absurd (decide_eq_true rfl) (found _ member)
    | some entry =>
        have same : entry.1 = key := by simpa using List.find?_some found
        obtain rfl := List.inj_on_of_nodup_map m.nodup (List.mem_of_find?_eq_some found) member same
        rfl

/-- A key of the map is found. -/
theorem exists_find? (listed : key ∈ m.keys) : ∃ value, m.find? key = some value := by
  obtain ⟨⟨_, value⟩, member, rfl⟩ := List.mem_map.mp listed
  exact ⟨value, find?_eq_some.mpr member⟩

/-- The erased entry may have been overwritten before. -/
theorem entries_assign_erase (value : V) :
    ((m.assign key value).erase key).entries = (m.erase key).entries := by
  show (m.entries.map _).filter _ = m.entries.filter _
  induction m.entries with
  | nil => rfl
  | cons entry rest ih =>
      rw [List.map_cons, List.filter_cons, List.filter_cons, ih]
      by_cases same : entry.1 = key <;> simp [same]

/-- An entry and the others. -/
theorem perm_cons_erase (member : (key, value) ∈ m.entries) :
    m.entries.Perm ((key, value) :: (m.erase key).entries) := by
  have once : m.entries.Nodup := m.nodup.of_map
  have remaining : ∀ entry, entry ∈ (m.erase key).entries ↔ entry ∈ m.entries ∧ entry.1 ≠ key := by
    intro entry
    rw [erase, List.mem_filter, decide_eq_true_eq]
  refine (List.perm_ext_iff_of_nodup once ?_).mpr fun entry => ?_
  · rw [List.nodup_cons]
    exact ⟨fun erased => ((remaining _).mp erased).2 rfl, once.sublist List.filter_sublist⟩
  · rw [List.mem_cons, remaining]
    constructor
    · intro listed
      by_cases same : entry.1 = key
      · exact .inl (List.inj_on_of_nodup_map m.nodup listed member same)
      · exact .inr ⟨listed, same⟩
    · rintro (rfl | ⟨listed, _⟩)
      · exact member
      · exact listed

end UnorderedMap

end HyperPlotter.Foundation

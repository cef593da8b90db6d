import HyperPlotter.Pipeline.Lanes

/-!
# The chosen work size

The constructor of `gpu_plotter` rounds the work size down to whole work groups, and
raises it to sixteen when nothing is left. Both steps know nothing of the sixteen
lanes that are interleaved, and nothing bounds the size by the kernel's `int`
addresses.
-/

namespace HyperPlotter.Pipeline

open Foundation Poc

namespace Device

variable (device : Device) (lws gws : Nat)

/-- The work-group size after defaulting. -/
def localSize : Nat := if lws = 0 then device.maxWorkGroupSize else lws

/-- The lanes that are asked for and fit into one allocation. -/
def lanes : Nat :=
  min (device.maxMemoryAllocSize / plotSize)
    (if gws = 0 then toUInt64 (device.computeUnits * device.localSize lws) else gws)

/-- What the kernel, the hasher and `transposition` rely on. -/
structure Usable : Prop where
  positive : 0 < device.globalWorkSize lws gws
  vectors : 16 ∣ device.globalWorkSize lws gws
  groups : device.localSize lws ∣ device.globalWorkSize lws gws
  memory : device.globalWorkSize lws gws * plotSize ≤ device.maxMemoryAllocSize
  inside : ∀ gid hash word : Nat, gid < device.globalWorkSize lws gws → hash < 8192 → word < 8 →
    0 ≤ addressInt gid hash word ∧
      addressInt gid hash word < device.globalWorkSize lws gws * 65536
  chunks : ∀ k j hash word : Int, exactAddress (k * device.globalWorkSize lws gws + j) hash word =
    k * device.globalWorkSize lws gws * 65536 + exactAddress j hash word

/-- Fewer than sixteen lanes and a work-group size that divides sixteen, or work
groups that are full vectors together and not too many. -/
def FullVectors : Prop :=
  device.lanes lws gws < 16 ∧ device.localSize lws ∣ 16 ∨
    device.localSize lws ≤ device.lanes lws gws ∧
      16 / Nat.gcd 16 (device.localSize lws) ∣ device.lanes lws gws / device.localSize lws ∧
      device.lanes lws gws / device.localSize lws * device.localSize lws ≤ 32768

instance : Decidable (device.FullVectors lws gws) := inferInstanceAs (Decidable (_ ∨ _))

variable {device lws gws}

/-- The work size is the lanes rounded down to whole groups, and at least 16. -/
theorem globalWorkSize_eq : device.globalWorkSize lws gws =
    if device.lanes lws gws / device.localSize lws * device.localSize lws < 16 then 16
    else device.lanes lws gws / device.localSize lws * device.localSize lws := rfl

/-- Work groups are full vectors together when their number makes up for what their
size lacks. -/
theorem vectors_iff (count size : Nat) : 16 ∣ count * size ↔ 16 / Nat.gcd 16 size ∣ count := by
  have cut : 16 / Nat.gcd 16 size * Nat.gcd 16 size = 16 :=
    Nat.div_mul_cancel (Nat.gcd_dvd_left 16 size)
  have positive : 0 < Nat.gcd 16 size := Nat.gcd_pos_of_pos_left size (by decide)
  calc 16 ∣ count * size
      ↔ 16 ∣ count * Nat.gcd 16 size := Nat.dvd_mul_gcd_iff_dvd_mul.symm
    _ ↔ 16 / Nat.gcd 16 size * Nat.gcd 16 size ∣ count * Nat.gcd 16 size := by rw [cut]
    _ ↔ 16 / Nat.gcd 16 size ∣ count := Nat.mul_dvd_mul_iff_right positive

/-- Full vectors whose lanes have exact addresses are usable. -/
theorem Usable.of_vectors (vectors : 16 ∣ device.globalWorkSize lws gws)
    (groups : device.localSize lws ∣ device.globalWorkSize lws gws)
    (positive : 0 < device.globalWorkSize lws gws)
    (memory : device.globalWorkSize lws gws * plotSize ≤ device.maxMemoryAllocSize)
    (bounded : device.globalWorkSize lws gws ≤ 32768) : device.Usable lws gws where
  positive := positive
  vectors := vectors
  groups := groups
  memory := memory
  inside := by
    intro gid hash word lane hashBound wordBound
    rw [addressInt_eq (by omega) (by omega) (by omega) (by omega) (by omega) (by omega)]
    unfold laneIndex
    omega
  chunks := exactAddress_chunk (Int.natCast_dvd_natCast.mpr vectors)

/-- A lane beyond the `int` addresses is in front of the buffer. -/
theorem Usable.bounded (usable : device.Usable lws gws) :
    device.globalWorkSize lws gws ≤ 32768 := by
  by_contra wide
  have wrapped := (usable.inside 32768 0 0 (Nat.lt_of_not_le wide) (by decide) (by decide)).1
  exact absurd wrapped (by decide)

/-- The work size is usable exactly with full vectors, on every device with room for
sixteen lanes. -/
theorem usable_iff (group : 1 ≤ device.maxWorkGroupSize)
    (room : 16 * plotSize ≤ device.maxMemoryAllocSize) :
    device.Usable lws gws ↔ device.FullVectors lws gws := by
  have positive : 0 < device.localSize lws := by
    unfold localSize
    split
    · exact group
    · next given => exact Nat.pos_of_ne_zero given
  have lanes_le : device.lanes lws gws * plotSize ≤ device.maxMemoryAllocSize :=
    (Nat.mul_le_mul_right _ (Nat.min_le_left ..)).trans (Nat.div_mul_le_self ..)
  have whole := Nat.div_mul_le_self (device.lanes lws gws) (device.localSize lws)
  have size := @globalWorkSize_eq device lws gws
  unfold FullVectors
  rw [← vectors_iff]
  constructor
  · intro usable
    have vectors := usable.vectors
    have groups := usable.groups
    have bounded := usable.bounded
    by_cases few : device.lanes lws gws / device.localSize lws * device.localSize lws < 16
    · rw [if_pos few] at size
      rw [size] at groups
      refine .inl ⟨Nat.lt_of_not_le fun many => ?_, groups⟩
      have count := Nat.div_le_div_right (c := device.localSize lws) many
      have full := Nat.mul_le_mul_right (device.localSize lws) count
      rw [Nat.div_mul_cancel groups] at full
      omega
    · rw [if_neg few] at size
      rw [size] at vectors bounded
      refine .inr ⟨?_, vectors, bounded⟩
      refine Nat.le_of_not_lt fun none => few ?_
      rw [Nat.div_eq_of_lt none, Nat.zero_mul]
      decide
  · rintro (⟨few, divides⟩ | ⟨some_group, vectors, bounded⟩)
    · rw [if_pos (by omega)] at size
      exact .of_vectors (size ▸ Nat.dvd_refl 16) (size ▸ divides) (size ▸ by decide)
        (size ▸ room) (size ▸ by decide)
    · have count := Nat.div_pos some_group positive
      have full := Nat.le_of_dvd (Nat.mul_pos count positive) vectors
      rw [if_neg (by omega)] at size
      exact .of_vectors (size ▸ vectors) (size ▸ Nat.dvd_mul_left ..) (by omega)
        (size ▸ (Nat.mul_le_mul_right _ whole).trans lanes_le) (size ▸ bounded)

/-- Forty groups of 256 work items. -/
theorem usable_fortyGroups : (Device.mk 40 256 4294967296).Usable 0 0 :=
  (usable_iff (by decide) (by decide)).mpr (by decide)

/-- Three work groups of eight lanes are one and a half vectors. -/
theorem not_usable : 1 ≤ (Device.mk 3 256 1073741824).maxWorkGroupSize ∧
    16 * plotSize ≤ (Device.mk 3 256 1073741824).maxMemoryAllocSize ∧
    ¬(Device.mk 3 256 1073741824).Usable 8 0 := by
  refine ⟨by decide, by decide, fun usable => ?_⟩
  exact absurd usable.vectors (by decide)

end Device

end HyperPlotter.Pipeline

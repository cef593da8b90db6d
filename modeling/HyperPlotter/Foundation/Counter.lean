import Mathlib.Data.Int.GCD

/-!
# Counters that wrap

A register of `size` values that starts at 0 and grows by a constant step. It
only takes multiples of the greatest common divisor of the step and `size`, and
it takes the largest of them.
-/

namespace HyperPlotter.Foundation

/-- The register after `turns` steps. -/
def counter (size step turns : Nat) : Nat := turns * step % size

variable {size step : Nat}

@[simp] theorem counter_zero : counter size step 0 = 0 := by
  simp [counter]

/-- A turn moves the counter by a step. -/
theorem counter_succ (turns : Nat) :
    counter size step (turns + 1) = (counter size step turns + step) % size := by
  simp [counter, Nat.succ_mul]

/-- The register stays a whole divisor below its size. -/
theorem counter_add_gcd_le (positive : 0 < size) (turns : Nat) :
    counter size step turns + step.gcd size ≤ size := by
  have stepped : step.gcd size ∣ turns * step := (Nat.gcd_dvd_left step size).mul_left turns
  have whole : step.gcd size ∣ size := Nat.gcd_dvd_right step size
  have taken : step.gcd size ∣ counter size step turns := (Nat.dvd_mod_iff whole).mpr stepped
  have room : step.gcd size ∣ size - counter size step turns := Nat.dvd_sub whole taken
  have below : counter size step turns < size := Nat.mod_lt _ positive
  have := Nat.le_of_dvd (by omega) room
  omega

/-- The register reaches the last multiple of the divisor. -/
theorem exists_counter_add_gcd (positive : 0 < size) :
    ∃ turns, counter size step turns + step.gcd size = size := by
  obtain ⟨parts, whole⟩ := Nat.gcd_dvd_right step size
  have divisor : 0 < step.gcd size := Nat.gcd_pos_of_pos_right step positive
  rcases Nat.lt_or_ge (step.gcd size) size with small | large
  · obtain ⟨turns, _, once⟩ := Nat.exists_mul_mod_eq_gcd small
    refine ⟨(parts - 1) * turns, ?_⟩
    -- The divisor itself is reached; one fewer than all its multiples later it
    -- stands at the last.
    have last : (parts - 1) * step.gcd size + step.gcd size = size := by
      conv_rhs => rw [whole]
      cases parts with
      | zero => omega
      | succ parts => rw [Nat.add_sub_cancel, Nat.mul_succ, Nat.mul_comm]
    have reached : counter size step ((parts - 1) * turns) = (parts - 1) * step.gcd size := by
      calc counter size step ((parts - 1) * turns)
          = (parts - 1) * (step * turns) % size := by
            rw [counter, Nat.mul_assoc, Nat.mul_comm turns]
        _ = (parts - 1) * (step * turns % size) % size := by
            rw [Nat.mul_mod_mod]
        _ = (parts - 1) * step.gcd size := by
            rw [once, Nat.mod_eq_of_lt (by omega)]
    rw [reached, last]
  · have same : step.gcd size = size :=
      Nat.le_antisymm (Nat.gcd_le_right step positive) large
    exact ⟨0, by rw [counter_zero, Nat.zero_add, same]⟩

/-- The register comes to a bound or past it exactly when the last multiple does. -/
theorem exists_le_counter (positive : 0 < size) {bound : Nat} :
    (∃ turns, bound ≤ counter size step turns) ↔ bound + step.gcd size ≤ size := by
  constructor
  · rintro ⟨turns, reached⟩
    have last : counter size step turns + step.gcd size ≤ size := counter_add_gcd_le positive turns
    omega
  · intro below
    have reached : ∃ turns, counter size step turns + step.gcd size = size :=
      exists_counter_add_gcd positive
    obtain ⟨turns, last⟩ := reached
    exact ⟨turns, by omega⟩

end HyperPlotter.Foundation

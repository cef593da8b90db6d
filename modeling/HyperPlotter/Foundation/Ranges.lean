/-!
# Ranges laid one after the other

Half-open ranges of natural numbers that are handed out at a cursor which never
moves back: they are disjoint.
-/

namespace HyperPlotter.Foundation

/-- The numbers from `start` on, `size` many. -/
structure Range where
  start : Nat
  size : Nat

namespace Range

/-- The first number after the range. -/
def stop (range : Range) : Nat := range.start + range.size

/-- No number is in both. -/
def Apart (a b : Range) : Prop := a.stop ≤ b.start ∨ b.stop ≤ a.start

/-- What `Apart` says about the numbers. -/
theorem Apart.not_both {a b : Range} (apart : a.Apart b) {x : Nat}
    (first : a.start ≤ x ∧ x < a.stop) (second : b.start ≤ x ∧ x < b.stop) : False := by
  rcases apart with before | after <;> omega

end Range

/-- Ranges in the order of their numbers, all before the cursor. -/
structure Laid (ranges : List Range) (cursor : Nat) : Prop where
  inOrder : ranges.Pairwise fun a b => a.stop ≤ b.start
  before : ∀ range ∈ ranges, range.stop ≤ cursor

namespace Laid

variable {ranges : List Range} {cursor next : Nat}

/-- No ranges are laid anywhere. -/
theorem nil : Laid [] cursor := ⟨.nil, by simp⟩

/-- The cursor moves on. -/
theorem advance (laid : Laid ranges cursor) (later : cursor ≤ next) : Laid ranges next :=
  ⟨laid.inOrder, fun range member => Nat.le_trans (laid.before range member) later⟩

/-- A range at the cursor. -/
theorem push (laid : Laid ranges cursor) (size : Nat) :
    Laid (ranges ++ [⟨cursor, size⟩]) (cursor + size) where
  inOrder := by
    rw [List.pairwise_append]
    refine ⟨laid.inOrder, List.pairwise_singleton .., fun a member b here => ?_⟩
    rw [List.mem_singleton.mp here]
    exact laid.before a member
  before := by
    intro range member
    rcases List.mem_append.mp member with old | new
    · exact Nat.le_trans (laid.before range old) (Nat.le_add_right ..)
    · rw [List.mem_singleton.mp new]
      exact Nat.le_refl _

/-- Laid ranges have no number in common. -/
theorem apart (laid : Laid ranges cursor) : ranges.Pairwise Range.Apart :=
  laid.inOrder.imp fun before => .inl before

end Laid

end HyperPlotter.Foundation

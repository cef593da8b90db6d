import Mathlib.Algebra.Order.BigOperators.Group.List
import Mathlib.Algebra.Order.Group.Nat
import HyperPlotter.Plan.Passes

/-!
# The files that fit

With enough nonces to generate, what a pass pushes on a driver depends on its room
only. Room that loses the first of these files loses them from the list, whether
they were pushed in the first or in the second pass.
-/

namespace HyperPlotter.Plan

open Foundation Poc Pipeline

/-- The nonces of the files a pass puts into some room, if they hold at most `most`. -/
def pieces (most align room : Nat) : List Nat :=
  let n := min most room / align * align
  if n = 0 ∨ 2147483647 ≤ n then [] else n :: pieces most align (room - n)
termination_by room
decreasing_by
  have below := Nat.div_mul_le_self (min most room) align
  omega

section Pieces

variable {most align room : Nat}

/-- No piece is cut when the next one is empty or too large. -/
theorem pieces_nil (ended : min most room / align * align = 0 ∨
    2147483647 ≤ min most room / align * align) : pieces most align room = [] := by
  rw [pieces]
  exact if_pos ended

/-- The first piece and those of the rest. -/
theorem pieces_cons {n : Nat} (next : min most room / align * align = n) (nonzero : n ≠ 0)
    (small : n < 2147483647) :
    pieces most align room = n :: pieces most align (room - n) := by
  rw [pieces, next]
  exact if_neg (by omega)

/-- The pieces fit into the room together, and each is one file. -/
theorem pieces_bound : (pieces most align room).sum ≤ room ∧
    ∀ n ∈ pieces most align room, 0 < n ∧ align ∣ n ∧ n < 2147483647 := by
  fun_induction pieces most align room with
  | case1 => exact ⟨Nat.zero_le _, List.forall_mem_nil _⟩
  | case2 room n goes ih =>
      have below : n ≤ min most room := Nat.div_mul_le_self ..
      refine ⟨?_, List.forall_mem_cons.mpr ⟨⟨by omega, Nat.dvd_mul_left .., by omega⟩, ih.2⟩⟩
      rw [List.sum_cons]
      have := ih.1
      omega

/-- After the first pieces the others fit. -/
theorem pieces_drop (k : Nat) :
    pieces most align (room - ((pieces most align room).take k).sum) =
      (pieces most align room).drop k := by
  fun_induction pieces most align room generalizing k with
  | case1 room n ended =>
      rw [List.take_nil, List.drop_nil, List.sum_nil, Nat.sub_zero]
      exact pieces_nil ended
  | case2 room n goes ih =>
      cases k with
      | zero => exact pieces_cons rfl (by omega) (by omega)
      | succ k =>
          rw [List.take_succ_cons, List.drop_succ_cons, List.sum_cons, ← Nat.sub_sub]
          exact ih k

/-- After all pieces nothing fits. -/
theorem pieces_rest : pieces most align (room - (pieces most align room).sum) = [] := by
  have none_left : pieces most align (room -
      ((pieces most align room).take (pieces most align room).length).sum) = _ := pieces_drop _
  rwa [List.take_length, List.drop_length] at none_left

/-- No piece fits: the room is too small or too large for a file. -/
theorem pieces_eq_nil : pieces most align room = [] ↔
    min most room / align * align = 0 ∨ 2147483647 ≤ min most room / align * align := by
  refine ⟨fun none_fits => ?_, pieces_nil⟩
  by_contra goes
  rw [pieces_cons rfl (by omega) (by omega)] at none_fits
  cases none_fits

end Pieces

/-! ## Two passes -/

/-- What the first pass pushes on a driver. -/
def firstPieces (most room : Nat) : List Nat := pieces most 64 room

/-- What the second pass pushes on a driver. -/
def secondPieces (most room : Nat) : List Nat :=
  pieces most 8 (room - (firstPieces most room).sum)

section Passes

variable {most room : Nat}

/-- What the first pass leaves is too little or too much for another of its files. -/
private theorem left_over {left : Nat} (first : pieces most 64 left = []) :
    min most left / 64 * 64 = 0 ∨ pieces most 8 left = [] := by
  rcases pieces_eq_nil.mp first with none_fits | large
  · exact .inl none_fits
  · exact .inr (pieces_nil (by omega))

/-- Files of the second pass are too small for the first. -/
theorem secondPieces_small (aligned : 64 ∣ most) {n : Nat} (member : n ∈ secondPieces most room) :
    n < 64 := by
  have first : pieces most 64 (room - (firstPieces most room).sum) = [] := pieces_rest
  unfold secondPieces at member
  generalize room - (firstPieces most room).sum = left at first member
  rcases left_over first with none_fits | none_left
  · have within : (pieces most 8 left).sum ≤ left := pieces_bound.1
    have least := List.single_le_sum (fun n _ => Nat.zero_le n) n member
    by_cases no_files : most = 0
    · rw [no_files, pieces_nil (by simp)] at member
      cases member
    · omega
  · rw [none_left] at member
    cases member

/-- Without the files of both passes that are there, the passes push the others. -/
theorem pieces_resumed (k : Nat) {rest : Nat}
    (taken : rest = room - ((firstPieces most room ++ secondPieces most room).take k).sum) :
    firstPieces most rest = (firstPieces most room).drop k ∧
      secondPieces most rest = (secondPieces most room).drop (k - (firstPieces most room).length) := by
  by_cases some_first : k ≤ (firstPieces most room).length
  · rw [List.take_append_of_le_length some_first] at taken
    have first : firstPieces most rest = (firstPieces most room).drop k := by
      rw [taken]
      exact pieces_drop k
    refine ⟨first, ?_⟩
    have parts := congrArg List.sum (List.take_append_drop k (firstPieces most room))
    rw [List.sum_append] at parts
    have left : rest - ((firstPieces most room).drop k).sum =
        room - (firstPieces most room).sum := by omega
    have nothing : k - (firstPieces most room).length = 0 := by omega
    rw [nothing, List.drop_zero, secondPieces, first, left, secondPieces]
  · rw [List.take_append, List.take_of_length_le (by omega), List.sum_append, ← Nat.sub_sub]
      at taken
    rw [List.drop_eq_nil_of_le (by omega)]
    have first : pieces most 64 (room - (firstPieces most room).sum) = [] := pieces_rest
    unfold secondPieces at taken ⊢
    generalize room - (firstPieces most room).sum = left at first taken ⊢
    generalize k - (firstPieces most room).length = j at taken ⊢
    have none_first : firstPieces most rest = [] := by
      rcases left_over first with none_fits | none_left
      · exact pieces_nil (.inl (by omega))
      · rw [none_left, List.take_nil, List.sum_nil, Nat.sub_zero] at taken
        rw [taken]
        exact first
    refine ⟨none_first, ?_⟩
    rw [none_first, List.sum_nil, Nat.sub_zero, taken]
    exact pieces_drop j

end Passes

end HyperPlotter.Plan

import Mathlib.Data.List.Nodup
import Mathlib.Data.List.Range

/-!
# Lists divided among owners

What some owners have together, up to order, when one of them gains or loses.
-/

namespace HyperPlotter.Foundation

variable {α : Type}

/-- What the owners below `n` have. -/
def shares (n : Nat) (share : Nat → List α) : List α := (List.range n).flatMap share

/-- What is in the shares is in one of them. -/
theorem mem_shares {n : Nat} {share : Nat → List α} {a : α} :
    a ∈ shares n share ↔ ∃ i, i < n ∧ a ∈ share i := by
  simp [shares]

/-- A single owner's share can be taken out; the rest does not depend on it. -/
theorem shares_perm {n i : Nat} (owner : i < n) (share : Nat → List α) :
    ∃ rest, (shares n share).Perm (share i ++ rest) ∧
      ∀ other : Nat → List α, (∀ j, j ≠ i → other j = share j) →
        (shares n other).Perm (other i ++ rest) := by
  have cut : (List.range n).Perm (i :: (List.range n).erase i) :=
    List.perm_cons_erase (List.mem_range.mpr owner)
  have taken : ∀ other : Nat → List α, (shares n other).Perm
      (other i ++ ((List.range n).erase i).flatMap other) := fun other => cut.flatMap_right other
  refine ⟨((List.range n).erase i).flatMap share, taken share, fun other same => ?_⟩
  have rest : ((List.range n).erase i).flatMap other = ((List.range n).erase i).flatMap share :=
    List.flatMap_congr fun j member => same j (List.nodup_range.mem_erase_iff.mp member).1
  rw [← rest]
  exact taken other

/-- What the owners of a list of lists have is the list of all. -/
theorem shares_getD (lists : List (List α)) :
    shares lists.length (fun i => lists.getD i []) = lists.flatten := by
  rw [shares, List.flatMap_def]
  refine congrArg List.flatten (List.ext_getElem (by simp) fun i _ inside => ?_)
  simp [List.getD_eq_getElem?_getD, List.getElem?_eq_getElem inside]

/-- A list divided by owner and put together again. -/
theorem flatMap_filter_perm {β : Type} [DecidableEq β] (owner : α → β) {owners : List β}
    (once : owners.Nodup) {l : List α} (known : ∀ a ∈ l, owner a ∈ owners) :
    (owners.flatMap fun own => l.filter (owner · = own)).Perm l := by
  induction owners generalizing l with
  | nil =>
      obtain rfl : l = [] := List.eq_nil_iff_forall_not_mem.mpr fun a member => nomatch known a member
      exact .refl _
  | cons own rest ih =>
      obtain ⟨apart, once⟩ := List.nodup_cons.mp once
      have others : (rest.flatMap fun other => l.filter (owner · = other)) =
          rest.flatMap fun other => (l.filter (¬owner · = own)).filter (owner · = other) := by
        refine List.flatMap_congr fun other member => ?_
        have differ : other ≠ own := ne_of_mem_of_not_mem member apart
        rw [List.filter_filter]
        refine List.filter_congr fun a _ => ?_
        by_cases here : owner a = other
        · simp [here, differ]
        · simp [here]
      have left := ih once (l := l.filter (¬owner · = own)) fun a member => by
        obtain ⟨listed, differ⟩ := List.mem_filter.mp member
        exact (List.mem_cons.mp (known a listed)).resolve_left (of_decide_eq_true differ)
      rw [List.flatMap_cons, others]
      refine (left.append_left _).trans ?_
      simpa using List.filter_append_perm (owner · = own) l

end HyperPlotter.Foundation

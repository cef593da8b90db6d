/-!
# Folds that settle

A fold over a list of items, each of which is settled by its first step: further steps on
a settled item do nothing, and no step unsettles one. Then an item counts once, at its
first place in the list.
-/

namespace HyperPlotter.Foundation

variable {σ α : Type}

/-- A step settles its item, for the steps after it. -/
structure Settles (step : σ → α → Option σ) (Settled : σ → α → Prop) : Prop where
  idle : ∀ {s item}, Settled s item → step s item = some s
  settles : ∀ {s item t}, step s item = some t → Settled t item
  keeps : ∀ {s item t other}, step s item = some t → Settled s other → Settled t other

namespace Settles

variable {step : σ → α → Option σ} {Settled : σ → α → Prop}

/-- Settled items may be left out. -/
theorem foldlM_filter (settling : Settles step Settled) (keep : α → Bool) {items : List α} {s : σ}
    (dropped : ∀ item ∈ items, ¬keep item → Settled s item) :
    (items.filter keep).foldlM step s = items.foldlM step s := by
  induction items generalizing s with
  | nil => rfl
  | cons item rest ih =>
      obtain ⟨first, others⟩ := List.forall_mem_cons.mp dropped
      by_cases kept : keep item
      · rw [List.filter_cons_of_pos kept, List.foldlM_cons, List.foldlM_cons]
        cases taken : step s item with
        | none => rfl
        | some t =>
            exact ih fun other member left => settling.keeps taken (others other member left)
      · rw [List.filter_cons_of_neg kept, List.foldlM_cons, settling.idle (first kept)]
        exact ih others

/-- An item counts at its first place only. -/
theorem foldlM_eraseDups [BEq α] [LawfulBEq α] (settling : Settles step Settled)
    (items : List α) (s : σ) : items.eraseDups.foldlM step s = items.foldlM step s := by
  -- Induction on the length: `eraseDups` goes on with the filtered tail.
  induction length : items.length using Nat.strongRecOn generalizing items s with
  | _ count ih =>
      cases items with
      | nil => rfl
      | cons item rest =>
          rw [List.eraseDups_cons, List.foldlM_cons, List.foldlM_cons]
          cases taken : step s item with
          | none => rfl
          | some t =>
              have shorter : (rest.filter fun other => !other == item).length < count := by
                have := List.length_filter_le (fun other => !other == item) rest
                rw [List.length_cons] at length
                omega
              have settled : ∀ other ∈ rest, ¬(!other == item) = true → Settled t other := by
                intro other _ same
                obtain rfl : other = item := by simpa using same
                exact settling.settles taken
              exact (ih _ shorter _ t rfl).trans (settling.foldlM_filter _ settled)

end Settles

end HyperPlotter.Foundation

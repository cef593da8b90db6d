import HyperPlotter.Plan.WellFormed

/-!
# What a pass leaves

A pass visits the existing drivers of its list, and leaves none of them with room
for a further file.
-/

namespace HyperPlotter.Plan

open Foundation Poc Pipeline

namespace Planner

variable {request : PlanRequest} {drives : Text → Drive} {p q : Planner} {align : Nat}
  {driver other : Text}

/-! ## The visited drivers -/

/-- Filling visits nothing. -/
theorem fill_visited (rounds : Nat) :
    (p.fill request align driver rounds).visited = p.visited := by
  induction rounds generalizing p with
  | zero => rfl
  | succ rounds ih =>
      rw [fill]
      split
      · rfl
      · simp only []
        split
        · rfl
        · exact ih

/-- A visit visits its driver. -/
theorem visit_visited (visited : p.visit request drives driver = some q) :
    other ∈ q.visited ↔ other ∈ p.visited ∨ other = driver := by
  by_cases old : driver ∈ p.visited
  · rw [visit, if_pos old] at visited
    obtain rfl := Option.some.inj visited
    refine ⟨.inl, fun member => member.elim id ?_⟩
    rintro rfl
    exact old
  · obtain ⟨scan, _, rfl⟩ := visit_cases old visited
    simp

/-- Serving visits a driver that is present. -/
theorem serve_visited (served : p.serve request drives align driver = some q) :
    other ∈ q.visited ↔ other ∈ p.visited ∨ other = driver ∧ (drives driver).present := by
  unfold serve at served
  split at served
  · rename_i present
    obtain ⟨next, visited, rfl⟩ := Option.map_eq_some_iff.mp served
    rw [fill_visited, visit_visited visited, and_iff_left present]
  · rename_i absent
    obtain rfl := Option.some.inj served
    simp [absent]

/-- A pass visits the drivers that are present. -/
theorem allocate_visited {drivers : List Text}
    (allocated : p.allocate request drives align drivers = some q) :
    other ∈ q.visited ↔ other ∈ p.visited ∨ other ∈ drivers ∧ (drives other).present := by
  induction drivers generalizing p with
  | nil =>
      obtain rfl : p = q := Option.some.inj allocated
      simp
  | cons driver rest ih =>
      rw [allocate, List.foldlM_cons] at allocated
      obtain ⟨next, served, later⟩ := Option.bind_eq_some_iff.mp allocated
      rw [ih later, serve_visited served, List.mem_cons, or_assoc, or_and_right]
      refine or_congr_right (or_congr_left (and_congr_right ?_))
      rintro rfl
      rfl

/-- The planner visits the existing drivers of its list. -/
theorem plan_visited (planned : plan request drives = some p) :
    other ∈ p.visited ↔ other ∈ request.drivers ∧ (drives other).present := by
  obtain ⟨first, made, rest⟩ := Option.bind_eq_some_iff.mp planned
  rw [allocate_visited rest, allocate_visited made, or_assoc, or_self]
  exact or_iff_right List.not_mem_nil

/-! ## The scans of the visited drivers -/

/-- The scans of the visited drivers went through. -/
private def Scanned (request : PlanRequest) (drives : Text → Drive) (p : Planner) : Prop :=
  ∀ driver ∈ p.visited, (request.scan (drives driver)).isSome

/-- A driver is served unless its scan throws. -/
private theorem serve_isSome (scanned : Scanned request drives p) :
    (p.serve request drives align driver).isSome ↔
      ((drives driver).present → (request.scan (drives driver)).isSome) := by
  unfold serve visit
  by_cases present : (drives driver).present
  · by_cases old : driver ∈ p.visited
    · simp [present, old, scanned driver old]
    · simp [present, old]
  · simp [present]

private theorem serve_scanned (scanned : Scanned request drives p)
    (served : p.serve request drives align driver = some q) : Scanned request drives q := by
  unfold serve at served
  split at served
  · obtain ⟨next, made, rfl⟩ := Option.map_eq_some_iff.mp served
    have kept : Scanned request drives next := by
      by_cases old : driver ∈ p.visited
      · rw [visit, if_pos old] at made
        obtain rfl := Option.some.inj made
        exact scanned
      · obtain ⟨scan, read, rfl⟩ := visit_cases old made
        intro other member
        rcases List.mem_append.mp member with before | here
        · exact scanned other before
        · rw [List.mem_singleton.mp here, read]
          rfl
    intro other member
    rw [fill_visited] at member
    exact kept other member
  · obtain rfl := Option.some.inj served
    exact scanned

/-- A pass ends unless the scan of one of its drivers throws. -/
private theorem allocate_isSome {drivers : List Text} (scanned : Scanned request drives p) :
    (p.allocate request drives align drivers).isSome ↔
      ∀ driver ∈ drivers, (drives driver).present → (request.scan (drives driver)).isSome := by
  induction drivers generalizing p with
  | nil => simp [allocate]
  | cons driver rest ih =>
      rw [allocate, List.foldlM_cons, List.forall_mem_cons, ← serve_isSome scanned]
      cases served : p.serve request drives align driver with
      | none => simp
      | some next =>
          rw [Option.isSome_some, Option.bind_eq_bind, Option.bind_some]
          exact (ih (serve_scanned scanned served)).trans (and_iff_right rfl).symm

private theorem allocate_scanned {drivers : List Text} (scanned : Scanned request drives p)
    (allocated : p.allocate request drives align drivers = some q) : Scanned request drives q := by
  induction drivers generalizing p with
  | nil =>
      obtain rfl : p = q := Option.some.inj allocated
      exact scanned
  | cons driver rest ih =>
      rw [allocate, List.foldlM_cons] at allocated
      obtain ⟨next, served, later⟩ := Option.bind_eq_some_iff.mp allocated
      exact ih (serve_scanned scanned served) later

/-- The planner finishes exactly when no scan throws. -/
theorem plan_isSome : (plan request drives).isSome ↔
    ∀ driver ∈ request.drivers, (drives driver).present →
      (request.scan (drives driver)).isSome := by
  have nothing : Scanned request drives (start request) := List.forall_mem_nil _
  have firstPass : (allocate request drives 64 (start request) request.drivers).isSome ↔ _ :=
    allocate_isSome nothing
  rw [← firstPass]
  unfold plan
  cases allocated : (start request).allocate request drives 64 request.drivers with
  | none => simp
  | some first =>
      rw [Option.bind_eq_bind, Option.bind_some, allocate_isSome (allocate_scanned nothing allocated),
        ← firstPass, allocated]

/-! ## Room for a further file -/

/-- Less to generate and no more room: no larger file. -/
theorem nonces_mono (fewer : q.noncesToGen ≤ p.noncesToGen)
    (less : q.freeSpaces driver ≤ p.freeSpaces driver) :
    q.nonces request align driver ≤ p.nonces request align driver := by
  have room : (q.freeSpaces driver).tdiv plotSize ≤ (p.freeSpaces driver).tdiv plotSize :=
    Int.tdiv_le_tdiv (by decide) less
  refine Nat.mul_le_mul_right _ (Nat.div_le_div_right (min_le_min fewer ?_))
  exact Int.toNat_le_toNat (max_le_max_left 0 (min_le_min_left _ room))

/-- What the `while` loop leaves to the drivers. -/
structure LeftBy (driver : Text) (p q : Planner) : Prop where
  fewer : q.noncesToGen ≤ p.noncesToGen
  others : ∀ other, other ≠ driver → q.freeSpaces other = p.freeSpaces other

/-- What filling leaves. -/
theorem fill_leftBy (rounds : Nat) : LeftBy driver p (p.fill request align driver rounds) := by
  induction rounds generalizing p with
  | zero => exact ⟨Nat.le_refl _, fun _ _ => rfl⟩
  | succ rounds ih =>
      rw [fill]
      split
      · exact ⟨Nat.le_refl _, fun _ _ => rfl⟩
      · simp only []
        split
        · exact ⟨Nat.le_refl _, fun _ _ => rfl⟩
        · obtain ⟨fewer, others⟩ := @ih (p.push request driver (p.nonces request align driver))
          refine ⟨Nat.le_trans fewer (Nat.sub_le ..), fun other differ => ?_⟩
          rw [others other differ]
          exact Function.update_of_ne differ ..

/-- The `while` loop goes on until there is no further file, or a too large one. -/
theorem fill_ended (rounds : Nat) (enough : p.noncesToGen ≤ rounds) :
    (p.fill request align driver rounds).nonces request align driver = 0 ∨
      2147483647 ≤ (p.fill request align driver rounds).nonces request align driver := by
  have none_left : ∀ p : Planner, p.noncesToGen = 0 → p.nonces request align driver = 0 := by
    intro p nothing
    unfold nonces
    simp only [nothing, Nat.zero_min, Nat.zero_div, Nat.zero_mul]
  induction rounds generalizing p with
  | zero => exact .inl (none_left p (by omega))
  | succ rounds ih =>
      rw [fill]
      split
      · rename_i nothing
        exact .inl (none_left p nothing)
      · simp only []
        split
        · rename_i ended
          exact ended
        · refine ih ?_
          have left := (nonces_bound request align p driver).left
          show p.noncesToGen - p.nonces request align driver ≤ rounds
          omega

/-- A visit leaves the drivers visited before alone. -/
theorem visit_leftBy (visited : p.visit request drives driver = some q) : LeftBy driver p q := by
  by_cases old : driver ∈ p.visited
  · rw [visit, if_pos old] at visited
    obtain rfl := Option.some.inj visited
    exact ⟨Nat.le_refl _, fun _ _ => rfl⟩
  · obtain ⟨scan, _, rfl⟩ := visit_cases old visited
    exact ⟨Nat.le_refl _, fun other differ => Function.update_of_ne differ ..⟩

/-- A served driver has no room for a further file, and no driver gets any. -/
theorem serve_full (small : request.maxNoncesPerFile < 2147483647)
    (served : p.serve request drives align driver = some q)
    (member : p.nonces request align other = 0 ∧ other ∈ p.visited ∨
      other = driver ∧ (drives driver).present) : q.nonces request align other = 0 := by
  unfold serve at served
  split at served
  · obtain ⟨next, visited, rfl⟩ := Option.map_eq_some_iff.mp served
    by_cases here : other = driver
    · subst here
      have most := (nonces_bound request align
        (next.fill request align other next.noncesToGen) other).most
      rcases fill_ended next.noncesToGen (Nat.le_refl next.noncesToGen) with ended | large
      · exact ended
      · omega
    · obtain ⟨full, _⟩ := member.resolve_right fun same => here same.1
      have first := visit_leftBy visited
      have second : LeftBy driver next (next.fill request align driver next.noncesToGen) :=
        fill_leftBy _
      have less : (next.fill request align driver next.noncesToGen).nonces request align other ≤
          p.nonces request align other :=
        nonces_mono (Nat.le_trans second.fewer first.fewer)
          ((second.others other here).trans (first.others other here)).le
      omega
  · rename_i absent
    obtain rfl := Option.some.inj served
    rcases member with ⟨full, _⟩ | ⟨_, present⟩
    · exact full
    · exact absurd present absent

/-- After a pass there is no room on its drivers. -/
theorem allocate_full (small : request.maxNoncesPerFile < 2147483647) {drivers : List Text}
    (allocated : p.allocate request drives align drivers = some q)
    (member : p.nonces request align other = 0 ∧ other ∈ p.visited ∨
      other ∈ drivers ∧ (drives other).present) : q.nonces request align other = 0 := by
  induction drivers generalizing p with
  | nil =>
      obtain rfl : p = q := Option.some.inj allocated
      exact (member.resolve_right fun listed => List.not_mem_nil listed.1).1
  | cons driver rest ih =>
      rw [allocate, List.foldlM_cons] at allocated
      obtain ⟨next, served, later⟩ := Option.bind_eq_some_iff.mp allocated
      refine ih later ?_
      rcases member with ⟨full, old⟩ | ⟨listed, present⟩
      · exact .inl ⟨serve_full small served (.inl ⟨full, old⟩),
          (serve_visited served).mpr (.inl old)⟩
      · rcases List.mem_cons.mp listed with rfl | later
        · exact .inl ⟨serve_full small served (.inr ⟨rfl, present⟩),
            (serve_visited served).mpr (.inr ⟨rfl, present⟩)⟩
        · exact .inr ⟨later, present⟩

/-- In the end no visited driver has room for eight more nonces that are to be
generated. -/
theorem plan_full (small : request.maxNoncesPerFile < 2147483647)
    (planned : plan request drives = some p) (visited : driver ∈ p.visited) :
    p.nonces request 8 driver = 0 := by
  have listed := (plan_visited planned).mp visited
  obtain ⟨first, _, rest⟩ := Option.bind_eq_some_iff.mp planned
  exact allocate_full small rest (.inr listed)

end Planner

end HyperPlotter.Plan

import HyperPlotter.Plan.Passes

/-!
# The planner leaves nothing out

The loops of `fn_task_allocator` as they stand, with no bound on their rounds. Both
passes end with the plan of `Planner.plan`, and in it fewer than eight nonces are
left to generate or no driver has room for eight more.
-/

namespace HyperPlotter.Plan

open Foundation Poc Pipeline

namespace Planner

variable (request : PlanRequest) (drives : Text → Drive) (align : Nat)

/-- The `while` loop is left: by its condition, or by the `break`. -/
def Stops (driver : Text) (p : Planner) : Prop :=
  p.noncesToGen = 0 ∨ p.nonces request align driver = 0 ∨
    p.nonces request align driver ≥ 2147483647

/-- The `while` loop goes from `p` to `q`. -/
inductive Loops (driver : Text) : Planner → Planner → Prop where
  | stop {p} (stops : Stops request align driver p) : Loops driver p p
  | round {p q} (goes : ¬Stops request align driver p)
      (rest : Loops driver (p.push request driver (p.nonces request align driver)) q) :
      Loops driver p q

/-- One driver of the `for` loop takes `p` to `q`. -/
inductive Serves (driver : Text) : Planner → Planner → Prop where
  | absent {p} (absent : (drives driver).present = false) : Serves driver p p
  | present {p visited q} (present : (drives driver).present = true)
      (visit : p.visit request drives driver = some visited)
      (loops : Loops request align driver visited q) : Serves driver p q

/-- The `for` loop takes `p` to `q`. -/
inductive Allocates : List Text → Planner → Planner → Prop where
  | nil {p} : Allocates [] p p
  | cons {driver rest p next q} (serves : Serves request drives align driver p next)
      (later : Allocates rest next q) : Allocates (driver :: rest) p q

/-- Both passes end, with the plan `p`. -/
def Plans (p : Planner) : Prop :=
  ∃ first, Allocates request drives 64 request.drivers (start request) first ∧
    Allocates request drives 8 request.drivers first p

variable {request drives align} {p q : Planner} {driver : Text}

/-! ## The passes end -/

/-- Every round takes a nonce off the count, so this many rounds are enough. -/
theorem loops_iff {rounds : Nat} (enough : p.noncesToGen ≤ rounds) :
    Loops request align driver p q ↔ p.fill request align driver rounds = q := by
  induction rounds generalizing p with
  | zero =>
      have stops : Stops request align driver p := .inl (Nat.le_zero.mp enough)
      constructor
      · rintro (_ | ⟨goes, _⟩)
        · rfl
        · exact absurd stops goes
      · rintro rfl
        exact .stop stops
  | succ rounds ih =>
      by_cases stops : Stops request align driver p
      · have stays : p.fill request align driver (rounds + 1) = p := by
          rw [fill]
          split
          · rfl
          · next more => exact if_pos (stops.resolve_left more)
        rw [stays]
        constructor
        · rintro (_ | ⟨goes, _⟩)
          · rfl
          · exact absurd stops goes
        · rintro rfl
          exact .stop stops
      · obtain ⟨more, proceeds⟩ := not_or.mp stops
        have fewer : (p.push request driver (p.nonces request align driver)).noncesToGen ≤
            rounds := by
          have positive := Nat.pos_of_ne_zero (not_or.mp proceeds).1
          show p.noncesToGen - p.nonces request align driver ≤ rounds
          omega
        have goes : p.fill request align driver (rounds + 1) =
            (p.push request driver (p.nonces request align driver)).fill request align driver
              rounds := by
          rw [fill, if_neg more]
          exact if_neg proceeds
        rw [goes, ← ih fewer]
        constructor
        · rintro (stops' | ⟨_, rest⟩)
          · exact absurd stops' stops
          · exact rest
        · exact .round stops

/-- The relation is what `serve` computes. -/
theorem serves_iff : Serves request drives align driver p q ↔
    p.serve request drives align driver = some q := by
  unfold serve
  constructor
  · rintro (absent | ⟨present, visited, loops⟩)
    · rw [if_neg (by simp [absent])]
    · rw [if_pos present, visited, Option.map_some, (loops_iff (Nat.le_refl _)).mp loops]
  · intro served
    split at served
    · next present =>
        obtain ⟨visited, visit, filled⟩ := Option.map_eq_some_iff.mp served
        exact .present present visit ((loops_iff (Nat.le_refl _)).mpr filled)
    · next absent =>
        obtain rfl := Option.some.inj served
        exact .absent (Bool.not_eq_true _ ▸ absent)

/-- The relation is what `allocate` computes. -/
theorem allocates_iff {drivers : List Text} : Allocates request drives align drivers p q ↔
    p.allocate request drives align drivers = some q := by
  unfold allocate
  induction drivers generalizing p with
  | nil =>
      constructor
      · rintro ⟨⟩
        rfl
      · intro same
        obtain rfl := Option.some.inj same
        exact .nil
  | cons driver rest ih =>
      rw [List.foldlM_cons]
      constructor
      · rintro (_ | ⟨serves, later⟩)
        rw [serves_iff.mp serves]
        exact ih.mp later
      · intro allocated
        obtain ⟨next, served, later⟩ := Option.bind_eq_some_iff.mp allocated
        exact .cons (serves_iff.mpr served) (ih.mpr later)

/-- The passes end exactly with the plan of `plan`. -/
theorem plans_iff : Plans request drives p ↔ plan request drives = some p := by
  unfold Plans plan
  constructor
  · rintro ⟨first, made, rest⟩
    rw [allocates_iff.mp made]
    exact allocates_iff.mp rest
  · intro planned
    obtain ⟨first, made, rest⟩ := Option.bind_eq_some_iff.mp planned
    exact ⟨first, allocates_iff.mpr made, allocates_iff.mpr rest⟩

/-! ## What they leave -/

/-- No file of the second pass: too few nonces, or too little room. -/
theorem exhausted_of_nonces (least : 64 ≤ request.maxNoncesPerFile)
    (full : p.nonces request 8 driver = 0) :
    p.noncesToGen < 8 ∨ p.freeSpaces driver < 8 * plotSize := by
  have most := maxNoncesPerFile_lt request
  have exact : toInt64 request.maxNoncesPerFile = request.maxNoncesPerFile :=
    toInt64_eq (by omega) (by omega)
  refine or_iff_not_imp_left.mpr fun many => Int.not_le.mp fun ample => ?_
  have room : 8 ≤ (p.freeSpaces driver).tdiv plotSize := by
    rw [Int.tdiv_eq_ediv_of_nonneg (Int.le_trans (by decide) ample)]
    exact (Int.le_ediv_iff_mul_le (by decide)).mpr ample
  unfold nonces at full
  simp only [exact] at full
  generalize (p.freeSpaces driver).tdiv plotSize = space at full room
  omega

/-- The planner ends, whatever the rounds of its loops, and leaves fewer than eight
nonces or no existing driver with room for eight. -/
theorem plan_exhaustive (least : 64 ≤ request.maxNoncesPerFile)
    (small : request.maxNoncesPerFile < 2147483647)
    (readable : ∀ driver ∈ request.drivers, (drives driver).present →
      ∀ entry ∈ (drives driver).entries, request.Readable entry) :
    ∃ p, (∀ q, Plans request drives q ↔ q = p) ∧
      (p.noncesToGen < 8 ∨ ∀ driver ∈ request.drivers, (drives driver).present →
        p.freeSpaces driver < 8 * plotSize) := by
  obtain ⟨p, planned⟩ := Option.isSome_iff_exists.mp (plan_isSome.mpr fun driver listed present =>
    PlanRequest.scan_isSome.mpr (readable driver listed present))
  refine ⟨p, fun q => ?_, ?_⟩
  · rw [plans_iff, planned, Option.some_inj, eq_comm]
  · refine or_iff_not_imp_left.mpr fun many driver listed present => ?_
    have full := plan_full small planned ((plan_visited planned).mpr ⟨listed, present⟩)
    exact (exhausted_of_nonces least full).resolve_left many

end Planner

/-- The plan for two drivers. -/
theorem plan_exhaustive_twoDrivers :
    ∃ p, (∀ q, Planner.Plans twoDrivers twoDrives q ↔ q = p) ∧
      (p.noncesToGen < 8 ∨ ∀ driver ∈ twoDrivers.drivers, (twoDrives driver).present →
        p.freeSpaces driver < 8 * plotSize) :=
  Planner.plan_exhaustive (by decide +kernel) (by decide +kernel) (by decide +kernel)

end HyperPlotter.Plan

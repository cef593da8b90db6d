import HyperPlotter.Plan.Passes

/-!
# No file is planned twice

The files of a driver differ, even where the start nonces wrap around: a pass adds
files to a driver in one go, with less than `2^64` nonces in all, and what the
second pass adds is smaller than every file of the first.
-/

namespace HyperPlotter.Plan

open Foundation Poc Pipeline

namespace Planner

variable {request : PlanRequest} {drives : Text → Drive} {p q : Planner} {align : Nat}
  {driver other : Text}

/-! ## One driver -/

/-- The files of a stretch of nonces from `sn` on, none of them twice. -/
structure Stretch (request : PlanRequest) (sn total align most : Nat) (files : List PlannedFile) :
    Prop where
  distinct : files.Nodup
  starts : ∀ file ∈ files, ∃ ahead < total,
    file.sn % 18446744073709551616 = (sn + ahead) % 18446744073709551616
  sizes : ∀ file ∈ files, 0 < file.nonces ∧ (align : Int) ∣ file.nonces ∧ file.nonces ≤ most

/-- What the `while` loop adds to its driver, and what it leaves. -/
structure Added (request : PlanRequest) (align : Nat) (driver : Text) (p q : Planner)
    (new : List PlannedFile) : Prop where
  files : q.files driver = p.files driver ++ new
  others : ∀ other, other ≠ driver → q.files other = p.files other
  stretch : Stretch request p.snToGen p.noncesToGen align (p.nonces request align driver) new
  smaller : ∀ align, q.nonces request align driver ≤ p.nonces request align driver
  full : new = [] ∨ q.nonces request align driver = 0

/-- The loop may add nothing. -/
theorem Added.none (p : Planner) : Added request align driver p p [] :=
  ⟨(List.append_nil _).symm, fun _ _ => rfl,
    ⟨.nil, List.forall_mem_nil _, List.forall_mem_nil _⟩, fun _ => Nat.le_refl _, .inl rfl⟩

/-- A file in front of a stretch. -/
theorem Stretch.cons {sn total n most : Nat} {files : List PlannedFile}
    (small : total < 18446744073709551616) (fits : n ≤ total) (positive : 0 < n)
    (aligned : align ∣ n) (bound : n ≤ most) (int : n < 2147483647)
    (rest : Stretch request (toUInt64 ((sn : Int) + n)) (total - n) align most files) :
    Stretch request sn total align most (⟨request.plotId, sn, toInt32 n⟩ :: files) := by
  have exact : toInt32 (n : Int) = n := toInt32_eq (by omega) (by omega)
  have ahead : ∀ file ∈ files, ∃ ahead < total, 0 < ahead ∧
      file.sn % 18446744073709551616 = (sn + ahead) % 18446744073709551616 := by
    intro file member
    obtain ⟨ahead, inside, start⟩ := rest.starts file member
    refine ⟨n + ahead, by omega, by omega, ?_⟩
    rw [start]
    unfold toUInt64
    omega
  constructor
  · refine List.nodup_cons.mpr ⟨fun again => ?_, rest.distinct⟩
    obtain ⟨ahead, inside, positive, start⟩ := ahead _ again
    simp only [] at start
    omega
  · refine List.forall_mem_cons.mpr ⟨⟨0, by omega, rfl⟩, fun file member => ?_⟩
    obtain ⟨ahead, inside, _, start⟩ := ahead file member
    exact ⟨ahead, inside, start⟩
  · refine List.forall_mem_cons.mpr ⟨?_, rest.sizes⟩
    simp only [exact]
    exact ⟨by omega, Int.natCast_dvd_natCast.mpr aligned, by omega⟩

/-- A larger bound on the files does as well. -/
theorem Stretch.mono {sn total most larger : Nat} {files : List PlannedFile}
    (stretch : Stretch request sn total align most files) (le : most ≤ larger) :
    Stretch request sn total align larger files where
  distinct := stretch.distinct
  starts := stretch.starts
  sizes file member := by
    obtain ⟨positive, aligned, bound⟩ := stretch.sizes file member
    exact ⟨positive, aligned, by omega⟩

/-- The `while` loop adds a stretch. -/
theorem fill_added (rounds : Nat) (enough : p.noncesToGen ≤ rounds)
    (small : p.noncesToGen < 18446744073709551616)
    (upper : p.freeSpaces driver < 9223372036854775808) :
    ∃ files, Added request align driver p (p.fill request align driver rounds) files := by
  induction rounds generalizing p with
  | zero => exact ⟨[], .none p⟩
  | succ rounds ih =>
      have ended := @fill_ended request p align driver (rounds + 1) enough
      rw [fill] at ended ⊢
      split
      · exact ⟨[], .none p⟩
      · next more =>
          rw [if_neg more] at ended
          simp only [] at ended ⊢
          split
          · exact ⟨[], .none p⟩
          · next proceeds =>
              rw [if_neg proceeds] at ended
              have bound := nonces_bound request align p driver
              generalize size : p.nonces request align driver = n at bound proceeds ended ⊢
              obtain ⟨nonzero, int⟩ := not_or.mp proceeds
              obtain ⟨space, _⟩ := push_freeSpaces nonzero bound upper
              have free : (p.push request driver n).freeSpaces driver =
                  p.freeSpaces driver - n * plotSize := (Function.update_self ..).trans space
              have spent : (0 : Int) ≤ n * plotSize :=
                Int.mul_nonneg (Int.natCast_nonneg _) (Int.natCast_nonneg _)
              have left : (p.push request driver n).noncesToGen = p.noncesToGen - n := rfl
              have fits := bound.left
              have less : ∀ align, (p.push request driver n).nonces request align driver ≤
                  p.nonces request align driver := fun align => nonces_mono (by omega) (by omega)
              have most := size ▸ less align
              obtain ⟨files, added⟩ := @ih (p.push request driver n) (by omega) (by omega)
                (by omega)
              refine ⟨⟨request.plotId, p.snToGen, toInt32 n⟩ :: files, ?_, ?_, ?_, ?_, ?_⟩
              · rw [added.files, files_push, if_pos rfl, List.append_assoc]
                rfl
              · intro other differ
                rw [added.others other differ, files_push, if_neg differ]
              · rw [size]
                exact (added.stretch.mono most).cons small fits (by omega) bound.aligned
                  (Nat.le_refl n) (by omega)
              · exact fun align => (added.smaller align).trans (less align)
              · refine .inr (ended.resolve_right fun large => ?_)
                have := added.smaller align
                omega

/-- A driver without room for a file gets none. -/
theorem fill_of_nonces {rounds : Nat} (full : p.nonces request align driver = 0) :
    p.fill request align driver rounds = p := by
  cases rounds with
  | zero => rfl
  | succ rounds =>
      rw [fill]
      split
      · rfl
      · exact if_pos (.inl full)

/-! ## Both passes -/

/-- What keeps the files of the drivers apart. A driver has none yet, or those of the
first pass and no room for another of it, or no room for any other. -/
structure Distinguished (request : PlanRequest) (p : Planner) : Prop where
  small : p.noncesToGen < 18446744073709551616
  distinct : ∀ driver, (p.files driver).Nodup
  left : ∀ driver, p.files driver = [] ∨
    (∀ file ∈ p.files driver, 64 ≤ file.nonces) ∧ p.nonces request 64 driver = 0 ∨
    p.nonces request 8 driver = 0

/-- Without a file of the first pass, one of the second has less than 64 nonces. -/
theorem nonces_lt_of_full (full : p.nonces request 64 driver = 0) :
    p.nonces request 8 driver < 64 := by
  unfold nonces at full ⊢
  simp only [] at full ⊢
  omega

/-- Without a file of the second pass there is none of the first. -/
theorem nonces_full_of_full (full : p.nonces request 8 driver = 0) :
    p.nonces request 64 driver = 0 := by
  unfold nonces at full ⊢
  simp only [] at full ⊢
  omega

/-- A visit keeps the files apart. -/
theorem Distinguished.visit (distinguished : Distinguished request p)
    (writers : ∀ pair ∈ p.pushed, pair.1 ∈ p.visited)
    (visited : p.visit request drives driver = some q) : Distinguished request q := by
  by_cases old : driver ∈ p.visited
  · rw [Planner.visit, if_pos old] at visited
    obtain rfl := Option.some.inj visited
    exact distinguished
  · have others := (visit_leftBy visited).others
    obtain ⟨scan, _, rfl⟩ := visit_cases old visited
    refine ⟨distinguished.small, distinguished.distinct, fun other => ?_⟩
    by_cases here : other = driver
    · left
      subst here
      refine List.map_eq_nil_iff.mpr (List.filter_eq_nil_iff.mpr fun pair member same => old ?_)
      obtain rfl : pair.1 = other := by simpa using same
      exact writers pair member
    · have same := others other here
      refine (distinguished.left other).imp_right (Or.imp ?_ ?_)
      · rintro ⟨large, full⟩
        exact ⟨large, Nat.le_zero.mp (full ▸ nonces_mono (Nat.le_refl _) same.le)⟩
      · intro full
        exact Nat.le_zero.mp (full ▸ nonces_mono (Nat.le_refl _) same.le)

/-- Filling a driver keeps the files apart. -/
theorem Distinguished.fill (distinguished : Distinguished request p)
    (passes : align = 64 ∨ align = 8) (upper : p.freeSpaces driver < 9223372036854775808) :
    Distinguished request (p.fill request align driver p.noncesToGen) := by
  obtain ⟨new, added⟩ := @fill_added request p align driver p.noncesToGen (Nat.le_refl _)
    distinguished.small upper
  have leaves : LeftBy driver p (p.fill request align driver p.noncesToGen) := fill_leftBy _
  by_cases full : p.nonces request align driver = 0
  · rw [fill_of_nonces full]
    exact distinguished
  · have here : ((p.fill request align driver p.noncesToGen).files driver).Nodup ∧
        ((p.fill request align driver p.noncesToGen).files driver = [] ∨
        (∀ file ∈ (p.fill request align driver p.noncesToGen).files driver, 64 ≤ file.nonces) ∧
          (p.fill request align driver p.noncesToGen).nonces request 64 driver = 0 ∨
        (p.fill request align driver p.noncesToGen).nonces request 8 driver = 0) := by
      rw [added.files]
      rcases distinguished.left driver with none | ⟨large, first⟩ | second
      · rw [none, List.nil_append]
        refine ⟨added.stretch.distinct, added.full.imp_right fun ended => ?_⟩
        rcases passes with rfl | rfl
        · refine .inl ⟨fun file member => ?_, ended⟩
          obtain ⟨positive, aligned, _⟩ := added.stretch.sizes file member
          exact Int.le_of_dvd positive aligned
        · exact .inr ended
      · rcases passes with rfl | rfl
        · exact absurd first full
        · refine ⟨List.nodup_append.mpr
            ⟨distinguished.distinct driver, added.stretch.distinct, ?_⟩, ?_⟩
          · rintro file old other member rfl
            have bound := (added.stretch.sizes file member).2.2
            have small := nonces_lt_of_full first
            have := large file old
            omega
          · rcases added.full with rfl | ended
            · rw [List.append_nil]
              exact .inr (.inl ⟨large, Nat.le_zero.mp (first ▸ added.smaller 64)⟩)
            · exact .inr (.inr ended)
      · rcases passes with rfl | rfl
        · exact absurd (nonces_full_of_full second) full
        · exact absurd second full
    refine ⟨Nat.lt_of_le_of_lt leaves.fewer distinguished.small, fun other => ?_, fun other => ?_⟩
    · by_cases same : other = driver
      · rw [same]
        exact here.1
      · rw [added.others other same]
        exact distinguished.distinct other
    · by_cases same : other = driver
      · rw [same]
        exact here.2
      · rw [added.others other same]
        have room := leaves.others other same
        refine (distinguished.left other).imp_right (Or.imp ?_ ?_)
        · rintro ⟨large, full⟩
          exact ⟨large, Nat.le_zero.mp (full ▸ nonces_mono leaves.fewer room.le)⟩
        · intro full
          exact Nat.le_zero.mp (full ▸ nonces_mono leaves.fewer room.le)

/-- A pass keeps the files apart. -/
theorem allocate_distinguished {drivers : List Text} (passes : align = 64 ∨ align = 8)
    (reached : (machine request drives).Reachable p) (distinguished : Distinguished request p)
    (allocated : p.allocate request drives align drivers = some q) : Distinguished request q := by
  induction drivers generalizing p with
  | nil =>
      obtain rfl : p = q := Option.some.inj allocated
      exact distinguished
  | cons driver rest ih =>
      rw [allocate, List.foldlM_cons] at allocated
      obtain ⟨next, served, later⟩ := Option.bind_eq_some_iff.mp allocated
      refine ih (serve_reachable passes reached served) ?_ later
      unfold serve at served
      split at served
      · next present =>
          obtain ⟨visited, visit, rfl⟩ := Option.map_eq_some_iff.mp served
          have kept := distinguished.visit (reachable_planning reached).writers visit
          refine kept.fill passes ?_
          by_cases old : driver ∈ p.visited
          · rw [Planner.visit, if_pos old] at visit
            obtain rfl := Option.some.inj visit
            exact (reachable_planning reached).small driver old
          · obtain ⟨scan, scanned, rfl⟩ := visit_cases old visit
            show Function.update p.freeSpaces driver scan.free driver < _
            rw [Function.update_self]
            exact scan_free_lt scanned
      · obtain rfl := Option.some.inj served
        exact distinguished

/-- No driver gets a file twice. -/
theorem plan_files_nodup (planned : plan request drives = some p) (driver : Text) :
    (p.files driver).Nodup := by
  obtain ⟨first, made, rest⟩ := Option.bind_eq_some_iff.mp planned
  have start : Distinguished request (start request) :=
    ⟨request.totalNonces_lt, fun _ => .nil, fun _ => .inl rfl⟩
  have between := allocate_distinguished (.inl rfl) (.start rfl) start made
  exact (allocate_distinguished (.inr rfl) (allocate_reachable (.inl rfl) _ (.start rfl) made)
    between rest).distinct driver

end Planner

end HyperPlotter.Plan

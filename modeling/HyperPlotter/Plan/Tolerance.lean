import HyperPlotter.Plan.Overlap

/-!
# Other files in the directories

A regular file without an extension is meant to count only under the exact name
of a plot file. The scan reads such names with `stoull` and `stoll`, which throw
at what they cannot read and ignore what follows a number.
-/

namespace HyperPlotter.Plan

open Foundation Poc Pipeline

/-- The name is `<plot id>_<decimal u64>_<decimal count>`. -/
def ExactName (plotId : Nat) (name : Text) : Prop :=
  ∃ first second third, name = first ++ '_' :: (second ++ '_' :: third) ∧
    IsDecimal first ∧ IsDecimal second ∧ IsDecimal third ∧
    Nat.ofDigitChars 10 first 0 = plotId ∧ Nat.ofDigitChars 10 second 0 < 18446744073709551616

/-- Such a name is made of digits and underscores. -/
theorem ExactName.chars {plotId : Nat} {name : Text} (exact : ExactName plotId name) :
    ∀ c ∈ name, c.isDigit = true ∨ c = '_' := by
  obtain ⟨first, second, third, rfl, one, two, three, -⟩ := exact
  intro c member
  rcases List.mem_append.mp member with inFirst | later
  · exact .inl (one.2 c inFirst)
  rcases List.mem_cons.mp later with rfl | later
  · exact .inr rfl
  rcases List.mem_append.mp later with inSecond | later
  · exact .inl (two.2 c inSecond)
  rcases List.mem_cons.mp later with rfl | inThird
  · exact .inr rfl
  · exact .inl (three.2 c inThird)

/-- A regular file without extension whose name is not that of a plot file. -/
structure Foreign (request : PlanRequest) (entry : DirEntry) : Prop where
  file : entry.directory = false
  plain : ¬entry.hasExtension
  other : ¬ExactName request.plotId entry.name

/-- The planner finishes, and foreign files do not change its plan. -/
structure Tolerates (request : PlanRequest) (drives : Text → Drive) : Prop where
  finishes : (Planner.plan request drives).isSome
  ignores : ∀ driver ∈ request.drivers, (drives driver).present → ∀ before entry after,
    (drives driver).entries = before ++ entry :: after → Foreign request entry →
    let without := { drives driver with entries := before ++ after }
    (request.scan without).map Scan.lastSn = (request.scan (drives driver)).map Scan.lastSn ∧
      Planner.plan request (Function.update drives driver without) = Planner.plan request drives

/-- Every entry of the existing drivers can be read, and no foreign file has the
largest end on its driver. -/
structure Harmless (request : PlanRequest) (drives : Text → Drive) : Prop where
  readable : ∀ driver ∈ request.drivers, (drives driver).present →
    ∀ entry ∈ (drives driver).entries, request.Readable entry
  covered : ∀ driver ∈ request.drivers, (drives driver).present → ∀ before entry after,
    (drives driver).entries = before ++ entry :: after → Foreign request entry →
    request.countedEnd entry = 0 ∨
      ∃ other ∈ before ++ after, request.countedEnd entry ≤ request.countedEnd other

namespace Planner

variable {request : PlanRequest} {drives drives' : Text → Drive} {p q : Planner} {align : Nat}
  {driver : Text}

/-- Drives that look the same to the planner get the same plan. -/
theorem plan_congr (present : ∀ driver, (drives driver).present = (drives' driver).present)
    (scan : ∀ driver, request.scan (drives driver) = request.scan (drives' driver)) :
    plan request drives = plan request drives' := by
  have served : ∀ align, serve request drives align = serve request drives' align := by
    intro align
    funext p driver
    unfold serve visit
    rw [present, scan]
  unfold plan allocate
  simp only [served]

end Planner

/-! ## Without a foreign file -/

section

variable {request : PlanRequest} {drive : Drive} {before after : List DirEntry} {entry : DirEntry}

/-- One file less leaves `last_sn` as it is when another ends as late. -/
private theorem lastSn_without : request.lastSn (before ++ after) =
      request.lastSn (before ++ entry :: after) ↔
    request.countedEnd entry = 0 ∨
      ∃ other ∈ before ++ after, request.countedEnd entry ≤ request.countedEnd other := by
  have whole : request.lastSn (before ++ entry :: after) =
      max (request.countedEnd entry) (request.lastSn (before ++ after)) := by
    refine Nat.le_antisymm (PlanRequest.lastSn_le.mpr fun other member => ?_) (Nat.max_le.mpr ⟨?_, ?_⟩)
    · rcases List.mem_append.mp member with first | second
      · exact Nat.le_trans (request.countedEnd_le (List.mem_append_left _ first)) (Nat.le_max_right ..)
      · rcases List.mem_cons.mp second with rfl | last
        · exact Nat.le_max_left ..
        · exact Nat.le_trans (request.countedEnd_le (List.mem_append_right _ last))
            (Nat.le_max_right ..)
    · exact request.countedEnd_le (by simp)
    · refine PlanRequest.lastSn_le.mpr fun other member => request.countedEnd_le ?_
      rcases List.mem_append.mp member with first | last
      · exact List.mem_append_left _ first
      · exact List.mem_append_right _ (List.mem_cons_of_mem _ last)
  rw [whole]
  constructor
  · intro same
    rcases request.lastSn_cases (before ++ after) with none | ⟨other, member, last⟩
    · exact .inl (by omega)
    · exact .inr ⟨other, member, by omega⟩
  · rintro (nothing | ⟨other, member, upper⟩)
    · omega
    · have := request.countedEnd_le member
      omega

/-- A plain file adds nothing to the free bytes. -/
private theorem credit_without (plain : ¬entry.hasExtension) (drive : Drive)
    (entries : drive.entries = before ++ entry :: after) :
    { drive with entries := before ++ after }.credit = drive.credit := by
  have other : entry.leftover = false := by simp [DirEntry.leftover, plain]
  unfold Drive.credit
  rw [entries, List.find?_append, List.find?_append, List.find?_cons, other]

/-- The scan without a foreign file finds the same when another file ends as late. -/
private theorem scan_without (readable : ∀ other ∈ drive.entries, request.Readable other)
    (entries : drive.entries = before ++ entry :: after) (plain : ¬entry.hasExtension) :
    let without := { drive with entries := before ++ after }
    ((request.scan without).map Scan.lastSn = (request.scan drive).map Scan.lastSn ↔
      request.countedEnd entry = 0 ∨
        ∃ other ∈ before ++ after, request.countedEnd entry ≤ request.countedEnd other) ∧
    ((request.scan without).map Scan.lastSn = (request.scan drive).map Scan.lastSn →
      request.scan without = request.scan drive) := by
  intro without
  have fewer : ∀ other ∈ without.entries, request.Readable other := by
    intro other member
    refine readable other ?_
    rw [entries]
    rcases List.mem_append.mp member with first | last
    · exact List.mem_append_left _ first
    · exact List.mem_append_right _ (List.mem_cons_of_mem _ last)
  have other : entry.leftover = false := by simp [DirEntry.leftover, plain]
  have credit : without.credit = drive.credit := credit_without plain drive entries
  have count : without.entries.countP DirEntry.leftover = drive.entries.countP DirEntry.leftover := by
    show (before ++ after).countP DirEntry.leftover = _
    rw [entries, List.countP_append, List.countP_append, List.countP_cons, other]
    rfl
  rw [PlanRequest.scan_of_readable fewer, PlanRequest.scan_of_readable readable, credit, count,
    entries]
  simp only [Option.map_some, Option.some.injEq, Scan.mk.injEq]
  exact ⟨lastSn_without, fun same => ⟨rfl, trivial, same⟩⟩

end

/-- The planner tolerates what it finds exactly when it is harmless. -/
theorem tolerates_iff (request : PlanRequest) (drives : Text → Drive) :
    Tolerates request drives ↔ Harmless request drives := by
  constructor
  · rintro ⟨finishes, ignores⟩
    have readable : ∀ driver ∈ request.drivers, (drives driver).present →
        ∀ entry ∈ (drives driver).entries, request.Readable entry :=
      fun driver listed present =>
        PlanRequest.scan_isSome.mp (Planner.plan_isSome.mp finishes driver listed present)
    refine ⟨readable, fun driver listed present before entry after entries foreign => ?_⟩
    exact (scan_without (readable driver listed present) entries foreign.plain).1.mp
      (ignores driver listed present before entry after entries foreign).1
  · rintro ⟨readable, covered⟩
    constructor
    · exact Planner.plan_isSome.mpr fun driver listed present =>
        PlanRequest.scan_isSome.mpr (readable driver listed present)
    · intro driver listed present before entry after entries foreign without
      obtain ⟨same, scans⟩ := scan_without (readable driver listed present) entries foreign.plain
      have lasts := same.mpr (covered driver listed present before entry after entries foreign)
      refine ⟨lasts, Planner.plan_congr (fun other => ?_) fun other => ?_⟩
      · by_cases here : other = driver
        · subst here
          rw [Function.update_self]
        · rw [Function.update_of_ne here]
      · by_cases here : other = driver
        · subst here
          rw [Function.update_self]
          exact scans lasts
        · rw [Function.update_of_ne here]

/-- A name that is no number ends the run, and one with something after its last
number moves the nonces on. -/
theorem not_tolerates :
    ¬Tolerates (oneDriver 0 (by decide)) (besides "a_b_c".toList) ∧
      ¬Tolerates (oneDriver 0 (by decide)) (besides "1_64_8x".toList) := by
  constructor
  · intro tolerates
    have finishes := tolerates.finishes
    revert finishes
    decide
  · intro tolerates
    have foreign : Foreign (oneDriver 0 (by decide)) ⟨"1_64_8x".toList, false, 0⟩ := by
      refine ⟨rfl, by decide, fun exact => ?_⟩
      rcases exact.chars 'x' (by decide) with digit | underscore
      · exact absurd digit (by decide)
      · exact absurd underscore (by decide)
    have ignored := (tolerates.ignores "a".toList (by decide) rfl [] _ [] rfl foreign).1
    revert ignored
    decide

end HyperPlotter.Plan

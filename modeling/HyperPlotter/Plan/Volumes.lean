import Mathlib.Algebra.BigOperators.Ring.List
import Mathlib.Algebra.Order.BigOperators.Group.List
import Mathlib.Algebra.Order.Group.Int
import Mathlib.Data.Finset.Card
import HyperPlotter.Plan.Passes

/-!
# Drivers and their volumes

The planner keeps a budget for each driver: the free bytes of its volume and the
size of the first file with an extension in its directory. The budgets are those
of the volumes when no two drivers share one and there is no such file.
-/

namespace HyperPlotter.Plan

open Foundation Poc Pipeline

/-- The drivers of the command line, where they are, and their directories. Sizes
of files are `int64_t`, and there are fewer than `2^64` files. -/
structure Disks (V : Type) where
  drivers : List Text
  present : Text → Bool
  volume : Text → V
  entries : Text → List DirEntry
  sized : ∀ driver, ∀ entry ∈ entries driver, entry.size < 9223372036854775808
  few : (drivers.flatMap entries).length < 18446744073709551616

/-- The name of the `.plotting` file of a planned file. -/
def plottingName (file : PlannedFile) : Text :=
  plotName file.pid file.sn file.nonces.toNat ++ ".plotting".toList

namespace Disks

variable {V : Type} (disks : Disks V)

/-- The drives with the free bytes of their volumes. -/
def drives (free : V → Nat) (driver : Text) : Drive :=
  ⟨disks.present driver, free (disks.volume driver), disks.entries driver⟩

/-- The bytes of the `.plotting` file of a planned file, if it exists. -/
def existing (driver : Text) (file : PlannedFile) : Nat :=
  (((disks.entries driver).find? fun entry =>
    !entry.directory && entry.name = plottingName file).map DirEntry.size).getD 0

/-- The bytes a plan newly occupies on a volume. -/
def newBytes [DecidableEq V] (p : Planner) (volume : V) : Int :=
  ((p.pushed.filter fun pair => disks.volume pair.1 = volume).map fun pair =>
    (pair.2.nonces * plotSize - disks.existing pair.1 pair.2 : Int)).sum

/-- Whatever is to be plotted and whatever is free, no plan occupies more than that. -/
def NeverOvercommits [DecidableEq V] : Prop :=
  ∀ request : PlanRequest, request.drivers = disks.drivers → ∀ free : V → Nat, ∀ p,
    Planner.plan request (disks.drives free) = some p →
    ∀ volume, disks.newBytes p volume ≤ free volume

/-- Every existing driver is alone on its volume and gets no bytes for a file. -/
structure Separate : Prop where
  apart : ∀ driver ∈ disks.drivers, ∀ other ∈ disks.drivers, disks.present driver →
    disks.present other → disks.volume driver = disks.volume other → driver = other
  uncredited : ∀ driver ∈ disks.drivers, disks.present driver →
    ∀ free, (disks.drives free driver).credit = 0

/-- On an existing driver there is a file with a name in three pieces of which the
first is no number. -/
def Unscannable : Prop := ∃ driver ∈ disks.drivers, disks.present driver ∧
  ∃ entry ∈ disks.entries driver, entry.directory = false ∧ ¬entry.hasExtension ∧
    ∃ first second third, split entry.name '_' = [first, second, third] ∧ stoull first = none

variable {disks} {request : PlanRequest} {free : V → Nat} {p : Planner}

/-! ## Separate drivers -/

/-- What a driver's files occupy anew. -/
private theorem newBytes_le [DecidableEq V] (driver : Text)
    (alone : ∀ pair ∈ p.pushed, disks.volume pair.1 = disks.volume driver → pair.1 = driver) :
    disks.newBytes p (disks.volume driver) ≤ filesBytes (p.files driver) := by
  have same : (p.pushed.filter fun pair => disks.volume pair.1 = disks.volume driver) =
      p.pushed.filter (·.1 = driver) := by
    refine List.filter_congr fun pair member => ?_
    have iff : disks.volume pair.1 = disks.volume driver ↔ pair.1 = driver :=
      ⟨alone pair member, fun here => by rw [here]⟩
    simp only [iff]
  unfold newBytes filesBytes Planner.files
  rw [same, List.map_map]
  refine List.sum_le_sum fun pair _ => ?_
  show (pair.2.nonces * plotSize - disks.existing pair.1 pair.2 : Int) ≤ pair.2.nonces * plotSize
  omega

/-- What the scan of a driver found when there is a plan. -/
private theorem scan_planned (planned : Planner.plan request (disks.drives free) = some p)
    {driver : Text} (listed : driver ∈ request.drivers) (present : disks.present driver) :
    request.scan (disks.drives free driver) = some
      { free := toInt64 (free (disks.volume driver) + (disks.drives free driver).credit)
        plottingFiles := (disks.entries driver).countP DirEntry.leftover
        lastSn := request.lastSn (disks.entries driver) } := by
  have went := Planner.plan_isSome.mp (Option.isSome_of_eq_some planned) driver listed present
  exact PlanRequest.scan_of_readable (PlanRequest.scan_isSome.mp went)

/-- With separate drivers no volume is overcommitted. -/
private theorem Separate.neverOvercommits [DecidableEq V] (separate : disks.Separate) :
    disks.NeverOvercommits := by
  intro request listed free p planned volume
  have planning := Planner.reachable_planning (Planner.plan_reachable planned)
  have visited : ∀ pair ∈ p.pushed, pair.1 ∈ disks.drivers ∧ disks.present pair.1 := by
    intro pair member
    rw [← listed]
    exact (Planner.plan_visited planned).mp (planning.writers pair member)
  by_cases used : ∃ pair ∈ p.pushed, disks.volume pair.1 = volume
  · obtain ⟨pair, member, rfl⟩ := used
    obtain ⟨here, present⟩ := visited pair member
    have within : disks.newBytes p (disks.volume pair.1) ≤ filesBytes (p.files pair.1) :=
      newBytes_le pair.1 fun other there same => separate.apart other.1 (visited other there).1
        pair.1 here (visited other there).2 present same
    obtain ⟨room, kept⟩ := planning.spaces pair.1 (planning.writers pair member) _
      (scan_planned planned (listed ▸ here) present)
    rw [separate.uncredited pair.1 here present free] at room
    have some_files : p.files pair.1 ≠ [] := by
      refine List.ne_nil_of_mem (List.mem_map_of_mem (a := pair) (List.mem_filter.mpr ⟨member, ?_⟩))
      simp
    have enough := kept some_files
    have exact := toInt64_le (free (disks.volume pair.1))
    simp only [Int.natCast_zero, Int.add_zero] at room
    omega
  · have none : (p.pushed.filter fun pair => disks.volume pair.1 = volume) = [] := by
      rw [List.filter_eq_nil_iff]
      intro pair member same
      exact used ⟨pair, member, by simpa using same⟩
    unfold newBytes
    rw [none]
    exact Int.natCast_nonneg _

/-! ## A request that overcommits -/

/-- The number a name in pieces starts with. -/
private def leading (entry : DirEntry) : Option Nat :=
  (split entry.name '_').head?.bind stoull

/-- There is a plot id no name starts with. -/
private theorem exists_fresh (disks : Disks V) : ∃ plotId < 18446744073709551616,
    ∀ driver ∈ disks.drivers, ∀ entry ∈ disks.entries driver, leading entry ≠ some plotId := by
  have fewer : ((disks.drivers.flatMap disks.entries).filterMap leading).toFinset.card <
      (Finset.range 18446744073709551616).card := by
    rw [Finset.card_range]
    exact Nat.lt_of_le_of_lt (List.toFinset_card_le _)
      (Nat.lt_of_le_of_lt (List.length_filterMap_le ..) disks.few)
  obtain ⟨plotId, small, fresh⟩ := Finset.exists_mem_notMem_of_card_lt_card fewer
  refine ⟨plotId, Finset.mem_range.mp small, fun driver listed entry member same => fresh ?_⟩
  rw [List.mem_toFinset, List.mem_filterMap]
  exact ⟨entry, List.mem_flatMap.mpr ⟨driver, listed, member⟩, same⟩

/-- A request for a few nonces in files of at most 64. -/
private def probe (disks : Disks V) {plotId total : Nat} (fits : plotId < 18446744073709551616)
    (few : total < 18446744073709551616) : PlanRequest where
  plotId := plotId
  startNonce := 0
  totalNonces := total
  weight := 16
  drivers := disks.drivers
  plotId_lt := fits
  startNonce_lt := twoDrivers.startNonce_lt
  totalNonces_lt := few

section Probe

variable {plotId total : Nat} {fits : plotId < 18446744073709551616}
  {few : total < 18446744073709551616}

/-- All of the probe is planned, unless every driver with room for eight nonces
gets a file. -/
private theorem probe_served {k : Nat} (rounds : total = 8 * k)
    (planned : Planner.plan (disks.probe fits few) (disks.drives free) = some p)
    {driver : Text} (listed : driver ∈ disks.drivers) (present : disks.present driver)
    (room : 2097152 ≤ toInt64 (free (disks.volume driver) + (disks.drives free driver).credit)) :
    (p.pushed.map fun pair => pair.2.nonces).sum = total ∨ ∃ pair ∈ p.pushed, pair.1 = driver := by
  have planning := Planner.reachable_planning (Planner.plan_reachable planned)
  by_cases none : ∃ pair ∈ p.pushed, pair.1 = driver
  · exact .inr none
  left
  have visited := (Planner.plan_visited planned).mpr ⟨listed, present⟩
  have nothing : p.files driver = [] := by
    unfold Planner.files
    rw [List.map_eq_nil_iff, List.filter_eq_nil_iff]
    intro pair member same
    exact none ⟨pair, member, by simpa using same⟩
  have left := (planning.spaces driver visited _ (scan_planned planned listed present)).1
  rw [nothing] at left
  have most : (disks.probe fits few).maxNoncesPerFile = 64 := by
    show toUInt64 (16 * 1024 * 1024) / plotSize / 64 * 64 = 64
    decide
  have full := Planner.plan_full (by rw [most]; decide) planned visited
  have aligned : (8 : Int) ∣ (p.pushed.map fun pair => pair.2.nonces).sum := by
    refine List.dvd_sum fun n member => ?_
    obtain ⟨pair, here, rfl⟩ := List.mem_map.mp member
    exact (planning.sizes pair here).aligned
  have all := planning.total
  have size : plotSize = 262144 := rfl
  have bytes : filesBytes [] = 0 := rfl
  have exact : toInt64 ((64 : Nat) : Int) = 64 := rfl
  have wanted : (disks.probe fits few).totalNonces = total := rfl
  simp only [bytes, Int.sub_zero] at left
  unfold Planner.nonces at full
  simp only [most, exact, left, size] at full
  generalize toInt64 (free (disks.volume driver) + (disks.drives free driver).credit) = budget
    at room full
  rw [Int.tdiv_eq_ediv_of_nonneg (by omega)] at full
  rw [wanted] at all
  omega

variable (fresh : ∀ driver ∈ disks.drivers, ∀ entry ∈ disks.entries driver,
  leading entry ≠ some plotId)

include fresh

variable (fits few) in
/-- A fresh plot id is planned for. -/
private theorem probe_planned (scannable : ¬disks.Unscannable) (free : V → Nat) :
    ∃ p, Planner.plan (disks.probe fits few) (disks.drives free) = some p := by
  refine Option.isSome_iff_exists.mp (Planner.plan_isSome.mpr fun driver listed present => ?_)
  refine PlanRequest.scan_isSome.mpr fun entry member => ?_
  by_cases directory : entry.directory
  · exact .inl directory
  by_cases extension : entry.hasExtension
  · exact .inr (.inl extension)
  refine .inr (.inr ?_)
  unfold PlanRequest.plotEnd
  split
  · rename_i first second third pieces
    have other := fresh driver listed entry member
    unfold leading at other
    rw [pieces, List.head?_cons, Option.bind_some] at other
    cases read : stoull first with
    | none =>
        exact absurd ⟨driver, listed, present, entry, member, by simpa using directory, extension,
          first, second, third, pieces, read⟩ scannable
    | some number =>
        rw [read] at other
        have differ : number ≠ plotId := fun same => other (congrArg some same)
        simp [probe, differ]
  · rfl

/-- No file of it exists. -/
private theorem probe_existing
    (planned : Planner.plan (disks.probe fits few) (disks.drives free) = some p)
    {pair : Text × PlannedFile} (member : pair ∈ p.pushed) :
    disks.existing pair.1 pair.2 = 0 := by
  have reached := Planner.plan_reachable planned
  have listed := (Planner.plan_visited planned).mp
    ((Planner.reachable_planning reached).writers pair member)
  have pid : pair.2.pid = plotId := Planner.reachable_pid reached pair member
  unfold existing
  rw [List.find?_eq_none.mpr, Option.map_none, Option.getD_none]
  intro entry here same
  obtain ⟨_, name⟩ : entry.directory = false ∧ entry.name = plottingName pair.2 := by
    simpa using same
  refine fresh pair.1 listed.1 entry here ?_
  have number : ∀ n, '_' ∉ decimal n := fun n inside =>
    absurd (isDigit_of_mem_decimal inside) (by decide)
  have pieces : split entry.name '_' = [decimal pair.2.pid, decimal pair.2.sn,
      decimal pair.2.nonces.toNat ++ ".plotting".toList] := by
    rw [name]
    unfold plottingName plotName
    rw [List.append_assoc, List.cons_append, List.append_assoc, List.cons_append]
    refine split_three (number _) (number _) ?_ (by simp [decimal_ne_nil])
    rw [List.mem_append, not_or]
    exact ⟨number _, by decide⟩
  unfold leading
  rw [pieces, List.head?_cons, Option.bind_some, pid, stoull_decimal fits]

/-- Every file of it is new. -/
private theorem probe_newBytes [DecidableEq V]
    (planned : Planner.plan (disks.probe fits few) (disks.drives free) = some p) (volume : V) :
    disks.newBytes p volume = ((p.pushed.filter fun pair => disks.volume pair.1 = volume).map
      fun pair => (pair.2.nonces * plotSize : Int)).sum := by
  unfold newBytes
  refine congrArg List.sum (List.map_congr_left fun pair member => ?_)
  rw [probe_existing fresh planned (List.mem_filter.mp member).1, Int.natCast_zero, Int.sub_zero]

/-- A file of it takes eight nonces at least. -/
private theorem probe_occupies [DecidableEq V]
    (planned : Planner.plan (disks.probe fits few) (disks.drives free) = some p)
    {pair : Text × PlannedFile} (member : pair ∈ p.pushed) :
    2097152 ≤ disks.newBytes p (disks.volume pair.1) := by
  have planning := Planner.reachable_planning (Planner.plan_reachable planned)
  have bytes : ∀ other ∈ p.pushed, (2097152 : Int) ≤ other.2.nonces * plotSize := by
    intro other there
    have sizes := planning.sizes other there
    have positive := sizes.positive
    have aligned := sizes.aligned
    have size : plotSize = 262144 := rfl
    rw [size]
    omega
  rw [probe_newBytes fresh planned]
  refine Int.le_trans (bytes pair member) (List.single_le_sum ?_ _ ?_)
  · intro n inside
    obtain ⟨other, there, rfl⟩ := List.mem_map.mp inside
    have := bytes other (List.mem_filter.mp there).1
    omega
  · exact List.mem_map_of_mem (f := fun pair : Text × PlannedFile =>
      (pair.2.nonces * plotSize : Int)) (List.mem_filter.mpr ⟨member, by simp⟩)

end Probe

/-- A driver that gets bytes for a file is overcommitted. -/
private theorem NeverOvercommits.uncredited [DecidableEq V] (never : disks.NeverOvercommits)
    (scannable : ¬disks.Unscannable) {driver : Text} (listed : driver ∈ disks.drivers)
    (present : disks.present driver) (free : V → Nat) : (disks.drives free driver).credit = 0 := by
  by_contra credited
  generalize extra : (disks.drives free driver).credit = credit at credited
  have small : credit < 9223372036854775808 := by
    rw [← extra]
    unfold Drive.credit
    cases found : (disks.drives free driver).entries.find? DirEntry.leftover with
    | none => decide
    | some entry => exact disks.sized driver entry (List.mem_of_find?_eq_some found)
  -- The credit is what the volume lacks for eight nonces.
  let lacking (volume : V) : Nat :=
    if volume = disks.volume driver then 2097152 - min credit 2097152 else 0
  obtain ⟨plotId, fits, fresh⟩ := exists_fresh disks
  obtain ⟨p, planned⟩ := probe_planned fits (show 8 < _ by decide) fresh scannable lacking
  have room : 2097152 ≤ toInt64 (lacking (disks.volume driver) +
      (disks.drives lacking driver).credit) := by
    have same : (disks.drives lacking driver).credit = credit := extra
    rw [same]
    simp only [lacking, if_true, toInt64]
    omega
  obtain ⟨pair, member⟩ : ∃ pair, pair ∈ p.pushed := by
    rcases probe_served (k := 1) rfl planned listed present room with all | ⟨pair, member, _⟩
    · refine List.exists_mem_of_ne_nil _ fun none => ?_
      rw [none] at all
      cases all
    · exact ⟨pair, member⟩
  have within := never (disks.probe fits _) rfl lacking p planned (disks.volume pair.1)
  have occupied := probe_occupies fresh planned member
  simp only [lacking] at within
  split at within <;> omega

/-- Two drivers on one volume overcommit it. -/
private theorem NeverOvercommits.apart [DecidableEq V] (never : disks.NeverOvercommits)
    (scannable : ¬disks.Unscannable) {driver other : Text} (listed : driver ∈ disks.drivers)
    (also : other ∈ disks.drivers) (present : disks.present driver) (presentToo : disks.present other)
    (same : disks.volume driver = disks.volume other) : driver = other := by
  by_contra differ
  let single (volume : V) : Nat := if volume = disks.volume driver then 2097152 else 0
  obtain ⟨plotId, fits, fresh⟩ := exists_fresh disks
  obtain ⟨p, planned⟩ := probe_planned fits (show 16 < _ by decide) fresh scannable single
  have planning := Planner.reachable_planning (Planner.plan_reachable planned)
  have room : ∀ place ∈ disks.drivers, disks.present place → disks.volume place =
      disks.volume driver → 2097152 ≤ toInt64 (single (disks.volume place) +
        (disks.drives single place).credit) := by
    intro place here there on
    rw [never.uncredited scannable here there, on]
    simp only [single, if_true]
    decide
  have all : 16 ≤ (p.pushed.map fun pair => pair.2.nonces).sum := by
    rcases probe_served (k := 2) rfl planned listed present (room _ listed present rfl) with
      total | ⟨first, here, rfl⟩
    · omega
    rcases probe_served (k := 2) rfl planned also presentToo (room _ also presentToo same.symm) with
      total | ⟨second, there, rfl⟩
    · omega
    have sizes : ∀ pair ∈ p.pushed, 8 ≤ pair.2.nonces := by
      intro pair member
      have positive := (planning.sizes pair member).positive
      have aligned := (planning.sizes pair member).aligned
      omega
    have another : second ∈ p.pushed.erase first :=
      (List.mem_erase_of_ne fun same => differ (by rw [same])).mpr there
    have rest : second.2.nonces ≤ ((p.pushed.erase first).map fun pair => pair.2.nonces).sum := by
      refine List.single_le_sum ?_ _ (List.mem_map_of_mem (f := fun pair : Text × PlannedFile =>
        pair.2.nonces) another)
      intro n inside
      obtain ⟨pair, member, rfl⟩ := List.mem_map.mp inside
      have := sizes pair (List.mem_of_mem_erase member)
      omega
    rw [((List.perm_cons_erase here).map _).sum_eq, List.map_cons, List.sum_cons]
    have := sizes first here
    have := sizes second there
    omega
  have within := never (disks.probe fits _) rfl single p planned (disks.volume driver)
  have everywhere : (p.pushed.filter fun pair => disks.volume pair.1 = disks.volume driver) =
      p.pushed := by
    rw [List.filter_eq_self]
    intro pair member
    by_contra elsewhere
    have occupied := probe_occupies fresh planned member
    have limit := never (disks.probe fits _) rfl single p planned (disks.volume pair.1)
    simp only [single] at limit
    rw [if_neg (by simpa using elsewhere)] at limit
    omega
  have sum : ((p.pushed.map fun pair => (pair.2.nonces * plotSize : Int))).sum =
      (p.pushed.map fun pair => pair.2.nonces).sum * plotSize := by
    rw [List.sum_map_mul_right]
  rw [probe_newBytes fresh planned, everywhere, sum] at within
  have size : plotSize = 262144 := rfl
  simp only [single, if_true, size] at within
  omega

/-! ## Every request -/

/-- A name the scan throws at ends the planner. -/
private theorem Unscannable.no_plan (unscannable : disks.Unscannable)
    (listed : request.drivers = disks.drivers) :
    Planner.plan request (disks.drives free) = none := by
  obtain ⟨driver, member, present, entry, inside, file, plain, first, second, third, pieces,
    unread⟩ := unscannable
  rw [← Option.not_isSome_iff_eq_none]
  intro went
  have readable := PlanRequest.scan_isSome.mp
    (Planner.plan_isSome.mp went driver (listed ▸ member) present) entry inside
  have ended : request.plotEnd entry.name = none := by
    unfold PlanRequest.plotEnd
    rw [pieces]
    simp [unread]
  rcases readable with directory | extension | read
  · rw [file] at directory
    cases directory
  · exact plain extension
  · rw [ended] at read
    cases read

/-- Volumes are never overcommitted exactly when every existing driver is alone on
its volume and gets no bytes for a file, or the planner never finishes. -/
theorem neverOvercommits_iff [DecidableEq V] (disks : Disks V) :
    disks.NeverOvercommits ↔ disks.Unscannable ∨ disks.Separate := by
  constructor
  · intro never
    by_cases unscannable : disks.Unscannable
    · exact .inl unscannable
    refine .inr ⟨?_, ?_⟩
    · intro driver listed other also present there same
      exact never.apart unscannable listed also present there same
    · intro driver listed present free
      exact never.uncredited unscannable listed present free
  · rintro (unscannable | separate)
    · intro request listed free p planned
      rw [unscannable.no_plan listed] at planned
      cases planned
    · exact separate.neverOvercommits

end Disks

/-- Two empty directories on one volume. -/
def sharedVolume : Disks Unit where
  drivers := ["a".toList, "b".toList]
  present _ := true
  volume _ := ()
  entries _ := []
  sized _ := List.forall_mem_nil _
  few := by decide

/-- A driver with a file of another program. -/
def foreignFile : Disks Unit where
  drivers := ["a".toList]
  present _ := true
  volume _ := ()
  entries _ := [⟨"notes.txt".toList, false, 16777216⟩]
  sized _ := by simp
  few := by decide

/-- With 16 MiB free, two files of 16 MiB each are planned on the shared volume; with
nothing free, one is planned beside the foreign file. -/
theorem not_neverOvercommits :
    (∃ p, Planner.plan twoDrivers (sharedVolume.drives fun _ => 16777216) = some p ∧
      ¬sharedVolume.newBytes p () ≤ 16777216) ∧
    ¬sharedVolume.NeverOvercommits ∧ ¬foreignFile.NeverOvercommits := by
  have shared : ∃ p, Planner.plan twoDrivers (sharedVolume.drives fun _ => 16777216) = some p ∧
      ¬sharedVolume.newBytes p () ≤ 16777216 := ⟨_, rfl, by decide⟩
  refine ⟨shared, fun never => ?_, fun never => ?_⟩
  · obtain ⟨p, planned, exceeds⟩ := shared
    exact exceeds (never twoDrivers rfl _ p planned ())
  · have exceeds : ∃ p, Planner.plan { twoDrivers with drivers := ["a".toList] }
        (foreignFile.drives fun _ => 0) = some p ∧ ¬foreignFile.newBytes p () ≤ 0 :=
      ⟨_, rfl, by decide⟩
    obtain ⟨p, planned, more⟩ := exceeds
    exact more (never _ rfl _ p planned ())

end HyperPlotter.Plan

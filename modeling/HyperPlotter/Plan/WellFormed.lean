import Mathlib.Algebra.BigOperators.Group.List.Basic
import HyperPlotter.Foundation.Ranges
import HyperPlotter.Plan.Planner

/-!
# Plans are well formed

The planner as a machine whose events are the first visit of a driver and the
push of a file. Whatever the order of its events, the files it pushes are
disjoint and fit on their drivers.
-/

namespace HyperPlotter.Plan

open Foundation Poc Pipeline

/-- What the planner does: visit a driver for the first time, or push a file in a
pass of the given alignment. -/
inductive PlanEvent where
  | visit (driver : Text)
  | push (align : Nat) (driver : Text)

namespace Planner

variable (request : PlanRequest) (drives : Text → Drive)

/-- The effect of an event. -/
def step (p : Planner) : PlanEvent → Option Planner
  | .visit driver =>
    if (drives driver).present ∧ driver ∉ p.visited then p.visit request drives driver else none
  | .push align driver =>
    if (align = 64 ∨ align = 8) ∧ driver ∈ p.visited ∧ p.nonces request align driver ≠ 0 ∧
        p.nonces request align driver < 2147483647 then
      some (p.push request driver (p.nonces request align driver))
    else none

/-- The machine of a planner. -/
def machine : Machine Planner PlanEvent where
  Start p := p = start request
  step := step request drives

variable {request drives} {p q : Planner} {align : Nat} {driver : Text}

/-- A visit makes a writer and takes over what the scan found. -/
theorem visit_cases (new : driver ∉ p.visited) (visited : p.visit request drives driver = some q) :
    ∃ scan, request.scan (drives driver) = some scan ∧ q = { p with
      visited := p.visited ++ [driver]
      freeSpaces := Function.update p.freeSpaces driver scan.free
      snToGen := max p.snToGen scan.lastSn } := by
  unfold visit at visited
  rw [if_neg new, Option.map_eq_some_iff] at visited
  obtain ⟨scan, scanned, rfl⟩ := visited
  exact ⟨scan, scanned, rfl⟩

/-- The `while` loop pushes files. -/
theorem fill_reachable (passes : align = 64 ∨ align = 8) (rounds : Nat)
    (reached : (machine request drives).Reachable p) (visited : driver ∈ p.visited) :
    (machine request drives).Reachable (p.fill request align driver rounds) := by
  induction rounds generalizing p with
  | zero => exact reached
  | succ rounds ih =>
      rw [fill]
      split
      · exact reached
      · simp only []
        split
        · exact reached
        · rename_i proceeds
          have pushed : (machine request drives).step p (.push align driver) =
              some (p.push request driver (p.nonces request align driver)) :=
            if_pos ⟨passes, visited, by omega, by omega⟩
          exact ih (.step reached trivial pushed) visited

/-- Serving a driver takes steps of the machine. -/
theorem serve_reachable (passes : align = 64 ∨ align = 8)
    (reached : (machine request drives).Reachable p)
    (served : p.serve request drives align driver = some q) :
    (machine request drives).Reachable q := by
  unfold serve at served
  split at served
  · rename_i present
    obtain ⟨visited, made, rfl⟩ := Option.map_eq_some_iff.mp served
    by_cases old : driver ∈ p.visited
    · rw [visit, if_pos old] at made
      obtain rfl := Option.some.inj made
      exact fill_reachable passes _ reached old
    · have moved : (machine request drives).step p (.visit driver) = some visited :=
        (if_pos ⟨present, old⟩).trans made
      refine fill_reachable passes _ (.step reached trivial moved) ?_
      obtain ⟨_, _, rfl⟩ := visit_cases old made
      exact List.mem_append_right _ (List.mem_singleton_self _)
  · obtain rfl := Option.some.inj served
    exact reached

/-- So does a pass. -/
theorem allocate_reachable (passes : align = 64 ∨ align = 8) (drivers : List Text)
    (reached : (machine request drives).Reachable p)
    (allocated : p.allocate request drives align drivers = some q) :
    (machine request drives).Reachable q := by
  induction drivers generalizing p with
  | nil =>
      obtain rfl : p = q := Option.some.inj allocated
      exact reached
  | cons driver rest ih =>
      rw [allocate, List.foldlM_cons] at allocated
      obtain ⟨next, served, later⟩ := Option.bind_eq_some_iff.mp allocated
      exact ih (serve_reachable passes reached served) later

/-- The planner makes its plan by visits and pushes. -/
theorem plan_reachable (planned : plan request drives = some p) :
    (machine request drives).Reachable p := by
  obtain ⟨first, made, rest⟩ := Option.bind_eq_some_iff.mp planned
  exact allocate_reachable (.inr rfl) _
    (allocate_reachable (.inl rfl) _ (.start rfl) made) rest

/-! ## One push -/

/-- `max_nonces_per_file` fits in an `int64_t`. -/
theorem maxNoncesPerFile_lt (request : PlanRequest) : request.maxNoncesPerFile < 70368744177664 := by
  have weight := toUInt64_lt (request.weight * 1024 * 1024)
  have size : plotSize = 262144 := rfl
  unfold PlanRequest.maxNoncesPerFile PlanRequest.maxWeightPerFile
  rw [size]
  omega

/-- What bounds the next file. -/
structure NoncesBound (request : PlanRequest) (align : Nat) (p : Planner) (driver : Text)
    (n : Nat) : Prop where
  left : n ≤ p.noncesToGen
  most : n ≤ request.maxNoncesPerFile
  aligned : align ∣ n
  fits : n ≠ 0 → (n * plotSize : Nat) ≤ p.freeSpaces driver

/-- How many nonces the next file may have. -/
theorem nonces_bound (request : PlanRequest) (align : Nat) (p : Planner) (driver : Text) :
    NoncesBound request align p driver (p.nonces request align driver) := by
  have most := maxNoncesPerFile_lt request
  have exact : toInt64 request.maxNoncesPerFile = request.maxNoncesPerFile :=
    toInt64_eq (by omega) (by omega)
  have size : plotSize = 262144 := rfl
  have truncated : ∀ n : Nat, 0 < n → n ≤ (p.freeSpaces driver).tdiv plotSize →
      (n * plotSize : Nat) ≤ p.freeSpaces driver := by
    intro n positive below
    have floor := toNat_tdiv (p.freeSpaces driver) (show 0 < plotSize by decide)
    rw [size] at below floor ⊢
    omega
  unfold nonces
  simp only [exact]
  generalize (p.freeSpaces driver).tdiv plotSize = room at truncated
  have floor := Nat.div_mul_le_self
    (min p.noncesToGen (max 0 (min (request.maxNoncesPerFile : Int) room)).toNat) align
  refine ⟨by omega, by omega, Nat.dvd_mul_left _ _, fun nonzero => truncated _ (by omega) (by omega)⟩

/-- What `free_spaces` loses by a push is exact. -/
theorem push_freeSpaces {n : Nat} (nonzero : n ≠ 0) (bound : NoncesBound request align p driver n)
    (upper : p.freeSpaces driver < 9223372036854775808) :
    toInt64 (p.freeSpaces driver - n * plotSize) = p.freeSpaces driver - n * plotSize ∧
      0 ≤ p.freeSpaces driver - n * plotSize := by
  have fits := bound.fits nonzero
  have product : (n * plotSize : Nat) = (n : Int) * plotSize := Int.natCast_mul ..
  rw [← product]
  exact ⟨toInt64_eq (by omega) (by omega), by omega⟩

end Planner

/-! ## Every plan -/

/-- The nonces of a planned file. -/
def fileRange (file : PlannedFile) : Range := ⟨file.sn, file.nonces.toNat⟩

/-- The bytes of some files. -/
def filesBytes (files : List PlannedFile) : Int := (files.map fun file => (file.nonces * plotSize : Int)).sum

/-- The sums of the start nonces and sizes fit in a `uint64_t`. -/
def Planner.Unwrapped (p : Planner) : Prop :=
  ∀ pair ∈ p.pushed, pair.2.sn + pair.2.nonces < 18446744073709551616

/-- What a planned file may look like. -/
structure WellSized (request : PlanRequest) (file : PlannedFile) : Prop where
  positive : 0 < file.nonces
  aligned : 8 ∣ file.nonces
  most : file.nonces ≤ request.maxNoncesPerFile
  small : file.nonces < 2147483647

/-- A plan: disjoint files of the right sizes that fit on their drivers. -/
structure WellFormed (request : PlanRequest) (drives : Text → Drive) (p : Planner) : Prop where
  disjoint : (p.pushed.map fun pair => fileRange pair.2).Pairwise Range.Apart
  sizes : ∀ pair ∈ p.pushed, WellSized request pair.2
  total : (p.pushed.map fun pair => pair.2.nonces).sum = request.totalNonces - p.noncesToGen
  writers : ∀ pair ∈ p.pushed, pair.1 ∈ p.visited
  spaces : ∀ driver ∈ p.visited, ∀ scan, request.scan (drives driver) = some scan →
    0 ≤ scan.free → 0 ≤ p.freeSpaces driver
  within : ∀ driver ∈ p.visited, ∀ scan, request.scan (drives driver) = some scan →
    p.files driver ≠ [] → filesBytes (p.files driver) ≤ scan.free

namespace Planner

variable {request : PlanRequest} {drives : Text → Drive} {p q : Planner}

/-- What the planner keeps. -/
structure Planning (request : PlanRequest) (drives : Text → Drive) (p : Planner) :
    Prop where
  laid : p.Unwrapped → Laid (p.pushed.map fun pair => fileRange pair.2) p.snToGen
  sizes : ∀ pair ∈ p.pushed, WellSized request pair.2
  total : (p.pushed.map fun pair => pair.2.nonces).sum = request.totalNonces - p.noncesToGen
  writers : ∀ pair ∈ p.pushed, pair.1 ∈ p.visited
  small : ∀ driver ∈ p.visited, p.freeSpaces driver < 9223372036854775808
  spaces : ∀ driver ∈ p.visited, ∀ scan, request.scan (drives driver) = some scan →
    p.freeSpaces driver = scan.free - filesBytes (p.files driver) ∧
      (p.files driver ≠ [] → 0 ≤ p.freeSpaces driver)

/-- The files of a driver that got one more. -/
theorem files_push (driver other : Text) (n : Nat) :
    (p.push request driver n).files other = if other = driver then
      p.files other ++ [⟨request.plotId, p.snToGen, toInt32 n⟩] else p.files other := by
  unfold files push
  rw [List.filter_append, List.filter_singleton]
  by_cases same : driver = other
  · simp [same]
  · simp [same, Ne.symm same]

/-- The start keeps nothing. -/
private theorem start_planning : Planning request drives (start request) where
  laid := fun _ => Laid.nil
  sizes := List.forall_mem_nil _
  total := (Int.sub_self _).symm
  writers := List.forall_mem_nil _
  small := List.forall_mem_nil _
  spaces := List.forall_mem_nil _

/-- A scan leaves an `int64_t`. -/
theorem scan_free_lt {drive : Drive} {scan : Scan} (scanned : request.scan drive = some scan) :
    scan.free < 9223372036854775808 := by
  have readable := PlanRequest.scan_isSome.mp (Option.isSome_of_eq_some scanned)
  rw [PlanRequest.scan_of_readable readable] at scanned
  obtain rfl := Option.some.inj scanned
  simp only [toInt64]
  omega

/-- A visit keeps the files. -/
private theorem Planning.visit (planning : Planning request drives p) {driver : Text}
    (new : driver ∉ p.visited) (visited : p.visit request drives driver = some q) :
    Planning request drives q := by
  obtain ⟨scan, scanned, rfl⟩ := visit_cases new visited
  have none : p.files driver = [] := by
    unfold files
    rw [List.map_eq_nil_iff, List.filter_eq_nil_iff]
    intro pair member same
    have own : pair.1 = driver := by simpa using same
    exact new (own ▸ planning.writers pair member)
  constructor
  · exact fun unwrapped => (planning.laid unwrapped).advance (Nat.le_max_left ..)
  · exact planning.sizes
  · exact planning.total
  · exact fun pair member => List.mem_append_left _ (planning.writers pair member)
  · intro other member
    simp only []
    by_cases same : other = driver
    · subst same
      rw [Function.update_self]
      exact scan_free_lt scanned
    · rw [Function.update_of_ne same]
      exact planning.small other (by simpa [same] using member)
  · intro other member found read
    simp only []
    by_cases same : other = driver
    · subst same
      obtain rfl : scan = found := Option.some.inj (scanned.symm.trans read)
      rw [Function.update_self]
      show scan.free = scan.free - filesBytes (p.files other) ∧ (p.files other ≠ [] → _)
      rw [none]
      exact ⟨(Int.sub_zero _).symm, fun some_files => absurd rfl some_files⟩
    · rw [Function.update_of_ne same]
      exact planning.spaces other (by simpa [same] using member) found read

/-- A push keeps the sizes and the room. -/
private theorem Planning.push (planning : Planning request drives p) {align : Nat} {driver : Text}
    (passes : align = 64 ∨ align = 8) (visited : driver ∈ p.visited)
    (nonzero : p.nonces request align driver ≠ 0)
    (small : p.nonces request align driver < 2147483647) :
    Planning request drives (p.push request driver (p.nonces request align driver)) := by
  have bound := nonces_bound request align p driver
  generalize p.nonces request align driver = n at bound nonzero small
  have exact : toInt32 (n : Int) = n := toInt32_eq (by omega) (by omega)
  obtain ⟨space, enough⟩ := push_freeSpaces nonzero bound (planning.small driver visited)
  have left := bound.left
  have bytes : (0 : Int) ≤ n * plotSize :=
    Int.mul_nonneg (Int.natCast_nonneg _) (Int.natCast_nonneg _)
  constructor
  · intro unwrapped
    have before : p.Unwrapped := fun pair member =>
      unwrapped pair (List.mem_append_left _ member)
    have here := unwrapped (driver, ⟨request.plotId, p.snToGen, toInt32 n⟩)
      (List.mem_append_right _ (List.mem_singleton_self _))
    simp only [exact] at here
    have cursor : toUInt64 ((p.snToGen : Int) + n) = p.snToGen + n := by
      rw [← Int.natCast_add]
      exact toUInt64_natCast (by omega)
    unfold Planner.push
    simp only [cursor, exact, List.map_append, List.map_cons, List.map_nil]
    exact (planning.laid before).push n
  · intro pair member
    rcases List.mem_append.mp member with old | new
    · exact planning.sizes pair old
    · rw [List.mem_singleton.mp new]
      have aligned : 8 ∣ n := by
        rcases passes with rfl | rfl
        · exact Nat.dvd_trans (by decide) bound.aligned
        · exact bound.aligned
      have most := bound.most
      exact ⟨by simp only [exact]; omega, by simp only [exact]; omega, by simp only [exact]; omega,
        by simp only [exact]; omega⟩
  · have total := planning.total
    unfold Planner.push
    simp only [List.map_append, List.map_cons, List.map_nil, List.sum_append, List.sum_cons,
      List.sum_nil, exact, total]
    omega
  · intro pair member
    rcases List.mem_append.mp member with old | new
    · exact planning.writers pair old
    · rw [List.mem_singleton.mp new]
      exact visited
  · intro other member
    unfold Planner.push
    simp only [space]
    by_cases same : other = driver
    · subst same
      rw [Function.update_self]
      have := planning.small other member
      omega
    · rw [Function.update_of_ne same]
      exact planning.small other member
  · intro other member scan scanned
    obtain ⟨room, kept⟩ := planning.spaces other member scan scanned
    rw [files_push]
    unfold Planner.push
    simp only [space]
    by_cases same : other = driver
    · subst same
      rw [Function.update_self, if_pos rfl]
      refine ⟨?_, fun _ => enough⟩
      unfold filesBytes at room ⊢
      rw [List.map_append, List.sum_append, List.map_singleton, List.sum_singleton, room, exact]
      simp only []
      omega
    · rw [Function.update_of_ne same, if_neg same]
      exact ⟨room, kept⟩

/-- The planner keeps this in whatever it does. -/
theorem reachable_planning (reached : (machine request drives).Reachable p) :
    Planning request drives p := by
  refine reached.invariant (Planning request drives) ?_ ?_
  · rintro _ rfl
    exact start_planning
  · intro p event q _ planning _ taken
    cases event with
    | visit driver =>
        obtain ⟨⟨_, new⟩, visited⟩ := Option.ite_none_right_eq_some.mp taken
        exact planning.visit new visited
    | push align driver =>
        obtain ⟨⟨passes, visited, nonzero, small⟩, same⟩ :=
          Option.ite_none_right_eq_some.mp taken
        obtain rfl := Option.some.inj same
        exact planning.push passes visited nonzero small

/-- All files are of the request's plot id. -/
theorem reachable_pid (reached : (machine request drives).Reachable p) :
    ∀ pair ∈ p.pushed, pair.2.pid = request.plotId := by
  refine reached.invariant (fun p => ∀ pair ∈ p.pushed, pair.2.pid = request.plotId) ?_ ?_
  · rintro _ rfl
    exact List.forall_mem_nil _
  · intro p event q _ own _ taken
    cases event with
    | visit driver =>
        obtain ⟨⟨_, new⟩, visited⟩ := Option.ite_none_right_eq_some.mp taken
        obtain ⟨_, _, rfl⟩ := visit_cases new visited
        exact own
    | push align driver =>
        obtain ⟨_, same⟩ := Option.ite_none_right_eq_some.mp taken
        obtain rfl := Option.some.inj same
        intro pair member
        rcases List.mem_append.mp member with old | here
        · exact own pair old
        · rw [List.mem_singleton.mp here]

/-- What the planner does keeps a plan well formed, and its result is made so. -/
theorem plan_wellFormed (request : PlanRequest) (drives : Text → Drive) :
    (∀ p, plan request drives = some p → (machine request drives).Reachable p) ∧
      ∀ p, (machine request drives).Reachable p → p.Unwrapped → WellFormed request drives p := by
  refine ⟨fun p planned => plan_reachable planned, fun p reached unwrapped => ?_⟩
  have planning := reachable_planning reached
  constructor
  · exact (planning.laid unwrapped).apart
  · exact planning.sizes
  · exact planning.total
  · exact planning.writers
  · intro driver member scan scanned positive
    obtain ⟨room, kept⟩ := planning.spaces driver member scan scanned
    by_cases none : p.files driver = []
    · rw [room, none]
      show 0 ≤ scan.free - 0
      omega
    · exact kept none
  · intro driver member scan scanned some_files
    obtain ⟨room, kept⟩ := planning.spaces driver member scan scanned
    have := kept some_files
    omega

end Planner

/-- Two drivers for files of at most 64 nonces. -/
def twoDrivers : PlanRequest where
  plotId := 1
  startNonce := 0
  totalNonces := 300
  weight := 16
  drivers := ["a".toList, "b".toList]

/-- Room on both of them, and a plot file on the second. -/
def twoDrives (driver : Text) : Drive :=
  if driver = "a".toList then ⟨true, 76 * 262144, []⟩
  else ⟨true, 140 * 262144, [⟨"1_64_72".toList, false, 18874368⟩]⟩

/-- Five files on two drivers. -/
theorem plan_wellFormed_twoDrivers :
    ∃ p, Planner.plan twoDrivers twoDrives = some p ∧ p.pushed.length = 5 ∧
      WellFormed twoDrivers twoDrives p := by
  obtain ⟨p, planned, count, unwrapped⟩ : ∃ p, Planner.plan twoDrivers twoDrives = some p ∧
      p.pushed.length = 5 ∧ p.Unwrapped := ⟨_, rfl, rfl, by unfold Planner.Unwrapped; decide⟩
  have formed := Planner.plan_wellFormed twoDrivers twoDrives
  exact ⟨p, planned, count, formed.2 p (formed.1 p planned) unwrapped⟩

end HyperPlotter.Plan

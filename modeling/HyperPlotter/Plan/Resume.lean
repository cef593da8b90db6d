import HyperPlotter.Plan.Marks
import HyperPlotter.Plan.Volumes

/-!
# Resuming an interrupted run

A run over empty drivers is interrupted and started again with the same arguments.
The files that were finished keep their places when what the drivers show of them
leads the second plan to the places of the others.
-/

namespace HyperPlotter.Plan

open Foundation Poc Pipeline

/-- What is on a driver of a finished file. -/
def finishedEntry (file : PlannedFile) : DirEntry :=
  ⟨plotName file.pid file.sn file.nonces.toNat, false, file.nonces.toNat * plotSize⟩

/-- What is on a driver of a file that was begun: it has its full size at once. -/
def plottingEntry (file : PlannedFile) : DirEntry :=
  ⟨plottingName file, false, file.nonces.toNat * plotSize⟩

/-- A run with automatic nonce count over empty drivers, each with a volume of its
own, and where it was interrupted: on each driver the first `renamed` files are
finished, and at most one further file was begun. -/
structure Interruption where
  request : PlanRequest
  automatic : request.totalNonces = 18446744073709551615
  distinct : request.drivers.Nodup
  free : Text → Nat
  plan : Planner
  planned : Planner.plan request (fun driver => ⟨true, free driver, []⟩) = some plan
  renamed : Text → Nat
  begun : Text → Option PlannedFile
  begun_mem : ∀ driver, ∀ file ∈ begun driver, file ∈ (plan.files driver).drop (renamed driver)
  entries : Text → List DirEntry
  listed : ∀ driver, (entries driver).Perm
    (((plan.files driver).take (renamed driver)).map finishedEntry ++
      (begun driver).toList.map plottingEntry)

namespace Interruption

variable (run : Interruption)

/-- The files of a driver that were finished. -/
def finished (driver : Text) : List PlannedFile :=
  (run.plan.files driver).take (run.renamed driver)

/-- The files of a driver that were not finished. -/
def unfinished (driver : Text) : List PlannedFile :=
  (run.plan.files driver).drop (run.renamed driver)

/-- The drives the second run finds: the created files take their bytes. -/
def drives (driver : Text) : Drive :=
  ⟨true, run.free driver - ((run.entries driver).map DirEntry.size).sum, run.entries driver⟩

/-- The second plan assigns to every driver the files that were not finished. -/
def Resumes : Prop := ∃ p, Planner.plan run.request run.drives = some p ∧
  ∀ driver ∈ run.request.drivers, p.files driver = run.unfinished driver

/-- A scan counts finished files in the nonce range of the start nonce; one that ends
beyond the last nonce counts with an end that has wrapped. -/
def Visible (file : PlannedFile) : Prop :=
  file.sn / 4294967296 = run.request.startNonce / 4294967296 ∧
    (file.sn + file.nonces : Int) < 18446744073709551616

/-- The nonces of the plan before a file. Start nonces wrap after the last nonce. -/
def position (file : PlannedFile) : Nat := toUInt64 ((file.sn : Int) - run.request.startNonce)

/-- The driver is scanned before a file of some nonces is planned on another one. -/
def ScannedBefore (other driver : Text) (nonces : Int) : Prop :=
  other ∈ run.request.drivers ∧
    (¬64 ∣ nonces ∨ run.request.drivers.idxOf other ≤ run.request.drivers.idxOf driver)

/-- The visible finished files that are found before an unfinished one is planned
come before it in the plan, and a finished file right before an unfinished one is
visible. -/
structure Continues : Prop where
  earlier : ∀ driver, ∀ file ∈ run.unfinished driver, ∀ other, ∀ found ∈ run.finished other,
    run.Visible found → run.ScannedBefore other driver file.nonces →
      run.position found < run.position file
  adjacent : ∀ driver, ∀ file ∈ run.unfinished driver, ∀ other, ∀ found ∈ run.finished other,
    (run.position found + found.nonces : Int) = run.position file → run.Visible found

end Interruption

/-! ## The marked moves of a plan -/

namespace Marks

open Planner

/-- The files of a driver, the first of them marked. -/
def markFiles (driver : Text) (count : Nat) (sizes : List Nat) : List (PlanMove × Bool) :=
  (sizes.take count).map (fun nonces => (.file driver nonces, true)) ++
    (sizes.drop count).map fun nonces => (.file driver nonces, false)

section Marked

variable (request : PlanRequest) (scans : Text → Scan) (renamed : Text → Nat)

/-- The marked moves of the first pass on a driver. -/
def markFirst (driver : Text) : List (PlanMove × Bool) :=
  (.visit driver, false) :: markFiles driver (renamed driver)
    (firstPieces request.maxNoncesPerFile (scans driver).room)

/-- The marked moves of the second pass on a driver. -/
def markSecond (driver : Text) : List (PlanMove × Bool) :=
  markFiles driver (renamed driver - (firstPieces request.maxNoncesPerFile (scans driver).room).length)
    (secondPieces request.maxNoncesPerFile (scans driver).room)

/-- The moves of a plan, the first files of each driver marked. -/
def markMoves : List (PlanMove × Bool) :=
  request.drivers.flatMap (markFirst request scans renamed) ++
    request.drivers.flatMap (markSecond request scans renamed)

variable {request scans renamed}

private theorem map_markFiles (driver : Text) (count : Nat) (sizes : List Nat) :
    (markFiles driver count sizes).map Prod.fst = fileMoves driver sizes := by
  unfold markFiles fileMoves
  rw [List.map_append, List.map_map, List.map_map]
  exact (List.map_append ..).symm.trans (congrArg _ (List.take_append_drop ..))

/-- With all marks away these are the moves of the plan. -/
theorem map_markMoves :
    (markMoves request scans renamed).map Prod.fst = moves request scans request.drivers := by
  unfold markMoves moves
  rw [List.map_append, List.map_flatMap, List.map_flatMap]
  refine congrArg₂ (· ++ ·) ?_ ?_
  · refine congrArg (List.flatMap · request.drivers) (funext fun driver => ?_)
    rw [markFirst, List.map_cons, map_markFiles]
    rfl
  · exact congrArg (List.flatMap · request.drivers) (funext fun driver => map_markFiles ..)

private theorem unmarked_append (first rest : List (PlanMove × Bool)) :
    unmarked (first ++ rest) = unmarked first ++ unmarked rest := by
  unfold unmarked
  rw [List.filter_append, List.map_append]

private theorem unmarked_flatMap (drivers : List Text) (f : Text → List (PlanMove × Bool)) :
    unmarked (drivers.flatMap f) = drivers.flatMap fun driver => unmarked (f driver) := by
  unfold unmarked
  rw [List.filter_flatMap, List.map_flatMap]

private theorem unmarked_markFiles (driver : Text) (count : Nat) (sizes : List Nat) :
    unmarked (markFiles driver count sizes) = fileMoves driver (sizes.drop count) := by
  have marked : ∀ some : List Nat,
      unmarked (some.map fun nonces => (.file driver nonces, true)) = [] := by
    simp [unmarked]
  have others : ∀ some : List Nat,
      unmarked (some.map fun nonces => (.file driver nonces, false)) = fileMoves driver some := by
    intro some
    unfold unmarked fileMoves
    rw [List.filter_eq_self.mpr (by simp), List.map_map]
    rfl
  rw [markFiles, unmarked_append, marked, others, List.nil_append]

/-- The unmarked moves are those of a plan with the room the marked files leave. -/
theorem unmarked_markMoves {found : Text → Scan}
    (rooms : ∀ driver ∈ request.drivers, (found driver).room = (scans driver).room -
      ((firstPieces request.maxNoncesPerFile (scans driver).room ++
        secondPieces request.maxNoncesPerFile (scans driver).room).take (renamed driver)).sum) :
    unmarked (markMoves request scans renamed) = moves request found request.drivers := by
  rw [markMoves, unmarked_append, unmarked_flatMap, unmarked_flatMap, moves]
  refine congrArg₂ (· ++ ·) ?_ ?_
  · refine List.flatMap_congr fun driver member => ?_
    obtain ⟨first, _⟩ := pieces_resumed (renamed driver) (rooms driver member)
    rw [firstMoves, first, ← unmarked_markFiles]
    rfl
  · refine List.flatMap_congr fun driver member => ?_
    obtain ⟨_, second⟩ := pieces_resumed (renamed driver) (rooms driver member)
    rw [secondMoves, second, ← unmarked_markFiles]
    rfl

/-! ## Where the files stand -/

/-- An element of two lists is in one of them. -/
private theorem split_append {α : Type} {first rest before after : List α} {x : α}
    (split : first ++ rest = before ++ x :: after) :
    (∃ between, first = before ++ x :: between) ∨
      ∃ between, before = first ++ between ∧ rest = between ++ x :: after := by
  rcases List.append_eq_append_iff.mp split with ⟨between, early, late⟩ | ⟨between, early, late⟩
  · exact .inr ⟨between, early, late⟩
  · cases between with
    | nil => exact .inr ⟨[], by simp [early], late.symm⟩
    | cons y between =>
        obtain ⟨rfl, _⟩ := List.cons.inj late
        exact .inl ⟨between, early⟩

/-- An element of the lists of several drivers is in that of one of them. -/
private theorem split_flatMap {α β : Type} {f : α → List β} {l : List α} {before after : List β}
    {x : β} (split : l.flatMap f = before ++ x :: after) : ∃ seen a rest early late,
      l = seen ++ a :: rest ∧ f a = early ++ x :: late ∧ before = seen.flatMap f ++ early := by
  induction l generalizing before with
  | nil =>
      rw [List.flatMap_nil] at split
      exact absurd split.symm (by simp)
  | cons a rest ih =>
      rw [List.flatMap_cons] at split
      rcases split_append split with ⟨late, here⟩ | ⟨between, rfl, later⟩
      · exact ⟨[], a, rest, before, late, rfl, here, rfl⟩
      · obtain ⟨seen, b, others, early, late, rfl, there, rfl⟩ := ih later
        exact ⟨a :: seen, b, others, early, late, rfl, there, by simp⟩

/-- The drivers up to one of them. -/
private theorem idxOf_le {seen rest : List Text} {driver other : Text}
    (distinct : (seen ++ driver :: rest).Nodup) : other ∈ seen ∨ other = driver ↔
      other ∈ seen ++ driver :: rest ∧
        (seen ++ driver :: rest).idxOf other ≤ (seen ++ driver :: rest).idxOf driver := by
  obtain ⟨_, others, apart⟩ := List.nodup_append.mp distinct
  have place : (seen ++ driver :: rest).idxOf driver = seen.length := by
    rw [List.idxOf_append_of_notMem fun member => apart _ member _ (List.mem_cons_self ..) rfl,
      List.idxOf_cons_self, Nat.add_zero]
  rw [place]
  constructor
  · rintro (member | rfl)
    · rw [List.idxOf_append_of_mem member]
      exact ⟨List.mem_append_left _ member, Nat.le_of_lt (List.idxOf_lt_length_of_mem member)⟩
    · exact ⟨by simp, Nat.le_of_eq place⟩
  · rintro ⟨member, below⟩
    by_contra neither
    rw [not_or] at neither
    rw [List.idxOf_append_of_notMem neither.1, List.idxOf_cons_ne _ (Ne.symm neither.2)] at below
    omega

private theorem mem_markFiles {driver other : Text} {count n : Nat} {sizes : List Nat} {mark : Bool}
    (member : (.file other n, mark) ∈ markFiles driver count sizes) : other = driver ∧ n ∈ sizes := by
  unfold markFiles at member
  rw [List.mem_append, List.mem_map, List.mem_map] at member
  rcases member with ⟨m, inside, same⟩ | ⟨m, inside, same⟩
  · obtain ⟨⟨rfl, rfl⟩, _⟩ : (driver = other ∧ m = n) ∧ mark = true := by simpa using same
    exact ⟨rfl, List.mem_of_mem_take inside⟩
  · obtain ⟨⟨rfl, rfl⟩, _⟩ : (driver = other ∧ m = n) ∧ mark = false := by simpa using same
    exact ⟨rfl, List.mem_of_mem_drop inside⟩

private theorem visit_notMem_markFiles {driver other : Text} {count : Nat} {sizes : List Nat}
    {mark : Bool} : (.visit other, mark) ∉ markFiles driver count sizes := by
  intro member
  unfold markFiles at member
  rw [List.mem_append, List.mem_map, List.mem_map] at member
  rcases member with ⟨_, _, same⟩ | ⟨_, _, same⟩
  · cases same
  · cases same

private theorem visit_mem_markFirst {driver other : Text} :
    (.visit other, false) ∈ markFirst request scans renamed driver ↔ other = driver := by
  rw [markFirst, List.mem_cons, or_iff_left visit_notMem_markFiles]
  simp

/-- A file of the first pass stands after the drivers up to its own, one of the second
pass after all. -/
theorem visits_markMoves (distinct : request.drivers.Nodup) :
    VisitsFirst (fun other driver nonces => other ∈ request.drivers ∧
      (¬64 ∣ nonces ∨ request.drivers.idxOf other ≤ request.drivers.idxOf driver))
      (markMoves request scans renamed) := by
  intro before driver nonces mark after split
  rcases split_append split with ⟨between, first⟩ | ⟨between, rfl, second⟩
  · obtain ⟨seen, owner, rest, early, late, parts, own, rfl⟩ := split_flatMap first
    cases early with
    | nil => cases own
    | cons visit early =>
        obtain ⟨rfl, files⟩ := List.cons.inj own
        have inside : (.file driver nonces, mark) ∈ markFiles owner (renamed owner)
            (firstPieces request.maxNoncesPerFile (scans owner).room) := by
          rw [files]
          exact List.mem_append_right _ (List.mem_cons_self ..)
        obtain ⟨rfl, piece⟩ := mem_markFiles inside
        obtain ⟨positive, aligned, _⟩ := pieces_bound.2 nonces piece
        have before_files : ∀ move ∈ early, move ∈ markFiles driver (renamed driver)
            (firstPieces request.maxNoncesPerFile (scans driver).room) := by
          intro move member
          rw [files]
          exact List.mem_append_left _ member
        have visited : ∀ other, (.visit other, false) ∈ seen.flatMap
            (markFirst request scans renamed) ++ (.visit driver, false) :: early ↔
              other ∈ seen ∨ other = driver := by
          intro other
          have files_only : (PlanMove.visit other, false) ∉ early := fun member =>
            visit_notMem_markFiles (before_files _ member)
          simp [List.mem_flatMap, visit_mem_markFirst, files_only]
        refine ⟨positive, (visited driver).mpr (.inr rfl), fun other => ?_⟩
        have divides : (64 : Int) ∣ nonces := by omega
        rw [visited, parts, idxOf_le (parts ▸ distinct)]
        simp [divides]
  · obtain ⟨seen, owner, rest, early, late, parts, own, rfl⟩ := split_flatMap second
    have inside : (.file driver nonces, mark) ∈ markSecond request scans renamed owner :=
      own ▸ List.mem_append_right _ (List.mem_cons_self ..)
    obtain ⟨rfl, piece⟩ := mem_markFiles inside
    obtain ⟨positive, _, _⟩ := pieces_bound.2 nonces piece
    have aligned : 64 ∣ request.maxNoncesPerFile := Nat.dvd_mul_left ..
    have small := secondPieces_small aligned piece
    have visited : ∀ other, (.visit other, false) ∈
        request.drivers.flatMap (markFirst request scans renamed) ++
          (seen.flatMap (markSecond request scans renamed) ++ early) ↔ other ∈ request.drivers := by
      intro other
      have files_only : (PlanMove.visit other, false) ∉ early := fun member =>
        visit_notMem_markFiles (own ▸ List.mem_append_left _ member)
      have no_visit : ∀ place, (PlanMove.visit other, false) ∉
          markSecond request scans renamed place := fun place => visit_notMem_markFiles
      simp [List.mem_flatMap, visit_mem_markFirst, files_only, no_visit]
    have listed : driver ∈ request.drivers := by simp [parts]
    refine ⟨positive, (visited driver).mpr listed, fun other => ?_⟩
    have divides : ¬(64 : Int) ∣ nonces := by omega
    rw [visited]
    simp [divides]

/-- The visits of some moves, in order. -/
private def visitsOf (moves : List (PlanMove × Bool)) : List Text :=
  moves.filterMap fun pair =>
    match pair.1 with
    | .visit driver => some driver
    | .file _ _ => none

private theorem visitsOf_markFiles (driver : Text) (count : Nat) (sizes : List Nat) :
    visitsOf (markFiles driver count sizes) = [] := by
  unfold visitsOf
  rw [List.filterMap_eq_nil_iff]
  rintro ⟨move, mark⟩ member
  cases move with
  | visit other => exact absurd member visit_notMem_markFiles
  | file other nonces => rfl

/-- Every driver is visited once. -/
private theorem visitsOf_markMoves :
    visitsOf (markMoves request scans renamed) = request.drivers := by
  have joined : ∀ first rest : List (PlanMove × Bool),
      visitsOf (first ++ rest) = visitsOf first ++ visitsOf rest :=
    fun first rest => List.filterMap_append
  have first : ∀ drivers : List Text,
      visitsOf (drivers.flatMap (markFirst request scans renamed)) = drivers := by
    intro drivers
    induction drivers with
    | nil => rfl
    | cons driver rest ih =>
        have visit : visitsOf (markFirst request scans renamed driver) = driver :: visitsOf _ := rfl
        rw [List.flatMap_cons, joined, ih, visit, visitsOf_markFiles]
        rfl
  have second : ∀ drivers : List Text,
      visitsOf (drivers.flatMap (markSecond request scans renamed)) = [] := by
    intro drivers
    induction drivers with
    | nil => rfl
    | cons driver rest ih =>
        rw [List.flatMap_cons, joined, ih, List.append_nil]
        exact visitsOf_markFiles ..
  rw [markMoves, joined, first, second, List.append_nil]

/-- The files of a driver are placed after its visit. -/
private theorem le_of_visit (distinct : request.drivers.Nodup) {plotId sn : Nat} {driver : Text}
    {file : PlannedFile} {mark : Bool} {before after : List (PlanMove × Bool)}
    (split : markMoves request scans renamed = before ++ (.visit driver, false) :: after)
    (member : (driver, file, mark) ∈ placed plotId sn (markMoves request scans renamed)) :
    sn + total before ≤ file.sn := by
  obtain ⟨first, nonces, rest, there, rfl⟩ := mem_placed.mp member
  rcases split_append (there.symm.trans split) with ⟨between, rfl⟩ | ⟨between, rfl, _⟩
  · show _ ≤ sn + total (before ++ _)
    rw [total_append]
    omega
  · -- the file's own visit would come before this one
    have visited := (visits_markMoves distinct first driver nonces mark rest there).2.1
    have visits : visitsOf (markMoves request scans renamed) = _ := visitsOf_markMoves
    have own : driver ∈ visitsOf (first ++ between) :=
      List.mem_filterMap.mpr ⟨_, List.mem_append_left _ visited, rfl⟩
    have parts : visitsOf (first ++ between ++ (.visit driver, false) :: after) =
        visitsOf (first ++ between) ++ driver :: visitsOf after := List.filterMap_append
    rw [split, parts] at visits
    rw [← visits] at distinct
    exact absurd (List.mem_cons_self ..) (List.disjoint_of_nodup_append distinct own)

/-- Every move is one file. -/
theorem small_markMoves : ∀ pair ∈ markMoves request scans renamed,
    pair.1.nonces < 2147483647 := by
  rintro ⟨move, mark⟩ member
  cases move with
  | visit driver => exact Nat.zero_lt_succ _
  | file driver nonces =>
      unfold markMoves at member
      rw [List.mem_append, List.mem_flatMap, List.mem_flatMap] at member
      rcases member with ⟨owner, _, first⟩ | ⟨owner, _, second⟩
      · have inside := (List.mem_cons.mp first).resolve_left (by rintro ⟨⟩)
        exact (pieces_bound.2 nonces (mem_markFiles inside).2).2.2
      · exact (pieces_bound.2 nonces (mem_markFiles second).2).2.2

private theorem total_markFiles (driver : Text) (count : Nat) (sizes : List Nat) :
    total (markFiles driver count sizes) = sizes.sum := by
  have files : ∀ moves : List (PlanMove × Bool),
      total moves = ((moves.map Prod.fst).map PlanMove.nonces).sum := by
    intro moves
    rw [List.map_map]
    rfl
  rw [files, map_markFiles, fileMoves, List.map_map]
  exact congrArg List.sum (List.map_id sizes)

private theorem total_flatMap (drivers : List Text) (f : Text → List (PlanMove × Bool)) :
    total (drivers.flatMap f) = (drivers.map fun driver => total (f driver)).sum := by
  induction drivers with
  | nil => rfl
  | cons driver rest ih => rw [List.flatMap_cons, total_append, ih, List.map_cons, List.sum_cons]

/-- All files fit into the room of their drivers. -/
theorem total_markMoves_le : total (markMoves request scans renamed) ≤
    (request.drivers.map fun driver => (scans driver).room).sum := by
  unfold markMoves
  rw [total_append, total_flatMap, total_flatMap, ← List.sum_map_add]
  refine List.sum_le_sum fun driver _ => ?_
  have first : (firstPieces request.maxNoncesPerFile (scans driver).room).sum ≤
      (scans driver).room := pieces_bound.1
  have second : (secondPieces request.maxNoncesPerFile (scans driver).room).sum ≤
      (scans driver).room - (firstPieces request.maxNoncesPerFile (scans driver).room).sum :=
    pieces_bound.1
  rw [markFirst, total_cons, total_markFiles, markSecond, total_markFiles]
  show 0 + _ + _ ≤ _
  omega

/-! ## The files of one driver -/

/-- The nonces and the marks of a driver's files. -/
def filesOf (driver : Text) (moves : List (PlanMove × Bool)) : List (Nat × Bool) :=
  moves.filterMap fun pair =>
    match pair.1 with
    | .visit _ => none
    | .file other nonces => if other = driver then some (nonces, pair.2) else none

/-- The placed files of a driver. -/
theorem placed_filesOf (plotId : Nat) (driver : Text) (sn : Nat)
    (moves : List (PlanMove × Bool)) :
    ((placed plotId sn moves).filter (·.1 = driver)).map
      (fun entry => (entry.2.1.nonces.toNat, entry.2.2)) = filesOf driver moves := by
  induction moves generalizing sn with
  | nil => rfl
  | cons pair rest ih =>
      obtain ⟨move, mark⟩ := pair
      cases move with
      | visit other => exact ih sn
      | file other nonces =>
          unfold filesOf at ih ⊢
          by_cases same : other = driver
          · simp [placed, same, ih]
          · simp [placed, same, ih]

private theorem filesOf_markFiles (driver other : Text) (count : Nat) (sizes : List Nat) :
    filesOf driver (markFiles other count sizes) =
      if other = driver then (sizes.take count).map (·, true) ++ (sizes.drop count).map (·, false)
      else [] := by
  have marked : ∀ (mark : Bool) (some : List Nat),
      filesOf driver (some.map fun nonces => (.file other nonces, mark)) =
        if other = driver then some.map (·, mark) else [] := by
    intro mark some
    unfold filesOf
    rw [List.filterMap_map]
    by_cases same : other = driver
    · rw [if_pos same, ← List.filterMap_eq_map]
      simp [same]
    · rw [if_neg same]
      simp [same]
  have parts : filesOf driver (markFiles other count sizes) = _ := List.filterMap_append ..
  rw [parts]
  refine (congrArg₂ (· ++ ·) (marked true (sizes.take count)) (marked false (sizes.drop count))).trans ?_
  by_cases same : other = driver
  · rw [if_pos same, if_pos same, if_pos same]
  · rw [if_neg same, if_neg same, if_neg same]
    rfl

/-- Of the moves of several drivers only those of a driver itself have its files. -/
private theorem filesOf_flatMap {drivers : List Text} (distinct : drivers.Nodup) {driver : Text}
    {moves : Text → List (PlanMove × Bool)}
    (others : ∀ other, other ≠ driver → filesOf driver (moves other) = []) :
    filesOf driver (drivers.flatMap moves) =
      if driver ∈ drivers then filesOf driver (moves driver) else [] := by
  induction drivers with
  | nil => rfl
  | cons first rest ih =>
      obtain ⟨notin, distinct⟩ := List.nodup_cons.mp distinct
      have parts : filesOf driver ((first :: rest).flatMap moves) =
          filesOf driver (moves first) ++ filesOf driver (rest.flatMap moves) :=
        List.filterMap_append ..
      rw [parts, ih distinct]
      by_cases same : first = driver
      · subst same
        simp [notin]
      · rw [others first same]
        simp [Ne.symm same]

/-- A driver has the files of both passes. -/
private theorem filesOf_markMoves (distinct : request.drivers.Nodup) (driver : Text) :
    filesOf driver (markMoves request scans renamed) =
      if driver ∈ request.drivers then
        filesOf driver (markFirst request scans renamed driver) ++
          filesOf driver (markSecond request scans renamed driver)
      else [] := by
  have first : filesOf driver (request.drivers.flatMap (markFirst request scans renamed)) = _ :=
    filesOf_flatMap distinct fun other differ =>
      (filesOf_markFiles driver other _ _).trans (if_neg differ)
  have second : filesOf driver (request.drivers.flatMap (markSecond request scans renamed)) = _ :=
    filesOf_flatMap distinct fun other differ =>
      (filesOf_markFiles driver other _ _).trans (if_neg differ)
  have parts : filesOf driver (markMoves request scans renamed) = _ := List.filterMap_append ..
  rw [parts]
  refine (congrArg₂ (· ++ ·) first second).trans ?_
  by_cases listed : driver ∈ request.drivers
  · rw [if_pos listed, if_pos listed, if_pos listed]
  · rw [if_neg listed, if_neg listed, if_neg listed]
    rfl

/-- The sizes of a driver's files. -/
theorem sizes_markMoves (distinct : request.drivers.Nodup) {driver : Text}
    (listed : driver ∈ request.drivers) :
    (filesOf driver (markMoves request scans renamed)).map Prod.fst =
      firstPieces request.maxNoncesPerFile (scans driver).room ++
        secondPieces request.maxNoncesPerFile (scans driver).room := by
  have sizes : ∀ (count : Nat) (sizes : List Nat),
      (filesOf driver (markFiles driver count sizes)).map Prod.fst = sizes := by
    intro count sizes
    rw [filesOf_markFiles, if_pos rfl, List.map_append, List.map_map, List.map_map]
    have unmarked : ∀ mark : Bool, Prod.fst ∘ (fun n : Nat => (n, mark)) = id := fun _ => rfl
    rw [unmarked, unmarked, List.map_id, List.map_id]
    exact List.take_append_drop ..
  rw [filesOf_markMoves distinct, if_pos listed, List.map_append]
  exact congrArg₂ (· ++ ·) (sizes _ _) (sizes _ _)

/-- The first files of a driver are the marked ones. -/
private theorem marks_markMoves (distinct : request.drivers.Nodup) (driver : Text) :
    ∃ marked others, (filesOf driver (markMoves request scans renamed)).map Prod.snd =
        List.replicate marked true ++ List.replicate others false ∧
      marked = min (renamed driver) (marked + others) := by
  have marks : ∀ (count : Nat) (sizes : List Nat),
      (filesOf driver (markFiles driver count sizes)).map Prod.snd =
        List.replicate (min count sizes.length) true ++
          List.replicate (sizes.length - count) false := by
    intro count sizes
    have all : ∀ mark : Bool, Prod.snd ∘ (fun n : Nat => (n, mark)) = fun _ => mark := fun _ => rfl
    rw [filesOf_markFiles, if_pos rfl, List.map_append, List.map_map, List.map_map, all, all,
      List.map_const', List.map_const', List.length_take, List.length_drop]
  rw [filesOf_markMoves distinct]
  by_cases listed : driver ∈ request.drivers
  · rw [if_pos listed, List.map_append]
    have first : (filesOf driver (markFirst request scans renamed driver)).map Prod.snd = _ :=
      marks _ _
    have second : (filesOf driver (markSecond request scans renamed driver)).map Prod.snd = _ :=
      marks _ _
    rw [first, second]
    generalize (firstPieces request.maxNoncesPerFile (scans driver).room).length = firsts
    generalize (secondPieces request.maxNoncesPerFile (scans driver).room).length = seconds
    by_cases within : renamed driver ≤ firsts
    · have rest : renamed driver - firsts = 0 := by omega
      refine ⟨renamed driver, firsts - renamed driver + seconds, ?_, by omega⟩
      rw [rest, Nat.zero_min, Nat.sub_zero, Nat.min_eq_left within, List.append_assoc,
        List.replicate_zero, List.nil_append, List.replicate_append_replicate]
    · have rest : firsts - renamed driver = 0 := by omega
      refine ⟨firsts + min (renamed driver - firsts) seconds,
        seconds - (renamed driver - firsts), ?_, by omega⟩
      rw [rest, Nat.min_eq_right (by omega), List.replicate_zero, List.append_nil,
        ← List.append_assoc, List.replicate_append_replicate]
  · rw [if_neg listed]
    exact ⟨0, 0, rfl, by omega⟩

/-- The elements before a change of a mark. -/
private theorem filter_marked {α : Type} {l : List α} {mark : α → Bool} {marked others : Nat}
    (marks : l.map mark = List.replicate marked true ++ List.replicate others false) :
    l.filter mark = l.take marked ∧ (l.filter fun x => !mark x) = l.drop marked := by
  have first : (l.take marked).map mark = List.replicate marked true := by
    rw [List.map_take, marks, List.take_left' (List.length_replicate ..)]
  have rest : (l.drop marked).map mark = List.replicate others false := by
    rw [List.map_drop, marks, List.drop_left' (List.length_replicate ..)]
  have all : ∀ x ∈ l.take marked, mark x = true := fun x member =>
    (List.eq_replicate_iff.mp first).2 _ (List.mem_map_of_mem member)
  have none : ∀ x ∈ l.drop marked, mark x = false := fun x member =>
    (List.eq_replicate_iff.mp rest).2 _ (List.mem_map_of_mem member)
  have parts := List.take_append_drop marked l
  constructor
  · conv_lhs => rw [← parts]
    rw [List.filter_append, List.filter_eq_self.mpr all,
      List.filter_eq_nil_iff.mpr fun x member => by simp [none x member], List.append_nil]
  · conv_lhs => rw [← parts]
    rw [List.filter_append, List.filter_eq_nil_iff.mpr fun x member => by simp [all x member],
      List.filter_eq_self.mpr fun x member => by simp [none x member], List.nil_append]

/-- The first files of a driver are its marked ones. -/
theorem files_markMoves (distinct : request.drivers.Nodup) {plotId sn : Nat} {p : Planner}
    (pushed : p.pushed = (placed plotId sn (markMoves request scans renamed)).map
      fun entry => (entry.1, wrapped entry.2.1)) (driver : Text) :
    (p.files driver).take (renamed driver) =
        (((placed plotId sn (markMoves request scans renamed)).filter (·.1 = driver)).filter
          (·.2.2)).map (wrapped ·.2.1) ∧
      (p.files driver).drop (renamed driver) =
        (((placed plotId sn (markMoves request scans renamed)).filter (·.1 = driver)).filter
          fun entry => !entry.2.2).map (wrapped ·.2.1) := by
  obtain ⟨marked, others, marks, count⟩ : ∃ marked others,
      (filesOf driver (markMoves request scans renamed)).map Prod.snd = _ ∧ marked = _ :=
    marks_markMoves distinct driver
  have own : ((placed plotId sn (markMoves request scans renamed)).filter (·.1 = driver)).map
      (·.2.2) = List.replicate marked true ++ List.replicate others false := by
    have placed_files := placed_filesOf plotId driver sn (markMoves request scans renamed)
    rw [← marks, ← placed_files, List.map_map]
    rfl
  obtain ⟨first, rest⟩ := filter_marked own
  have size := congrArg List.length own
  rw [List.length_map, List.length_append, List.length_replicate, List.length_replicate] at size
  have files : p.files driver = ((placed plotId sn (markMoves request scans renamed)).filter
      (·.1 = driver)).map (wrapped ·.2.1) := by
    unfold Planner.files
    rw [pushed, List.filter_map, List.map_map]
    rfl
  rw [files, first, rest]
  generalize (placed plotId sn (markMoves request scans renamed)).filter (·.1 = driver) = own
    at size
  have same : min (renamed driver) own.length = min marked own.length := by omega
  rw [← List.map_take, ← List.map_drop]
  exact ⟨congrArg _ (List.take_eq_take_iff.mpr same), congrArg _ (List.drop_eq_drop_iff.mpr same)⟩

end Marked

end Marks

/-- Lists of files are the same when the drivers come in the same order and each has
the same files. -/
private theorem eq_of_files {first second : List (Text × PlannedFile)}
    (drivers : first.map Prod.fst = second.map Prod.fst)
    (files : ∀ driver ∈ first.map Prod.fst, (first.filter (·.1 = driver)).map Prod.snd =
      (second.filter (·.1 = driver)).map Prod.snd) : first = second := by
  induction first generalizing second with
  | nil => exact (List.map_eq_nil_iff.mp drivers.symm).symm
  | cons pair rest ih =>
      cases second with
      | nil => cases drivers
      | cons other others =>
          obtain ⟨driver, file⟩ := pair
          obtain ⟨owner, found⟩ := other
          rw [List.map_cons, List.map_cons] at drivers
          obtain ⟨rfl, later⟩ := List.cons.inj drivers
          have here := files driver (List.mem_cons_self ..)
          simp only [List.filter_cons, decide_true, if_true, List.map_cons, List.cons.injEq] at here
          rw [here.1, ih later]
          intro place member
          by_cases same : place = driver
          · rw [same]
            exact here.2
          · have there := files place (List.mem_cons_of_mem _ member)
            simpa [List.filter_cons, Ne.symm same] using there

namespace Interruption

open Marks

variable (run : Interruption)

/-- What the first run found on a driver. -/
def firstScan (driver : Text) : Scan := ⟨toInt64 (run.free driver), 0, 0⟩

/-- What the second run finds on a driver. -/
def secondScan (driver : Text) : Scan where
  free := toInt64 ((run.drives driver).freeBytes + (run.drives driver).credit)
  plottingFiles := (run.entries driver).countP DirEntry.leftover
  lastSn := run.request.lastSn (run.entries driver)

/-- The places of the first run's files, the finished ones marked. -/
def placement : List (Text × PlannedFile × Bool) :=
  placed run.request.plotId run.request.startNonce
    (markMoves run.request run.firstScan run.renamed)

/-- The drivers have room for at most `2^64 - 2^32` nonces. -/
def Fits : Prop := (run.request.drivers.map fun driver => (run.firstScan driver).room).sum ≤
  18446744069414584320

variable {run}

/-- A scan finds room for less than `2^45` nonces. -/
private theorem firstScan_room (driver : Text) : (run.firstScan driver).room ≤ 35184372088831 := by
  have size : plotSize = 262144 := rfl
  unfold Scan.room
  rw [toNat_tdiv _ (by decide)]
  show (toInt64 (run.free driver) / plotSize).toNat ≤ _
  rw [size]
  unfold toInt64
  omega

/-- Fewer than `2^19` drivers always fit. -/
theorem fits_of_length (few : run.request.drivers.length < 524288) : run.Fits := by
  have rooms : ∀ drivers : List Text, (drivers.map fun driver => (run.firstScan driver).room).sum ≤
      drivers.length * 35184372088831 := by
    intro drivers
    induction drivers with
    | nil => exact Nat.zero_le _
    | cons driver rest ih =>
        have here : (run.firstScan driver).room ≤ _ := firstScan_room driver
        rw [List.map_cons, List.sum_cons, List.length_cons]
        omega
  have all := rooms run.request.drivers
  unfold Fits
  omega

/-- The nonces of the first plan. -/
private theorem total_le (fits : run.Fits) :
    total (markMoves run.request run.firstScan run.renamed) ≤ 18446744069414584320 := by
  have files : total (markMoves run.request run.firstScan run.renamed) ≤ _ := total_markMoves_le
  exact Nat.le_trans files fits

/-- The first plan places the files. -/
private theorem plan_pushed (fits : run.Fits) :
    run.plan.pushed = run.placement.map fun entry => (entry.1, wrapped entry.2.1) := by
  have ample : (run.request.drivers.map fun driver => (run.firstScan driver).room).sum ≤
      run.request.totalNonces := by
    rw [run.automatic]
    exact Nat.le_trans fits (by decide)
  have planned : Planner.plan run.request (fun driver => ⟨true, run.free driver, []⟩) =
      some ((Planner.moves run.request run.firstScan run.request.drivers).foldl
        (Planner.perform run.request run.firstScan) (Planner.start run.request)) :=
    Planner.plan_moves run.distinct (fun _ _ => ⟨rfl, rfl⟩) ample
  rw [run.planned] at planned
  have marked : (markMoves run.request run.firstScan run.renamed).map Prod.fst = _ := map_markMoves
  have starts : (Planner.start run.request).snToGen = toUInt64 run.request.startNonce :=
    (toUInt64_natCast run.request.startNonce_lt).symm
  rw [Option.some.inj planned, Planner.perform_pushed, ← marked, starts]
  exact (List.nil_append _).trans (pushes_moves small_markMoves)

/-! ## What the second run finds -/

private theorem mem_finished (fits : run.Fits) {driver : Text} {file : PlannedFile} :
    file ∈ run.finished driver ↔ ∃ place, (driver, place, true) ∈ run.placement ∧
      wrapped place = file := by
  have marked : run.finished driver = _ :=
    (files_markMoves run.distinct (plan_pushed fits) driver).1
  rw [marked]
  simp [placement]

private theorem mem_unfinished (fits : run.Fits) {driver : Text} {file : PlannedFile} :
    file ∈ run.unfinished driver ↔ ∃ place, (driver, place, false) ∈ run.placement ∧
      wrapped place = file := by
  have marked : run.unfinished driver = _ :=
    (files_markMoves run.distinct (plan_pushed fits) driver).2
  rw [marked]
  simp [placement]

/-- Where the first run's files are. -/
private structure Placed (run : Interruption) (place : PlannedFile) : Prop where
  pid : place.pid = run.request.plotId
  lower : run.request.startNonce ≤ place.sn
  upper : (place.sn + place.nonces : Int) ≤ run.request.startNonce + 18446744069414584320
  positive : 0 ≤ place.nonces
  small : place.nonces < 2147483647

private theorem placement_placed (fits : run.Fits) {driver : Text} {place : PlannedFile}
    {mark : Bool} (member : (driver, place, mark) ∈ run.placement) : Placed run place := by
  obtain ⟨before, nonces, after, split, rfl⟩ := mem_placed.mp member
  have all := total_le fits
  have small : nonces < 2147483647 := small_markMoves (.file driver nonces, mark) (by
    rw [split]
    exact List.mem_append_right _ (List.mem_cons_self ..))
  rw [split, total_append, total_cons] at all
  simp only [PlanMove.nonces] at all
  refine ⟨rfl, Nat.le_add_right .., ?_, Int.natCast_nonneg _, ?_⟩
  · simp only []
    omega
  · simp only []
    omega

/-- The position of a file is that of its place. -/
private theorem Placed.position {place : PlannedFile} (placed : Placed run place) :
    (run.position (wrapped place) : Int) = place.sn - run.request.startNonce := by
  obtain ⟨_, lower, upper, positive, _⟩ := placed
  have start := run.request.startNonce_lt
  show (toUInt64 ((toUInt64 place.sn : Int) - run.request.startNonce) : Int) = _
  unfold toUInt64
  omega

/-- A visible file does not wrap. -/
private theorem Placed.visible {place : PlannedFile} (placed : Placed run place) :
    run.Visible (wrapped place) ↔
      place.sn / 4294967296 = run.request.startNonce / 4294967296 ∧
        (place.sn + place.nonces : Int) < 18446744073709551616 := by
  obtain ⟨_, lower, upper, positive, _⟩ := placed
  have start := run.request.startNonce_lt
  show toUInt64 place.sn / 4294967296 = _ ∧ (toUInt64 place.sn + place.nonces : Int) < _ ↔ _
  unfold toUInt64
  omega

instance (file : PlannedFile) : Decidable (run.Visible file) :=
  inferInstanceAs (Decidable (_ ∧ _))

/-- The name of a planned file is read. -/
private theorem plotEnd_finished {place : PlannedFile} (placed : Placed run place) :
    run.request.plotEnd (finishedEntry (wrapped place)).name =
      some (if (wrapped place).sn / 4294967296 = run.request.startNonce / 4294967296 then
        some (toUInt64 ((wrapped place).sn + place.nonces)) else none) := by
  obtain ⟨pid, _, _, positive, small⟩ := placed
  have start : (wrapped place).sn < 18446744073709551616 := toUInt64_lt (place.sn : Int)
  have nonces : (place.nonces.toNat : Int) = place.nonces := Int.toNat_of_nonneg positive
  have own : (wrapped place).pid = run.request.plotId := pid
  have same : (wrapped place).nonces = place.nonces := rfl
  unfold finishedEntry
  rw [own, same]
  by_cases range : (wrapped place).sn / 4294967296 = run.request.startNonce / 4294967296
  · rw [if_pos range, PlanRequest.plotEnd_plotName start range, stoll_decimal (by omega),
      Option.map_some, nonces]
  · rw [if_neg range]
    exact PlanRequest.plotEnd_plotName_none run.request.plotId_lt start fun same => range same.2

private theorem finished_extension (file : PlannedFile) : ¬(finishedEntry file).hasExtension := by
  unfold DirEntry.hasExtension finishedEntry
  simpa using dot_notMem_plotName file.pid file.sn file.nonces.toNat

private theorem plotting_extension (file : PlannedFile) : (plottingEntry file).hasExtension := by
  have dot : '.' ∈ ".plotting".toList := by decide
  unfold DirEntry.hasExtension plottingEntry plottingName
  simp only [List.mem_append, dot, or_true, decide_true]

/-- What there is on a driver. -/
private theorem mem_entries {driver : Text} {entry : DirEntry} : entry ∈ run.entries driver ↔
    (∃ file ∈ run.finished driver, finishedEntry file = entry) ∨
      ∃ file ∈ run.begun driver, plottingEntry file = entry := by
  rw [(run.listed driver).mem_iff, List.mem_append, List.mem_map, List.mem_map]
  simp [finished]

private theorem readable (fits : run.Fits) (driver : Text) :
    ∀ entry ∈ (run.drives driver).entries, run.request.Readable entry := by
  intro entry member
  rcases mem_entries.mp member with ⟨file, inside, rfl⟩ | ⟨file, _, rfl⟩
  · obtain ⟨place, placed, rfl⟩ := (mem_finished fits).mp inside
    refine .inr (.inr ?_)
    rw [plotEnd_finished (placement_placed fits placed)]
    rfl
  · exact .inr (.inl (plotting_extension file))

/-- What a finished file counts. -/
private theorem countedEnd_finished {place : PlannedFile} (placed : Placed run place) :
    run.request.countedEnd (finishedEntry (wrapped place)) =
      if run.Visible (wrapped place) then place.sn + place.nonces.toNat
      else if (wrapped place).sn / 4294967296 = run.request.startNonce / 4294967296 then
        place.sn + place.nonces.toNat - 18446744073709551616
      else 0 := by
  have start := run.request.startNonce_lt
  have sn : (wrapped place).sn = toUInt64 place.sn := rfl
  unfold PlanRequest.countedEnd
  rw [if_neg (by simpa [finishedEntry] using finished_extension (wrapped place)),
    plotEnd_finished placed]
  by_cases range : (wrapped place).sn / 4294967296 = run.request.startNonce / 4294967296
  · rw [if_pos range, if_pos range]
    show toUInt64 ((wrapped place).sn + place.nonces) = _
    obtain ⟨_, lower, upper, positive, _⟩ := placed
    by_cases visible : run.Visible (wrapped place)
    · have below : ((wrapped place).sn + place.nonces : Int) < 18446744073709551616 := visible.2
      rw [if_pos visible]
      rw [sn] at range below ⊢
      unfold toUInt64 at *
      omega
    · have beyond : ¬((wrapped place).sn + place.nonces : Int) < 18446744073709551616 :=
        fun below => visible ⟨range, below⟩
      rw [if_neg visible]
      rw [sn] at range beyond ⊢
      unfold toUInt64 at *
      omega
  · rw [if_neg range, if_neg range, if_neg fun visible : run.Visible (wrapped place) =>
      range visible.1]
    rfl

/-- What the second run finds on a driver of the plan. -/
private def shownEnd (run : Interruption) (driver : Text) : Nat :=
  if (run.secondScan driver).lastSn < run.request.startNonce then 0
  else (run.secondScan driver).lastSn

/-- What a scan finds is not beyond a place from the start nonce on exactly when no
visible file ends beyond it. -/
private theorem lastSn_le_iff (fits : run.Fits) {driver : Text} {bound : Nat}
    (beyond : run.request.startNonce ≤ bound + 1) : (run.secondScan driver).lastSn ≤ bound ↔
      ∀ place, (driver, place, true) ∈ run.placement → run.Visible (wrapped place) →
        (place.sn + place.nonces : Int) ≤ bound := by
  refine PlanRequest.lastSn_le.trans ⟨?_, ?_⟩
  · intro all place inside visible
    have ends := all _ (mem_entries.mpr (.inl ⟨_, (mem_finished fits).mpr ⟨place, inside, rfl⟩, rfl⟩))
    have placed := placement_placed fits inside
    have positive := placed.positive
    rw [countedEnd_finished placed, if_pos visible] at ends
    omega
  · intro all entry member
    rcases mem_entries.mp member with ⟨file, finished, rfl⟩ | ⟨file, _, rfl⟩
    · obtain ⟨place, inside, rfl⟩ := (mem_finished fits).mp finished
      have placed := placement_placed fits inside
      have upper := placed.upper
      have positive := placed.positive
      rw [countedEnd_finished placed]
      split
      · next visible =>
          have ends := all place inside visible
          omega
      · split <;> omega
    · unfold PlanRequest.countedEnd
      rw [if_pos (.inr (plotting_extension file))]
      exact Nat.zero_le _

/-- The second run shows the ends of the visible finished files. -/
private theorem showsEnds (fits : run.Fits) : ShowsEnds run.request.plotId run.request.startNonce
    (fun place => run.Visible (wrapped place)) (shownEnd run)
    (markMoves run.request run.firstScan run.renamed) := by
  intro driver place
  have ends : ∀ bound, run.request.startNonce ≤ bound + 1 →
      ((run.secondScan driver).lastSn ≤ bound ↔ _) := fun bound beyond =>
    lastSn_le_iff fits beyond
  unfold shownEnd
  constructor
  · intro below file inside visible
    have placed := placement_placed fits inside
    have lower := placed.lower
    have positive := placed.positive
    split at below
    · next early =>
        have ended := (ends (run.request.startNonce - 1) (by omega)).mp (by omega) file inside visible
        omega
    · next late =>
        have ended := (ends _ (by omega)).mp (Nat.le_refl _) file inside visible
        omega
  · intro all
    split
    · exact Nat.zero_le _
    · next late =>
        have bounded := (ends (max place (run.request.startNonce - 1)) (by omega)).mpr
          fun file inside visible => by
            have := all file inside visible
            omega
        omega

/-- What the second run finds, from the start nonce on. -/
private theorem shown_markMoves (fits : run.Fits) : Shown run.request.startNonce
    (fun driver => (run.secondScan driver).lastSn) (shownEnd run) run.request.startNonce
    (markMoves run.request run.firstScan run.renamed) := by
  have start := run.request.startNonce_lt
  constructor
  · intro driver
    have below : (run.secondScan driver).lastSn ≤ 18446744073709551615 :=
      (lastSn_le_iff fits (by omega)).mpr fun place inside visible => by
        have ended := ((placement_placed fits inside).visible.mp visible).2
        omega
    unfold shownEnd
    split <;> omega
  · intro driver here begins
    unfold shownEnd
    split <;> omega
  · intro before driver after split beyond
    have nothing : (run.secondScan driver).lastSn = 0 := by
      refine Nat.le_zero.mp (PlanRequest.lastSn_le.mpr fun entry member => ?_)
      rcases mem_entries.mp member with ⟨file, finished, rfl⟩ | ⟨file, _, rfl⟩
      · obtain ⟨place, inside, rfl⟩ := (mem_finished fits).mp finished
        have late := Nat.le_trans beyond (le_of_visit run.distinct split inside)
        have counted := countedEnd_finished (placement_placed fits inside)
        obtain ⟨_, _, upper, positive, _⟩ := placement_placed fits inside
        have wraps : (wrapped place).sn = place.sn - 18446744073709551616 := by
          show toUInt64 place.sn = _
          unfold toUInt64
          omega
        have other : ¬(wrapped place).sn / 4294967296 = run.request.startNonce / 4294967296 := by
          rw [wraps]
          omega
        rw [counted, if_neg fun visible : run.Visible (wrapped place) => other visible.1,
          if_neg other]
      · exact Nat.le_of_eq (if_pos (.inr (plotting_extension file)))
    refine ⟨nothing, ?_⟩
    unfold shownEnd
    rw [nothing, ite_self]

/-- The nonces of some files. -/
private def noncesOf (files : List PlannedFile) : Nat := (files.map fun file => file.nonces.toNat).sum

private theorem filesBytes_eq (files : List PlannedFile) (positive : ∀ file ∈ files, 0 ≤ file.nonces) :
    filesBytes files = noncesOf files * plotSize := by
  unfold filesBytes noncesOf
  induction files with
  | nil => exact (Int.zero_mul _).symm
  | cons file rest ih =>
      obtain ⟨here, later⟩ := List.forall_mem_cons.mp positive
      rw [List.map_cons, List.sum_cons, List.map_cons, List.sum_cons, ih later, Int.natCast_add,
        Int.add_mul, Int.toNat_of_nonneg here]

/-- The bytes of the file that was begun on a driver. -/
private def begunBytes (run : Interruption) (driver : Text) : Nat :=
  ((run.begun driver).map fun file => file.nonces.toNat * plotSize).getD 0

private theorem credit_eq (driver : Text) :
    (run.drives driver).credit = run.begunBytes driver := by
  have entries : (run.drives driver).entries = run.entries driver := rfl
  unfold Drive.credit begunBytes
  rw [entries]
  cases first : (run.entries driver).find? DirEntry.leftover with
  | none =>
      have none_left := List.find?_eq_none.mp first
      cases begun : run.begun driver with
      | none => rfl
      | some file =>
          refine absurd ?_ (none_left (plottingEntry file) (mem_entries.mpr (.inr ⟨file, begun, rfl⟩)))
          unfold DirEntry.leftover
          rw [plotting_extension]
          rfl
  | some entry =>
      have leftover := List.find?_some first
      rcases mem_entries.mp (List.mem_of_find?_eq_some first) with ⟨file, _, rfl⟩ | ⟨file, begun, rfl⟩
      · refine absurd ?_ (finished_extension file)
        unfold DirEntry.leftover at leftover
        exact (Bool.and_eq_true_iff.mp leftover).2
      · rw [Option.mem_def.mp begun]
        rfl

private theorem created_eq (driver : Text) : ((run.entries driver).map DirEntry.size).sum =
    noncesOf (run.finished driver) * plotSize + run.begunBytes driver := by
  rw [((run.listed driver).map _).sum_eq, List.map_append, List.sum_append, List.map_map,
    List.map_map, noncesOf, ← List.sum_map_mul_right]
  refine congrArg₂ (· + ·) rfl ?_
  unfold begunBytes
  cases run.begun driver with
  | none => rfl
  | some file => exact List.sum_singleton

/-- The files of the first run fit on their drivers. -/
private theorem created_le (fits : run.Fits) {driver : Text} (listed : driver ∈ run.request.drivers) :
    noncesOf (run.finished driver) * plotSize + run.begunBytes driver ≤ run.free driver ∧
      (noncesOf (run.finished driver) = 0 ∨
        (noncesOf (run.finished driver) * plotSize : Int) ≤ toInt64 (run.free driver)) := by
  have parts : run.plan.files driver = run.finished driver ++ run.unfinished driver :=
    (List.take_append_drop ..).symm
  by_cases nothing : run.plan.files driver = []
  · have no_finished : run.finished driver = [] := by
      unfold finished
      rw [nothing, List.take_nil]
    have no_begun : run.begun driver = none := by
      rw [Option.eq_none_iff_forall_not_mem]
      intro file begun
      have member := run.begun_mem driver file begun
      rw [nothing, List.drop_nil] at member
      cases member
    unfold begunBytes
    rw [no_finished, no_begun]
    exact ⟨by simp [noncesOf], .inl rfl⟩
  · have planning := Planner.reachable_planning (Planner.plan_reachable run.planned)
    have visited := (Planner.plan_visited run.planned).mpr ⟨listed, rfl⟩
    obtain ⟨left, kept⟩ := planning.spaces driver visited _ (rfl : _ = some (run.firstScan driver))
    have room := kept nothing
    have positive : ∀ file ∈ run.plan.files driver, 0 ≤ file.nonces := by
      intro file member
      rw [parts, List.mem_append] at member
      rcases member with finished | unfinished
      · obtain ⟨place, inside, rfl⟩ := (mem_finished fits).mp finished
        exact (placement_placed fits inside).positive
      · obtain ⟨place, inside, rfl⟩ := (mem_unfinished fits).mp unfinished
        exact (placement_placed fits inside).positive
    have begun : run.begunBytes driver ≤ noncesOf (run.unfinished driver) * plotSize := by
      unfold begunBytes
      cases begun : run.begun driver with
      | none => exact Nat.zero_le _
      | some file =>
          refine Nat.mul_le_mul_right _ (List.single_le_sum (fun _ _ => Nat.zero_le _) _ ?_)
          exact List.mem_map_of_mem (f := fun file : PlannedFile => file.nonces.toNat)
            (run.begun_mem driver file begun)
    have all : noncesOf (run.plan.files driver) =
        noncesOf (run.finished driver) + noncesOf (run.unfinished driver) := by
      unfold noncesOf
      rw [parts, List.map_append, List.sum_append]
    have most := toInt64_le (run.free driver)
    have free : (run.firstScan driver).free = toInt64 (run.free driver) := rfl
    have size : plotSize = 262144 := rfl
    rw [filesBytes_eq _ positive, all, free] at left
    rw [size] at left begun ⊢
    constructor
    · omega
    · refine .inr ?_
      omega

/-- The second run finds the room that the finished files leave. -/
private theorem secondScan_room (fits : run.Fits) {driver : Text}
    (listed : driver ∈ run.request.drivers) : (run.secondScan driver).room =
      (run.firstScan driver).room -
        ((firstPieces run.request.maxNoncesPerFile (run.firstScan driver).room ++
          secondPieces run.request.maxNoncesPerFile (run.firstScan driver).room).take
            (run.renamed driver)).sum := by
  have sizes : (run.plan.files driver).map (fun file => file.nonces.toNat) =
      firstPieces run.request.maxNoncesPerFile (run.firstScan driver).room ++
        secondPieces run.request.maxNoncesPerFile (run.firstScan driver).room := by
    have placed_files := placed_filesOf run.request.plotId driver run.request.startNonce
      (markMoves run.request run.firstScan run.renamed)
    have sizes : (filesOf driver (markMoves run.request run.firstScan run.renamed)).map Prod.fst =
        _ := sizes_markMoves run.distinct listed
    rw [← sizes, ← placed_files,
      List.map_map, Planner.files, plan_pushed fits, List.filter_map, List.map_map, List.map_map]
    rfl
  obtain ⟨created, room⟩ := created_le fits listed
  have found : (run.secondScan driver).free =
      toInt64 (toInt64 (run.free driver) - noncesOf (run.finished driver) * plotSize) := by
    have free : (run.drives driver).freeBytes =
        run.free driver - ((run.entries driver).map DirEntry.size).sum := rfl
    have bytes : ((run.drives driver).freeBytes + (run.drives driver).credit : Int) =
        run.free driver + -(noncesOf (run.finished driver) * plotSize) := by
      rw [credit_eq, free, created_eq]
      omega
    unfold secondScan
    rw [bytes, ← toInt64_add_toInt64]
    rfl
  have first : (run.firstScan driver).free = toInt64 (run.free driver) := rfl
  have upper : toInt64 (run.free driver) < 9223372036854775808 ∧
      -9223372036854775808 ≤ toInt64 (run.free driver) := by
    unfold toInt64
    omega
  have size : plotSize = 262144 := rfl
  rw [← sizes, ← List.map_take]
  show _ = _ - noncesOf (run.finished driver)
  unfold Scan.room
  rw [toNat_tdiv _ (by decide), toNat_tdiv _ (by decide), found, first]
  generalize toInt64 (run.free driver : Int) = free at room upper
  rw [size] at room ⊢
  rcases room with nothing | room
  · rw [nothing, Int.natCast_zero, Int.zero_mul, Int.sub_zero, toInt64_eq upper.2 upper.1,
      Nat.sub_zero]
  · rw [toInt64_eq (by omega) (by omega)]
    omega

/-- The order of the places is that of the positions. -/
private theorem unbroken_iff (fits : run.Fits) :
    Unbroken (fun other driver nonces => run.ScannedBefore other driver nonces)
      (fun place => run.Visible (wrapped place)) run.placement ↔ run.Continues := by
  have position : ∀ {driver place mark}, (driver, place, mark) ∈ run.placement →
      (run.position (wrapped place) : Int) = place.sn - run.request.startNonce :=
    fun inside => (placement_placed fits inside).position
  constructor
  · rintro ⟨earlier, adjacent⟩
    constructor
    · intro driver file unfinished other hit finished seen scanned
      obtain ⟨place, there, rfl⟩ := (mem_unfinished fits).mp unfinished
      obtain ⟨found, inside, rfl⟩ := (mem_finished fits).mp finished
      have before := earlier driver place there other found inside seen scanned
      have first := position inside
      have second := position there
      omega
    · intro driver file unfinished other hit finished ends
      obtain ⟨place, there, rfl⟩ := (mem_unfinished fits).mp unfinished
      obtain ⟨found, inside, rfl⟩ := (mem_finished fits).mp finished
      have first := position inside
      have second := position there
      have nonces : (wrapped found).nonces = found.nonces := rfl
      exact adjacent driver place there other found inside (by omega)
  · rintro ⟨earlier, adjacent⟩
    constructor
    · intro driver place there other found inside seen scanned
      have before := earlier driver _ ((mem_unfinished fits).mpr ⟨place, there, rfl⟩) other _
        ((mem_finished fits).mpr ⟨found, inside, rfl⟩) seen scanned
      have first := position inside
      have second := position there
      omega
    · intro driver place there other found inside ends
      have first := position inside
      have second := position there
      have nonces : (wrapped found).nonces = found.nonces := rfl
      exact adjacent driver _ ((mem_unfinished fits).mpr ⟨place, there, rfl⟩) other _
        ((mem_finished fits).mpr ⟨found, inside, rfl⟩) (by omega)

/-- A second run resumes the plan of an interrupted one exactly when what it finds does
not break the order of the files. -/
theorem resumes_iff (run : Interruption) (fits : run.Fits) : run.Resumes ↔ run.Continues := by
  have found : ∀ driver ∈ run.request.drivers, (run.drives driver).present ∧
      run.request.scan (run.drives driver) = some (run.secondScan driver) := fun driver _ =>
    ⟨rfl, PlanRequest.scan_of_readable (readable fits driver)⟩
  have rooms : ∀ driver ∈ run.request.drivers, (run.secondScan driver).room = _ :=
    fun _ listed => secondScan_room fits listed
  have ample : (run.request.drivers.map fun driver => (run.secondScan driver).room).sum ≤
      run.request.totalNonces := by
    have less : (run.request.drivers.map fun driver => (run.secondScan driver).room).sum ≤
        (run.request.drivers.map fun driver => (run.firstScan driver).room).sum :=
      List.sum_le_sum fun driver listed => (rooms driver listed).trans_le (Nat.sub_le ..)
    rw [run.automatic]
    exact Nat.le_trans (Nat.le_trans less fits) (by decide)
  have planned := Planner.plan_moves run.distinct found ample
  generalize second : (Planner.moves run.request run.secondScan run.request.drivers).foldl
    (Planner.perform run.request run.secondScan) (Planner.start run.request) = p at planned
  have pushed : p.pushed = Planner.pushes run.request.plotId
      (fun driver => (run.secondScan driver).lastSn) run.request.startNonce
      (unmarked (markMoves run.request run.firstScan run.renamed)) := by
    rw [← second, Planner.perform_pushed, unmarked_markMoves rooms]
    exact List.nil_append _
  have left : ∀ driver, ((unmarkedFiles run.placement).filter (·.1 = driver)).map Prod.snd =
      run.unfinished driver := by
    intro driver
    have marked : run.unfinished driver = _ :=
      (files_markMoves run.distinct (plan_pushed fits) driver).2
    rw [marked, unmarkedFiles, List.filter_map, List.map_map, List.filter_filter, List.filter_filter]
    refine congrArg _ (List.filter_congr fun entry _ => ?_)
    exact Bool.and_comm ..
  have same_files : run.Resumes ↔ p.pushed = unmarkedFiles run.placement := by
    constructor
    · rintro ⟨other, planned_too, files⟩
      obtain rfl := Option.some.inj (planned.symm.trans planned_too)
      refine eq_of_files (pushed ▸ pushes_drivers ..) fun driver member => ?_
      obtain ⟨pair, inside, rfl⟩ := List.mem_map.mp member
      have writers := (Planner.reachable_planning (Planner.plan_reachable planned)).writers
      rw [left]
      exact files pair.1 ((Planner.plan_visited planned).mp (writers pair inside)).1
    · intro same
      refine ⟨p, planned, fun driver _ => ?_⟩
      rw [← left, ← same]
      rfl
  have all := total_le fits
  have begins := run.request.startNonce_lt
  have follows : Planner.pushes run.request.plotId _ _ _ = _ ↔ _ :=
    pushes_unmarked (Nat.le_refl _) (Nat.le_refl _) (.inl begins) (by omega) small_markMoves
      (shown_markMoves fits)
  rw [toUInt64_natCast begins] at follows
  rw [same_files, pushed, placement, follows,
    follows_iff (visits_markMoves run.distinct) (showsEnds fits)]
  exact unbroken_iff fits

end Interruption

/-- Two drivers, files of at most 64 nonces, and as many nonces as there is room for. -/
def automaticRequest : PlanRequest where
  plotId := 1
  startNonce := 0
  totalNonces := 18446744073709551615
  weight := 16
  drivers := ["a".toList, "b".toList]
  plotId_lt := twoDrivers.plotId_lt
  startNonce_lt := twoDrivers.startNonce_lt

/-- Room for 72 nonces on one of the drivers and for 64 on the other. -/
def automaticFree (driver : Text) : Nat := if driver = "a".toList then 18874368 else 16777216

private theorem automatic_planned :
    (Planner.plan automaticRequest fun driver => ⟨true, automaticFree driver, []⟩).isSome := rfl

/-- The two files of one driver are finished, and the other driver has none. -/
def unevenRun : Interruption where
  request := automaticRequest
  automatic := rfl
  distinct := by decide
  free := automaticFree
  plan := (Planner.plan automaticRequest fun driver => ⟨true, automaticFree driver, []⟩).get
    automatic_planned
  planned := (Option.some_get _).symm
  renamed driver := if driver = "a".toList then 2 else 0
  begun _ := none
  begun_mem _ _ none := nomatch none
  entries driver := ((((Planner.plan automaticRequest fun driver =>
    ⟨true, automaticFree driver, []⟩).get automatic_planned).files driver).take
      (if driver = "a".toList then 2 else 0)).map finishedEntry
  listed _ := by simp

private theorem unevenRun_fits : unevenRun.Fits := Interruption.fits_of_length (by decide)

/-- A run that does not resume. -/
theorem resumes_iff_unevenRun :
    unevenRun.Fits ∧ (unevenRun.Resumes ↔ unevenRun.Continues) :=
  ⟨unevenRun_fits, Interruption.resumes_iff unevenRun unevenRun_fits⟩

/-- The finished file of the second pass leads the planner past the other driver's file. -/
theorem not_resumes : unevenRun.Fits ∧ ¬unevenRun.Resumes := by
  refine ⟨unevenRun_fits, ?_⟩
  rintro ⟨p, planned, files⟩
  have wanted : unevenRun.unfinished "b".toList = [⟨1, 64, 64⟩] := by decide +kernel
  have assigned : (Planner.plan unevenRun.request unevenRun.drives).map (·.files "b".toList) =
      some [⟨1, 136, 64⟩] := by decide +kernel
  rw [planned, Option.map_some, files "b".toList (by decide), wanted] at assigned
  exact absurd assigned (by decide)

end HyperPlotter.Plan

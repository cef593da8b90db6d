import HyperPlotter.Plan.Pieces

/-!
# Plans as lists of moves

With enough nonces to generate, which drivers the planner visits and which files
it pushes is known from the room on the drivers. Only the start nonces of the
files depend on what was found and pushed before.
-/

namespace HyperPlotter.Plan

open Foundation Poc Pipeline

/-- The first visit of a driver, or a file of some nonces on it. -/
inductive PlanMove where
  | visit (driver : Text)
  | file (driver : Text) (nonces : Nat)
deriving DecidableEq

/-- The nonces there is room for after a scan. -/
def Scan.room (scan : Scan) : Nat := (max 0 (scan.free.tdiv plotSize)).toNat

namespace Planner

variable (request : PlanRequest) (scans : Text → Scan)

/-- The nonces there is room for on a driver. -/
def room (p : Planner) (driver : Text) : Nat :=
  (max 0 ((p.freeSpaces driver).tdiv plotSize)).toNat

/-- The effect of a move, given what the scans find. -/
def perform (p : Planner) : PlanMove → Planner
  | .visit driver =>
    { p with
      visited := p.visited ++ [driver]
      freeSpaces := Function.update p.freeSpaces driver (scans driver).free
      snToGen := max p.snToGen (scans driver).lastSn }
  | .file driver nonces => p.push request driver nonces

/-- The files of one driver. -/
def fileMoves (driver : Text) (sizes : List Nat) : List PlanMove := sizes.map (.file driver)

variable {request scans} {p : Planner} {align : Nat} {driver other : Text}

/-! ## The files of one driver -/

/-- The next file, when there are nonces enough. -/
theorem nonces_eq (ample : p.room driver ≤ p.noncesToGen) :
    p.nonces request align driver =
      min request.maxNoncesPerFile (p.room driver) / align * align := by
  have most := maxNoncesPerFile_lt request
  have exact : toInt64 request.maxNoncesPerFile = request.maxNoncesPerFile :=
    toInt64_eq (by omega) (by omega)
  unfold room at ample ⊢
  unfold nonces
  simp only [exact]
  generalize (p.freeSpaces driver).tdiv plotSize = quotient at ample ⊢
  have same : min p.noncesToGen (max 0 (min (request.maxNoncesPerFile : Int) quotient)).toNat =
      min request.maxNoncesPerFile (max 0 quotient).toNat := by omega
  rw [same]

/-- The room of a driver is a quotient. -/
theorem room_eq (p : Planner) (driver : Text) :
    p.room driver = (p.freeSpaces driver / plotSize).toNat := toNat_tdiv _ (by decide)

/-- A file takes its nonces off the room. -/
theorem room_push {n : Nat} (nonzero : n ≠ 0) (fits : n ≤ p.room driver)
    (upper : p.freeSpaces driver < 9223372036854775808) :
    (p.push request driver n).room driver = p.room driver - n ∧
      (p.push request driver n).freeSpaces driver < 9223372036854775808 := by
  have size : plotSize = 262144 := rfl
  rw [room_eq, size] at fits
  have spent : (p.push request driver n).freeSpaces driver = p.freeSpaces driver - n * 262144 := by
    have taken : (p.push request driver n).freeSpaces driver =
        toInt64 (p.freeSpaces driver - n * plotSize) := Function.update_self ..
    rw [taken, size]
    exact toInt64_eq (by omega) (by omega)
  rw [room_eq, room_eq, spent, size]
  omega

/-- What the files of one driver change. -/
structure FilesAdded (driver : Text) (sizes : List Nat) (p q : Planner) : Prop where
  visited : q.visited = p.visited
  noncesToGen : q.noncesToGen = p.noncesToGen - sizes.sum
  others : ∀ other, other ≠ driver → q.freeSpaces other = p.freeSpaces other
  room : q.room driver = p.room driver - sizes.sum
  small : q.freeSpaces driver < 9223372036854775808

/-- File moves add their files. -/
theorem perform_filesAdded {sizes : List Nat} (positive : ∀ n ∈ sizes, 0 < n)
    (fits : sizes.sum ≤ p.room driver) (upper : p.freeSpaces driver < 9223372036854775808) :
    FilesAdded driver sizes p ((fileMoves driver sizes).foldl (perform request scans) p) := by
  induction sizes generalizing p with
  | nil => exact ⟨rfl, rfl, fun _ _ => rfl, rfl, upper⟩
  | cons n rest ih =>
      obtain ⟨here, later⟩ := List.forall_mem_cons.mp positive
      rw [List.sum_cons] at fits
      obtain ⟨room, small⟩ : (p.push request driver n).room driver = p.room driver - n ∧ _ :=
        room_push (by omega) (by omega) upper
      have remaining : rest.sum ≤ (p.push request driver n).room driver := by omega
      obtain ⟨visited, left, others, rooms, smaller⟩ := ih later remaining small
      refine ⟨visited, ?_, ?_, ?_, smaller⟩
      · rw [List.sum_cons, ← Nat.sub_sub]
        exact left
      · intro other differ
        rw [← show (p.push request driver n).freeSpaces other = _ from Function.update_of_ne differ ..]
        exact others other differ
      · rw [List.sum_cons, ← Nat.sub_sub, ← room]
        exact rooms

/-- The `while` loop pushes what fits. -/
theorem fill_eq (rounds : Nat) (upper : p.freeSpaces driver < 9223372036854775808)
    (ample : p.room driver ≤ p.noncesToGen) (enough : p.room driver ≤ rounds) :
    p.fill request align driver rounds =
      (fileMoves driver (pieces request.maxNoncesPerFile align (p.room driver))).foldl
        (perform request scans) p := by
  induction rounds generalizing p with
  | zero =>
      rw [pieces_nil (.inl (by simp [show p.room driver = 0 by omega]))]
      rfl
  | succ rounds ih =>
      rw [fill]
      split
      · rename_i nothing
        rw [pieces_nil (.inl (by simp [show p.room driver = 0 by omega]))]
        rfl
      · simp only []
        rw [nonces_eq ample]
        split
        · rename_i ended
          rw [pieces_nil ended]
          rfl
        · rename_i proceeds
          generalize next : min request.maxNoncesPerFile (p.room driver) / align * align = n
            at proceeds ⊢
          have below : n ≤ p.room driver := by
            have := Nat.div_mul_le_self (min request.maxNoncesPerFile (p.room driver)) align
            omega
          obtain ⟨room, small⟩ : (p.push request driver n).room driver = p.room driver - n ∧ _ :=
            room_push (by omega) below upper
          have left : (p.push request driver n).noncesToGen = p.noncesToGen - n := rfl
          rw [pieces_cons next (by omega) (by omega), ← room]
          exact ih small (by omega) (by omega)

/-! ## Both passes -/

variable (request scans) in
/-- What the first pass does with a driver. -/
def firstMoves (driver : Text) : List PlanMove :=
  .visit driver :: fileMoves driver (firstPieces request.maxNoncesPerFile (scans driver).room)

variable (request scans) in
/-- What the second pass does with a driver. -/
def secondMoves (driver : Text) : List PlanMove :=
  fileMoves driver (secondPieces request.maxNoncesPerFile (scans driver).room)

variable (request scans) in
/-- What the planner does. -/
def moves (drivers : List Text) : List PlanMove :=
  drivers.flatMap (firstMoves request scans) ++ drivers.flatMap (secondMoves request scans)

variable (request scans) in
/-- The room the first pass leaves on a driver. -/
def leftRoom (driver : Text) : Nat :=
  (scans driver).room - (firstPieces request.maxNoncesPerFile (scans driver).room).sum

variable {drives : Text → Drive} {q : Planner} {drivers : List Text}

/-- What the first pass leaves of the nonces, the drivers and their room. -/
structure AfterFirst (request : PlanRequest) (scans : Text → Scan) (drivers : List Text)
    (extra : Nat) (p q : Planner) : Prop where
  visited : ∀ driver, driver ∈ p.visited ∨ driver ∈ drivers → driver ∈ q.visited
  others : ∀ driver ∉ drivers, q.freeSpaces driver = p.freeSpaces driver
  rooms : ∀ driver ∈ drivers, q.room driver = leftRoom request scans driver ∧
    q.freeSpaces driver < 9223372036854775808
  ample : extra + (drivers.map (leftRoom request scans)).sum ≤ q.noncesToGen

/-- A visit makes room as the scan found it. -/
private theorem room_visit (p : Planner) (driver : Text) :
    (perform request scans p (.visit driver)).room driver = (scans driver).room := by
  have free : (perform request scans p (.visit driver)).freeSpaces driver = (scans driver).free :=
    Function.update_self ..
  unfold Planner.room Scan.room
  rw [free]

/-- A driver in the first pass. -/
private theorem serve_first (new : driver ∉ p.visited) (present : (drives driver).present)
    (scanned : request.scan (drives driver) = some (scans driver))
    (ample : (scans driver).room ≤ p.noncesToGen) :
    p.serve request drives 64 driver =
        some ((firstMoves request scans driver).foldl (perform request scans) p) ∧
      FilesAdded driver (firstPieces request.maxNoncesPerFile (scans driver).room)
        (perform request scans p (.visit driver))
        ((firstMoves request scans driver).foldl (perform request scans) p) := by
  have free : (perform request scans p (.visit driver)).freeSpaces driver = (scans driver).free :=
    Function.update_self ..
  have room : (perform request scans p (.visit driver)).room driver = _ := room_visit p driver
  have upper : (perform request scans p (.visit driver)).freeSpaces driver <
      9223372036854775808 := by
    rw [free]
    exact scan_free_lt scanned
  have enough : (perform request scans p (.visit driver)).room driver ≤
      (perform request scans p (.visit driver)).noncesToGen := by
    rw [room]
    exact ample
  have bound : (firstPieces request.maxNoncesPerFile (scans driver).room).sum ≤ _ ∧ _ :=
    pieces_bound
  constructor
  · unfold serve visit
    rw [if_pos present, if_neg new, scanned]
    refine congrArg some ?_
    rw [firstMoves, List.foldl_cons, firstPieces, ← room]
    exact fill_eq _ upper enough enough
  · exact perform_filesAdded (fun n member => (bound.2 n member).1) (by omega) upper

/-- The first pass. -/
private theorem allocate_first (extra : Nat) (distinct : drivers.Nodup)
    (new : ∀ driver ∈ drivers, driver ∉ p.visited)
    (found : ∀ driver ∈ drivers, (drives driver).present ∧
      request.scan (drives driver) = some (scans driver))
    (ample : extra + (drivers.map fun driver => (scans driver).room).sum ≤ p.noncesToGen) :
    p.allocate request drives 64 drivers = some
        ((drivers.flatMap (firstMoves request scans)).foldl (perform request scans) p) ∧
      AfterFirst request scans drivers extra p
        ((drivers.flatMap (firstMoves request scans)).foldl (perform request scans) p) := by
  induction drivers generalizing p extra with
  | nil =>
      exact ⟨rfl, fun _ member => member.resolve_right List.not_mem_nil, fun _ _ => rfl,
        List.forall_mem_nil _, ample⟩
  | cons driver rest ih =>
      obtain ⟨notin, distinct⟩ := List.nodup_cons.mp distinct
      obtain ⟨here, later⟩ := List.forall_mem_cons.mp found
      rw [List.map_cons, List.sum_cons] at ample
      obtain ⟨served, visited, left, others, room, upper⟩ :=
        serve_first (new driver (List.mem_cons_self ..)) here.1 here.2 (by omega)
      generalize next : (firstMoves request scans driver).foldl (perform request scans) p = r
        at served visited left others room upper
      have writers : r.visited = p.visited ++ [driver] := visited
      have bound : (firstPieces request.maxNoncesPerFile (scans driver).room).sum ≤
          (scans driver).room := pieces_bound.1
      have rooms : r.room driver = leftRoom request scans driver := by
        rw [room, room_visit]
        rfl
      obtain ⟨allocated, result⟩ := @ih r (extra + leftRoom request scans driver) distinct
        (by
          intro other member old
          rw [writers, List.mem_append, List.mem_singleton] at old
          rcases old with old | rfl
          · exact new other (List.mem_cons_of_mem _ member) old
          · exact notin member) later
        (by
          rw [left]
          unfold leftRoom
          show _ ≤ p.noncesToGen - _
          omega)
      rw [List.flatMap_cons, List.foldl_append, next]
      refine ⟨?_, ?_, ?_, ?_, ?_⟩
      · rw [allocate, List.foldlM_cons, served]
        exact allocated
      · intro other member
        refine result.visited other ?_
        rw [writers, List.mem_append, List.mem_singleton]
        rcases member with old | listed
        · exact .inl (.inl old)
        · exact (List.mem_cons.mp listed).imp_left .inr
      · intro other absent
        rw [List.mem_cons, not_or] at absent
        rw [result.others other absent.2, others other absent.1]
        exact Function.update_of_ne absent.1 ..
      · intro other member
        rcases List.mem_cons.mp member with rfl | member
        · have kept := result.others other notin
          unfold Planner.room at rooms ⊢
          rw [kept]
          exact ⟨rooms, upper⟩
        · exact result.rooms other member
      · rw [List.map_cons, List.sum_cons, ← Nat.add_assoc]
        exact result.ample

/-- The second pass. -/
private theorem allocate_second (distinct : drivers.Nodup)
    (ready : ∀ driver ∈ drivers, driver ∈ p.visited ∧ (drives driver).present ∧
      p.room driver = leftRoom request scans driver ∧ p.freeSpaces driver < 9223372036854775808)
    (ample : (drivers.map (leftRoom request scans)).sum ≤ p.noncesToGen) :
    p.allocate request drives 8 drivers = some
      ((drivers.flatMap (secondMoves request scans)).foldl (perform request scans) p) := by
  induction drivers generalizing p with
  | nil => rfl
  | cons driver rest ih =>
      obtain ⟨notin, distinct⟩ := List.nodup_cons.mp distinct
      obtain ⟨⟨visited, present, room, upper⟩, later⟩ := List.forall_mem_cons.mp ready
      rw [List.map_cons, List.sum_cons] at ample
      have bound : (secondPieces request.maxNoncesPerFile (scans driver).room).sum ≤
          leftRoom request scans driver ∧ ∀ n ∈ _, 0 < n ∧ _ := pieces_bound
      have served : p.serve request drives 8 driver =
          some ((secondMoves request scans driver).foldl (perform request scans) p) := by
        unfold serve visit
        rw [if_pos present, if_pos visited]
        refine congrArg some ?_
        show p.fill request 8 driver p.noncesToGen = _
        rw [fill_eq _ upper (by omega) (by omega), room]
        rfl
      obtain ⟨writers, left, others, _, _⟩ : FilesAdded driver
          (secondPieces request.maxNoncesPerFile (scans driver).room) p
          ((secondMoves request scans driver).foldl (perform request scans) p) :=
        perform_filesAdded (fun n member => (bound.2 n member).1) (by omega) upper
      rw [allocate, List.foldlM_cons, served, List.flatMap_cons, List.foldl_append]
      refine ih distinct ?_ (by omega)
      intro other member
      have differ : other ≠ driver := fun same => notin (same ▸ member)
      obtain ⟨old, exists_too, rooms, small⟩ := later other member
      unfold Planner.room at rooms ⊢
      rw [writers, others other differ]
      exact ⟨old, exists_too, rooms, small⟩

/-- With nonces enough for the room of all drivers, the planner makes its moves. -/
theorem plan_moves (distinct : request.drivers.Nodup)
    (found : ∀ driver ∈ request.drivers, (drives driver).present ∧
      request.scan (drives driver) = some (scans driver))
    (ample : (request.drivers.map fun driver => (scans driver).room).sum ≤ request.totalNonces) :
    plan request drives = some ((moves request scans request.drivers).foldl
      (perform request scans) (start request)) := by
  obtain ⟨first, after⟩ := allocate_first (p := start request) 0 distinct
    (fun _ _ => List.not_mem_nil) found (by simpa [start] using ample)
  have ready : ∀ driver ∈ request.drivers, _ ∈ Planner.visited _ ∧ (drives driver).present ∧ _ :=
    fun driver member => ⟨after.visited driver (.inr member), (found driver member).1,
      after.rooms driver member⟩
  have rest := allocate_second distinct ready (by simpa using after.ample)
  unfold plan moves
  rw [first, Option.bind_eq_bind, Option.bind_some, rest, List.foldl_append]

end Planner

end HyperPlotter.Plan

import HyperPlotter.Plan.Moves

/-!
# Moves that are not made again

A list of moves some of which are marked. Without the marked ones the files get
their start nonces again, if what the drivers are found to hold takes the place of
the marked files.
-/

namespace HyperPlotter.Plan

open Foundation Poc Pipeline

/-- The nonces of a move. -/
def PlanMove.nonces : PlanMove → Nat
  | .visit _ => 0
  | .file _ nonces => nonces

namespace Marks

/-- The nonces of some moves. -/
def total (moves : List (PlanMove × Bool)) : Nat := (moves.map fun pair => pair.1.nonces).sum

/-- The moves that are made again. -/
def unmarked (moves : List (PlanMove × Bool)) : List PlanMove :=
  (moves.filter fun pair => !pair.2).map Prod.fst

/-- The files of the moves with their marks, one after the other, at places that do not
wrap. -/
def placed (plotId : Nat) : Nat → List (PlanMove × Bool) → List (Text × PlannedFile × Bool)
  | _, [] => []
  | sn, (.visit _, _) :: rest => placed plotId sn rest
  | sn, (.file driver nonces, mark) :: rest =>
    (driver, ⟨plotId, sn, nonces⟩, mark) :: placed plotId (sn + nonces) rest

/-- The file at a place, its start nonce an `uint64_t`. -/
def wrapped (file : PlannedFile) : PlannedFile := { file with sn := toUInt64 file.sn }

end Marks

namespace Planner

/-- The files of moves that are made with nothing but the ends the drivers show. -/
def pushes (plotId : Nat) (last : Text → Nat) : Nat → List PlanMove → List (Text × PlannedFile)
  | _, [] => []
  | sn, .visit driver :: rest => pushes plotId last (max sn (last driver)) rest
  | sn, .file driver nonces :: rest =>
    (driver, ⟨plotId, sn, toInt32 nonces⟩) :: pushes plotId last (toUInt64 (sn + nonces)) rest

variable {request : PlanRequest} {scans : Text → Scan}

/-- What performed moves push. -/
theorem perform_pushed (moves : List PlanMove) (p : Planner) :
    (moves.foldl (perform request scans) p).pushed =
      p.pushed ++ pushes request.plotId (fun driver => (scans driver).lastSn) p.snToGen moves := by
  induction moves generalizing p with
  | nil => exact (List.append_nil _).symm
  | cons move rest ih =>
      rw [List.foldl_cons, ih]
      cases move with
      | visit driver => rfl
      | file driver nonces => exact List.append_assoc ..

end Planner

namespace Marks

open Planner

variable {plotId : Nat} {last : Text → Nat}

@[simp] theorem total_cons (pair : PlanMove × Bool) (rest : List (PlanMove × Bool)) :
    total (pair :: rest) = pair.1.nonces + total rest := List.sum_cons

@[simp] theorem total_append (first rest : List (PlanMove × Bool)) :
    total (first ++ rest) = total first + total rest := by
  unfold total
  rw [List.map_append, List.sum_append]

/-! ## The placed files -/

/-- Where a placed file comes from. -/
theorem mem_placed {sn : Nat} {moves : List (PlanMove × Bool)} {driver : Text} {file : PlannedFile}
    {mark : Bool} : (driver, file, mark) ∈ placed plotId sn moves ↔ ∃ before, ∃ nonces : Nat, ∃ after,
      moves = before ++ (.file driver nonces, mark) :: after ∧
        file = ⟨plotId, sn + total before, nonces⟩ := by
  constructor
  · intro member
    induction moves generalizing sn with
    | nil => cases member
    | cons pair rest ih =>
        obtain ⟨move, kept⟩ := pair
        cases move with
        | visit other =>
            obtain ⟨before, nonces, after, rfl, rfl⟩ := ih member
            exact ⟨(.visit other, kept) :: before, nonces, after, rfl,
              by simp [PlanMove.nonces]⟩
        | file other count =>
            rcases List.mem_cons.mp member with same | member
            · obtain ⟨rfl, rfl, rfl⟩ : driver = other ∧ file = ⟨plotId, sn, count⟩ ∧
                  mark = kept := by simpa using same
              exact ⟨[], count, rest, rfl, rfl⟩
            · obtain ⟨before, nonces, after, rfl, rfl⟩ := ih member
              exact ⟨(.file other count, kept) :: before, nonces, after, rfl,
                by simp [PlanMove.nonces, Nat.add_assoc]⟩
  · rintro ⟨before, nonces, after, rfl, rfl⟩
    induction before generalizing sn with
    | nil => exact List.mem_cons_self ..
    | cons pair rest ih =>
        obtain ⟨move, kept⟩ := pair
        rw [total_cons, ← Nat.add_assoc]
        cases move with
        | visit other => exact ih
        | file other count => exact List.mem_cons_of_mem _ ih

/-- The files are placed one after the other. -/
theorem placed_ordered (sn : Nat) (moves : List (PlanMove × Bool)) :
    (placed plotId sn moves).Pairwise
        (fun first second => (first.2.1.sn + first.2.1.nonces : Int) ≤ second.2.1.sn) ∧
      ∀ entry ∈ placed plotId sn moves, sn ≤ entry.2.1.sn ∧ 0 ≤ entry.2.1.nonces := by
  induction moves generalizing sn with
  | nil => exact ⟨.nil, List.forall_mem_nil _⟩
  | cons pair rest ih =>
      obtain ⟨move, mark⟩ := pair
      cases move with
      | visit driver => exact ih sn
      | file driver nonces =>
          obtain ⟨ordered, beyond⟩ := ih (sn + nonces)
          refine ⟨.cons ?_ ordered, List.forall_mem_cons.mpr ⟨⟨Nat.le_refl _, ?_⟩, ?_⟩⟩
          · intro entry member
            have := (beyond entry member).1
            simp only []
            omega
          · exact Int.natCast_nonneg _
          · intro entry member
            obtain ⟨above, positive⟩ := beyond entry member
            exact ⟨by omega, positive⟩

/-- Two placed files are one or do not overlap. -/
def Apart (first second : Text × PlannedFile × Bool) : Prop :=
  first = second ∨ (first.2.1.sn + first.2.1.nonces : Int) ≤ second.2.1.sn ∨
    (second.2.1.sn + second.2.1.nonces : Int) ≤ first.2.1.sn

/-- Placed files do not overlap. -/
theorem placed_apart {sn : Nat} {moves : List (PlanMove × Bool)}
    {first second : Text × PlannedFile × Bool} (here : first ∈ placed plotId sn moves)
    (there : second ∈ placed plotId sn moves) : Apart first second := by
  have ordered : (placed plotId sn moves).Pairwise _ := (placed_ordered sn moves).1
  have forward : (placed plotId sn moves).Pairwise Apart := ordered.imp fun order =>
    .inr (.inl order)
  have backward : (placed plotId sn moves).Pairwise (flip Apart) := ordered.imp fun order =>
    Or.inr (.inr order)
  exact forward.forall_of_forall_of_flip (fun _ _ => .inl rfl) backward here there

/-- The file before a place. -/
theorem exists_placed_before (sn : Nat) (moves : List (PlanMove × Bool)) (some_files : total moves ≠ 0) :
    ∃ entry ∈ placed plotId sn moves,
      (entry.2.1.sn + entry.2.1.nonces : Int) = sn + total moves := by
  induction moves generalizing sn with
  | nil => exact absurd rfl some_files
  | cons pair rest ih =>
      obtain ⟨move, mark⟩ := pair
      rw [total_cons] at some_files ⊢
      cases move with
      | visit driver =>
          simp only [PlanMove.nonces, Nat.zero_add] at some_files ⊢
          exact ih sn some_files
      | file driver nonces =>
          simp only [PlanMove.nonces] at some_files ⊢
          by_cases more : total rest = 0
          · exact ⟨_, List.mem_cons_self .., by simp only [more]; omega⟩
          · obtain ⟨entry, member, ends⟩ := ih (sn + nonces) more
            exact ⟨entry, List.mem_cons_of_mem _ member, by omega⟩

/-! ## The cursor -/

/-- Where the next file is pushed when the files so far were pushed at their places. -/
def cursor (last : Text → Nat) : Nat → Nat → List (PlanMove × Bool) → Nat
  | here, _, [] => here
  | here, sn, (move, true) :: rest => cursor last here (sn + move.nonces) rest
  | here, sn, (.visit driver, false) :: rest => cursor last (max here (last driver)) sn rest
  | here, sn, (.file _ nonces, false) :: rest =>
    cursor last (max here (sn + nonces)) (sn + nonces) rest

/-- The cursor is not beyond a later place exactly when nothing that was found is. -/
theorem cursor_le {here sn place : Nat} {moves : List (PlanMove × Bool)}
    (later : sn + total moves ≤ place) : cursor last here sn moves ≤ place ↔
      here ≤ place ∧ ∀ driver, (.visit driver, false) ∈ moves → last driver ≤ place := by
  fun_induction cursor last here sn moves with
  | case1 => simp
  | case2 here sn move rest ih =>
      rw [total_cons, ← Nat.add_assoc] at later
      rw [ih later]
      simp
  | case3 here sn driver rest ih =>
      rw [total_cons, PlanMove.nonces, Nat.zero_add] at later
      rw [ih later, Nat.max_le, and_assoc]
      refine and_congr_right fun _ => ⟨?_, ?_⟩
      · rintro ⟨found, others⟩ other member
        rcases List.mem_cons.mp member with same | member
        · obtain rfl : other = driver := by simpa using same
          exact found
        · exact others other member
      · intro all
        exact ⟨all driver (List.mem_cons_self ..),
          fun other member => all other (List.mem_cons_of_mem _ member)⟩
  | case4 here sn driver nonces rest ih =>
      rw [total_cons, PlanMove.nonces, ← Nat.add_assoc] at later
      rw [ih later, Nat.max_le, and_iff_left (Nat.le_trans (Nat.le_add_right ..) later)]
      simp

/-- What brings the cursor to a place. -/
theorem le_cursor (plotId : Nat) {here sn place : Nat} {moves : List (PlanMove × Bool)}
    (later : sn + total moves ≤ place) : place ≤ cursor last here sn moves ↔
      place ≤ here ∨ (∃ driver, (.visit driver, false) ∈ moves ∧ place ≤ last driver) ∨
        ∃ driver file, (driver, file, false) ∈ placed plotId sn moves ∧
          (file.sn + file.nonces : Int) = place := by
  fun_induction cursor last here sn moves with
  | case1 => simp [placed]
  | case2 here sn move rest ih =>
      rw [total_cons, ← Nat.add_assoc] at later
      rw [ih later]
      cases move <;> simp [placed, PlanMove.nonces]
  | case3 here sn driver rest ih =>
      rw [total_cons, PlanMove.nonces, Nat.zero_add] at later
      rw [ih later, le_max_iff, or_assoc]
      simp [placed, or_and_right, exists_or, or_assoc]
  | case4 here sn driver nonces rest ih =>
      rw [total_cons, PlanMove.nonces, ← Nat.add_assoc] at later
      have reached : place ≤ sn + nonces ↔ ((sn : Int) + nonces) = place := by omega
      have files : (∃ other file, (other, file, false) ∈
            placed plotId sn ((.file driver nonces, false) :: rest) ∧
              (file.sn + file.nonces : Int) = place) ↔
          ((sn : Int) + nonces) = place ∨ ∃ other file,
            (other, file, false) ∈ placed plotId (sn + nonces) rest ∧
              (file.sn + file.nonces : Int) = place := by
        simp [placed, or_and_right, exists_or]
      have visits : (∃ other, (PlanMove.visit other, false) ∈
            (.file driver nonces, false) :: rest ∧ place ≤ last other) ↔
          ∃ other, (PlanMove.visit other, false) ∈ rest ∧ place ≤ last other := by
        simp
      rw [ih later, le_max_iff, files, visits, reached, or_assoc]
      exact or_congr_right or_left_comm

/-- Every unmarked file is pushed at its place. -/
def Follows (last : Text → Nat) (here sn : Nat) (moves : List (PlanMove × Bool)) : Prop :=
  ∀ before driver nonces after, moves = before ++ (.file driver nonces, false) :: after →
    cursor last here sn before = sn + total before

/-- The first move and the others. -/
theorem follows_cons {here sn : Nat} {pair : PlanMove × Bool} {rest : List (PlanMove × Bool)} :
    Follows last here sn (pair :: rest) ↔
      (∀ driver nonces, pair = (.file driver nonces, false) → here = sn) ∧
        ∀ before driver nonces after, rest = before ++ (.file driver nonces, false) :: after →
          cursor last here sn (pair :: before) = sn + pair.1.nonces + total before := by
  constructor
  · intro follows
    refine ⟨fun driver nonces same => ?_, fun before driver nonces after split => ?_⟩
    · exact follows [] driver nonces rest (by rw [same]; rfl)
    · rw [follows (pair :: before) driver nonces after (by rw [split]; rfl), total_cons,
        Nat.add_assoc]
  · rintro ⟨first, later⟩ before driver nonces after split
    cases before with
    | nil => exact first driver nonces (List.cons.inj split).1
    | cons other before =>
        obtain ⟨rfl, rest_split⟩ := List.cons.inj split
        rw [later before driver nonces after rest_split, total_cons, Nat.add_assoc]

/-- The files of the unmarked entries. -/
def unmarkedFiles (entries : List (Text × PlannedFile × Bool)) : List (Text × PlannedFile) :=
  (entries.filter fun entry => !entry.2.2).map fun entry => (entry.1, wrapped entry.2.1)

/-- What the drivers are found to show from places on that begin with `base`: nothing
beyond `2^64`, and nothing on a driver that is visited there. -/
structure Shown (base : Nat) (last shown : Text → Nat) (sn : Nat)
    (moves : List (PlanMove × Bool)) : Prop where
  below : ∀ driver, shown driver < 18446744073709551616
  same : ∀ driver here, base ≤ here → max here (last driver) = max here (shown driver)
  late : ∀ before driver after, moves = before ++ (.visit driver, false) :: after →
    18446744073709551616 ≤ sn + total before → last driver = 0 ∧ shown driver = 0

/-- What is shown from the second move on. -/
theorem Shown.rest {base sn : Nat} {shown : Text → Nat} {pair : PlanMove × Bool}
    {moves : List (PlanMove × Bool)} (is_shown : Shown base last shown sn (pair :: moves)) :
    Shown base last shown (sn + pair.1.nonces) moves := by
  refine ⟨is_shown.below, is_shown.same, fun before driver after split beyond => ?_⟩
  refine is_shown.late (pair :: before) driver after (by rw [split]; rfl) ?_
  rw [total_cons]
  omega

/-- A visit takes the wrapped cursor where it takes the other one. -/
private theorem Shown.visit {base here sn : Nat} {shown : Text → Nat} {driver : Text}
    {rest : List (PlanMove × Bool)}
    (is_shown : Shown base last shown sn ((.visit driver, false) :: rest)) (begins : base ≤ here)
    (within : here < 18446744073709551616 ∨ here ≤ sn) :
    max (toUInt64 here) (last driver) = toUInt64 ((max here (shown driver) : Nat) : Int) ∧
      (max here (shown driver) < 18446744073709551616 ∨ max here (shown driver) ≤ sn) := by
  by_cases early : here < 18446744073709551616
  · have below : max here (shown driver) < 18446744073709551616 :=
      Nat.max_lt.mpr ⟨early, is_shown.below driver⟩
    rw [toUInt64_natCast early, is_shown.same driver here begins, toUInt64_natCast below]
    exact ⟨rfl, .inl below⟩
  · obtain ⟨nothing, none⟩ := is_shown.late [] driver rest rfl (show _ ≤ sn + 0 by omega)
    rw [nothing, none, Nat.max_eq_left (Nat.zero_le _), Nat.max_eq_left (Nat.zero_le _)]
    exact ⟨rfl, within⟩

/-- An unmarked file is followed from its end on. -/
private theorem follows_file {shown : Text → Nat} {here sn : Nat} {driver : Text} {nonces : Nat}
    {rest : List (PlanMove × Bool)} :
    Follows shown here sn ((.file driver nonces, false) :: rest) ↔
      here = sn ∧ Follows shown (here + nonces) (sn + nonces) rest := by
  have reached : ∀ before, cursor shown sn sn ((.file driver nonces, false) :: before) =
      cursor shown (sn + nonces) (sn + nonces) before := by
    intro before
    rw [cursor, Nat.max_eq_right (Nat.le_add_right ..)]
  rw [follows_cons]
  constructor
  · rintro ⟨first, others⟩
    obtain rfl := first driver nonces rfl
    refine ⟨rfl, fun before other count after split => ?_⟩
    exact (reached before).symm.trans (others before other count after split)
  · rintro ⟨rfl, others⟩
    refine ⟨fun _ _ _ => rfl, fun before other count after split => ?_⟩
    exact (reached before).trans (others before other count after split)

/-- An unmarked file is pushed where it is placed exactly when the cursor is there. -/
private theorem pushes_file {here sn nonces : Nat} {driver : Text} {rest : List (PlanMove × Bool)}
    (small : nonces < 2147483647) :
    pushes plotId last (toUInt64 here) (unmarked ((.file driver nonces, false) :: rest)) =
        unmarkedFiles (placed plotId sn ((.file driver nonces, false) :: rest)) ↔
      toUInt64 here = toUInt64 sn ∧
        pushes plotId last (toUInt64 ((here + nonces : Nat) : Int)) (unmarked rest) =
          unmarkedFiles (placed plotId (sn + nonces) rest) := by
  have exact : toInt32 (nonces : Int) = nonces := toInt32_eq (by omega) (by omega)
  have next : toUInt64 ((toUInt64 here : Int) + nonces) = toUInt64 ((here + nonces : Nat) : Int) := by
    unfold toUInt64
    omega
  show (driver, PlannedFile.mk plotId (toUInt64 here) (toInt32 nonces)) ::
      pushes plotId last (toUInt64 (toUInt64 here + nonces)) (unmarked rest) =
    (driver, PlannedFile.mk plotId (toUInt64 sn) nonces) ::
      unmarkedFiles (placed plotId (sn + nonces) rest) ↔ _
  rw [exact, next, List.cons_eq_cons]
  simp

/-- The unmarked moves push the unmarked files exactly when the cursor follows them. The
cursor of the planner wraps where that of the places goes on. -/
theorem pushes_unmarked {base here sn : Nat} {shown : Text → Nat} {moves : List (PlanMove × Bool)}
    (begins : base ≤ here) (begun : base ≤ sn)
    (within : here < 18446744073709551616 ∨ here ≤ sn)
    (fits : sn + total moves < base + 18446744073709551616)
    (small : ∀ pair ∈ moves, pair.1.nonces < 2147483647)
    (is_shown : Shown base last shown sn moves) :
    pushes plotId last (toUInt64 here) (unmarked moves) = unmarkedFiles (placed plotId sn moves) ↔
      Follows shown here sn moves := by
  induction moves generalizing here sn with
  | nil => exact iff_of_true rfl fun before _ _ _ split => by simp at split
  | cons pair rest ih =>
      obtain ⟨here_small, rest_small⟩ := List.forall_mem_cons.mp small
      rw [total_cons, ← Nat.add_assoc] at fits
      have later := fun next begins within => @ih next (sn + pair.1.nonces) begins (by omega) within
        fits rest_small is_shown.rest
      obtain ⟨move, mark⟩ := pair
      cases mark with
      | true =>
          have dropped : unmarkedFiles (placed plotId sn ((move, true) :: rest)) =
              unmarkedFiles (placed plotId (sn + move.nonces) rest) := by
            cases move <;> rfl
          rw [dropped, follows_cons]
          refine (later here begins (by omega)).trans (and_iff_right fun _ _ same => ?_).symm
          cases same
      | false =>
          cases move with
          | visit driver =>
              obtain ⟨moved, still⟩ := is_shown.visit begins within
              have visited := later (max here (shown driver)) (by omega) still
              rw [← moved] at visited
              rw [follows_cons]
              refine visited.trans (and_iff_right fun _ _ same => ?_).symm
              cases same
          | file driver nonces =>
              simp only [PlanMove.nonces] at fits later here_small
              rw [pushes_file here_small, follows_file]
              constructor
              · rintro ⟨starts, others⟩
                obtain rfl : here = sn := by
                  unfold toUInt64 at starts
                  omega
                exact ⟨rfl, (later (here + nonces) (by omega) (by omega)).mp others⟩
              · rintro ⟨rfl, others⟩
                exact ⟨rfl, (later (here + nonces) (by omega) (by omega)).mpr others⟩

/-- Wherever the cursor is, the unmarked files come in their order. -/
theorem pushes_drivers (here sn : Nat) (moves : List (PlanMove × Bool)) :
    (pushes plotId last here (unmarked moves)).map Prod.fst =
      (unmarkedFiles (placed plotId sn moves)).map Prod.fst := by
  induction moves generalizing here sn with
  | nil => rfl
  | cons pair rest ih =>
      obtain ⟨move, mark⟩ := pair
      cases mark with
      | true =>
          cases move with
          | visit driver => exact ih here sn
          | file driver nonces => exact ih here (sn + nonces)
      | false =>
          cases move with
          | visit driver => exact ih (max here (last driver)) sn
          | file driver nonces =>
              exact congrArg (driver :: ·) (ih (toUInt64 (here + nonces)) (sn + nonces))

/-- Without anything found, moves push their files one after the other. -/
theorem pushes_moves {sn : Nat} {moves : List (PlanMove × Bool)}
    (small : ∀ pair ∈ moves, pair.1.nonces < 2147483647) :
    pushes plotId (fun _ => 0) (toUInt64 sn) (moves.map Prod.fst) =
      (placed plotId sn moves).map fun entry => (entry.1, wrapped entry.2.1) := by
  induction moves generalizing sn with
  | nil => rfl
  | cons pair rest ih =>
      obtain ⟨here_small, rest_small⟩ := List.forall_mem_cons.mp small
      obtain ⟨move, mark⟩ := pair
      cases move with
      | visit driver =>
          rw [List.map_cons, pushes, Nat.max_eq_left (Nat.zero_le _)]
          exact ih rest_small
      | file driver nonces =>
          simp only [PlanMove.nonces] at here_small
          have exact : toInt32 (nonces : Int) = nonces := toInt32_eq (by omega) (by omega)
          have next : toUInt64 ((toUInt64 sn : Int) + nonces) = toUInt64 ((sn + nonces : Nat) : Int) := by
            unfold toUInt64
            omega
          rw [List.map_cons, pushes, exact, next, ih rest_small]
          rfl

/-! ## What the drivers show -/

/-- The moves visit a driver before its files, and other drivers as told. -/
def VisitsFirst (scanned : Text → Text → Int → Prop) (moves : List (PlanMove × Bool)) : Prop :=
  ∀ before driver (nonces : Nat) mark after,
    moves = before ++ (.file driver nonces, mark) :: after →
      0 < nonces ∧ (.visit driver, false) ∈ before ∧
        ∀ other, (.visit other, false) ∈ before ↔ scanned other driver nonces

/-- The drivers show the ends of their marked files that are visible. -/
def ShowsEnds (plotId sn : Nat) (visible : PlannedFile → Prop) (last : Text → Nat)
    (moves : List (PlanMove × Bool)) : Prop :=
  ∀ driver place, last driver ≤ place ↔
    ∀ file, (driver, file, true) ∈ placed plotId sn moves → visible file →
      (file.sn + file.nonces : Int) ≤ place

/-- The visible marked files found before an unmarked one are placed before it, and
the marked file next to an unmarked one is visible. -/
structure Unbroken (scanned : Text → Text → Int → Prop) (visible : PlannedFile → Prop)
    (entries : List (Text × PlannedFile × Bool)) : Prop where
  earlier : ∀ driver file, (driver, file, false) ∈ entries → ∀ other found,
    (other, found, true) ∈ entries → visible found → scanned other driver file.nonces →
      found.sn < file.sn
  adjacent : ∀ driver file, (driver, file, false) ∈ entries → ∀ other found,
    (other, found, true) ∈ entries → (found.sn + found.nonces : Int) = file.sn → visible found

section Follows

variable {scanned : Text → Text → Int → Prop} {visible : PlannedFile → Prop} {sn : Nat}
  {moves : List (PlanMove × Bool)}

/-- Placed files are not empty. -/
private theorem placed_positive (visits : VisitsFirst scanned moves)
    {entry : Text × PlannedFile × Bool} (member : entry ∈ placed plotId sn moves) :
    0 < entry.2.1.nonces ∧ sn ≤ entry.2.1.sn := by
  obtain ⟨before, nonces, after, split, same⟩ := mem_placed.mp member
  rw [same]
  have positive := (visits before entry.1 nonces entry.2.2 after split).1
  exact ⟨by simp only []; omega, Nat.le_add_right ..⟩

/-- Files with the same end are the same. -/
private theorem placed_same (visits : VisitsFirst scanned moves)
    {first second : Text × PlannedFile × Bool} (here : first ∈ placed plotId sn moves)
    (there : second ∈ placed plotId sn moves)
    (ends : (first.2.1.sn + first.2.1.nonces : Int) = second.2.1.sn + second.2.1.nonces) :
    first = second := by
  have some_first := (placed_positive visits here).1
  have some_second := (placed_positive visits there).1
  rcases placed_apart here there with same | before | after
  · exact same
  · omega
  · omega

/-- The files before a place are placed in the whole. -/
private theorem placed_before {before : List (PlanMove × Bool)} (after : List (PlanMove × Bool))
    {entry : Text × PlannedFile × Bool} (member : entry ∈ placed plotId sn before) :
    entry ∈ placed plotId sn (before ++ after) := by
  obtain ⟨first, nonces, rest, rfl, same⟩ := mem_placed.mp member
  exact mem_placed.mpr ⟨first, nonces, rest ++ after, by simp, same⟩

/-- What is found before a followed file ends before it. -/
private theorem Follows.unbroken (follows : Follows last sn sn moves)
    (visits : VisitsFirst scanned moves) (shows_ends : ShowsEnds plotId sn visible last moves) :
    Unbroken scanned visible (placed plotId sn moves) := by
  constructor
  · intro driver file member other found there seen visited
    obtain ⟨before, nonces, after, split, rfl⟩ := mem_placed.mp member
    have reached := follows before driver nonces after split
    have visit := ((visits before driver nonces false after split).2.2 other).mpr visited
    have within := ((cursor_le (Nat.le_refl _)).mp (Nat.le_of_eq reached)).2 other visit
    have ends := (shows_ends other _).mp within found there seen
    have positive := (placed_positive visits there).1
    simp only [] at ends positive ⊢
    omega
  · intro driver file member other found there adjacent
    obtain ⟨before, nonces, after, split, rfl⟩ := mem_placed.mp member
    have reached := follows before driver nonces after split
    have bound := placed_positive visits there
    simp only [] at bound adjacent
    -- the cursor came to the file's place from the start, from a visit, or from a file
    rcases (le_cursor plotId (Nat.le_refl _)).mp (Nat.le_of_eq reached.symm) with
      start | ⟨third, visit, shown⟩ | ⟨third, kept, inside, ends⟩
    · omega
    · have within := ((cursor_le (Nat.le_refl _)).mp (Nat.le_of_eq reached)).2 third visit
      by_contra unseen
      have less : last third ≤ sn + total before - 1 := by
        refine (shows_ends third _).mpr fun hit there' seen => ?_
        have ends := (shows_ends third _).mp within hit there' seen
        have differ : (hit.sn + hit.nonces : Int) ≠ sn + total before := by
          intro same
          have one := placed_same visits there' there (by simp only []; omega)
          obtain ⟨_, rfl, _⟩ : third = other ∧ hit = found ∧ True := by simpa using one
          exact unseen seen
        omega
      omega
    · have whole := placed_before ((.file driver nonces, false) :: after) inside
      rw [← split] at whole
      have one := placed_same visits whole there (by simp only []; omega)
      cases one

/-- The cursor is not past an unmarked file. -/
private theorem Unbroken.cursor_le (unbroken : Unbroken scanned visible (placed plotId sn moves))
    (visits : VisitsFirst scanned moves) (shows_ends : ShowsEnds plotId sn visible last moves)
    {before after : List (PlanMove × Bool)} {driver : Text} {nonces : Nat}
    (split : moves = before ++ (.file driver nonces, false) :: after) :
    cursor last sn sn before ≤ sn + total before := by
  have member : (driver, (⟨plotId, sn + total before, nonces⟩ : PlannedFile), false) ∈
      placed plotId sn moves := mem_placed.mpr ⟨before, nonces, after, split, rfl⟩
  have order := (visits before driver nonces false after split).2.2
  refine (Marks.cursor_le (Nat.le_refl _)).mpr ⟨Nat.le_add_right .., fun other visit => ?_⟩
  refine (shows_ends other _).mpr fun found there seen => ?_
  have earlier := unbroken.earlier _ _ member other found there seen ((order other).mp visit)
  rcases placed_apart there member with same | first | second
  · cases same
  · simp only [] at first
    omega
  · simp only [] at earlier second
    omega

/-- The cursor has come to an unmarked file. -/
private theorem Unbroken.le_cursor (unbroken : Unbroken scanned visible (placed plotId sn moves))
    (visits : VisitsFirst scanned moves) (shows_ends : ShowsEnds plotId sn visible last moves)
    {before after : List (PlanMove × Bool)} {driver : Text} {nonces : Nat}
    (split : moves = before ++ (.file driver nonces, false) :: after) :
    sn + total before ≤ cursor last sn sn before := by
  have member : (driver, (⟨plotId, sn + total before, nonces⟩ : PlannedFile), false) ∈
      placed plotId sn moves := mem_placed.mpr ⟨before, nonces, after, split, rfl⟩
  refine (Marks.le_cursor plotId (Nat.le_refl _)).mpr ?_
  by_cases nothing : total before = 0
  · exact .inl (by omega)
  obtain ⟨⟨other, found, mark⟩, inside, ends⟩ : ∃ entry ∈ placed plotId sn before, _ :=
    exists_placed_before sn before nothing
  simp only [] at ends
  cases mark with
  | false => exact .inr (.inr ⟨other, found, inside, by omega⟩)
  | true =>
      have whole := placed_before ((.file driver nonces, false) :: after) inside
      rw [← split] at whole
      have seen := unbroken.adjacent _ _ member other found whole (by simp only []; omega)
      obtain ⟨first, count, rest, rfl, rfl⟩ := mem_placed.mp inside
      have visit := (visits first other count true
        (rest ++ (.file driver nonces, false) :: after) (by rw [split]; simp)).2.1
      refine .inr (.inl ⟨other, List.mem_append_left _ visit, ?_⟩)
      have shown := (shows_ends other _).mp (Nat.le_refl _) _ whole seen
      simp only [] at shown ends
      omega

/-- The cursor follows the unmarked files exactly when the marked ones do not break
their order. -/
theorem follows_iff (visits : VisitsFirst scanned moves)
    (shows_ends : ShowsEnds plotId sn visible last moves) :
    Follows last sn sn moves ↔ Unbroken scanned visible (placed plotId sn moves) := by
  constructor
  · intro follows
    exact follows.unbroken visits shows_ends
  · intro unbroken before driver nonces after split
    exact Nat.le_antisymm (unbroken.cursor_le visits shows_ends split)
      (unbroken.le_cursor visits shows_ends split)

end Follows

end Marks

end HyperPlotter.Plan

import HyperPlotter.Plan.Passes

/-!
# New files beside finished ones

The planner moves `sn_to_gen` behind the finished files of a driver when it first
visits the driver. What it pushes from then on lies behind them; what it pushed
before may not.
-/

namespace HyperPlotter.Plan

open Foundation Poc Pipeline

/-- No nonce of a file is in a finished file of a driver. -/
def Avoids (request : PlanRequest) (drive : Drive) (counts : Nat → Nat → Prop)
    (file : PlannedFile) : Prop :=
  ∀ entry ∈ drive.entries, ∀ sn n, request.PlotFile entry sn n → counts sn n →
    (fileRange file).Apart ⟨sn, n⟩

/-- The finished file is in the range of the start nonce and ends in a `uint64_t`. -/
def InRange (request : PlanRequest) (sn n : Nat) : Prop :=
  sn / 4294967296 = request.startNonce / 4294967296 ∧ sn + n < 18446744073709551616

/-- The files of a plan avoid those on all drivers. -/
def AvoidsAll (request : PlanRequest) (drives : Text → Drive) (p : Planner) : Prop :=
  ∀ pair ∈ p.pushed, ∀ other ∈ request.drivers, (drives other).present →
    Avoids request (drives other) (fun _ _ => True) pair.2

/-- The files of a plan avoid the finished ones in the range of the start nonce:
those on the drivers up to their own, and in the second pass those on all drivers. -/
structure AvoidsVisited (request : PlanRequest) (drives : Text → Drive) (p : Planner) :
    Prop where
  earlier : ∀ pair ∈ p.pushed, ∀ other ∈ request.drivers, (drives other).present →
    request.drivers.idxOf other ≤ request.drivers.idxOf pair.1 →
    Avoids request (drives other) (InRange request) pair.2
  second : ∀ first, (Planner.start request).allocate request drives 64 request.drivers = some first →
    ∀ pair ∈ p.pushed.drop first.pushed.length, ∀ other ∈ request.drivers,
    (drives other).present → Avoids request (drives other) (InRange request) pair.2

namespace Planner

variable {request : PlanRequest} {drives : Text → Drive} {p q : Planner} {align : Nat}
  {driver : Text}

/-- Files from `last_sn` on avoid what was scanned. -/
private theorem avoids_of_le {scan : Scan} (scanned : request.scan (drives driver) = some scan)
    {file : PlannedFile} (behind : scan.lastSn ≤ file.sn) :
    Avoids request (drives driver) (InRange request) file := by
  rintro entry member sn n plot ⟨same, bound⟩
  have readable := PlanRequest.scan_isSome.mp (Option.isSome_of_eq_some scanned)
  have counted := plot.countedEnd (readable entry member) same bound
  have last := request.countedEnd_le member
  rw [PlanRequest.scan_of_readable readable] at scanned
  obtain rfl := Option.some.inj scanned
  simp only [] at behind
  exact .inr (show sn + n ≤ file.sn by omega)

/-- What the `while` loop adds. -/
structure Filled (driver : Text) (p q : Planner) : Prop where
  visited : q.visited = p.visited
  forward : p.snToGen ≤ q.snToGen
  pushed : ∃ files : List PlannedFile, q.pushed = p.pushed ++ files.map (Prod.mk driver) ∧
    ∀ file ∈ files, p.snToGen ≤ file.sn

/-- Nothing is filled. -/
theorem Filled.refl : Filled driver p p :=
  ⟨rfl, Nat.le_refl _, [], by rw [List.map_nil, List.append_nil], List.forall_mem_nil _⟩

/-- The files of the loop follow each other from `sn_to_gen` on. -/
theorem fill_filled (rounds : Nat) (unwrapped : (p.fill request align driver rounds).Unwrapped) :
    Filled driver p (p.fill request align driver rounds) := by
  induction rounds generalizing p with
  | zero => exact .refl
  | succ rounds ih =>
      rw [fill] at unwrapped ⊢
      split
      · exact .refl
      · rename_i more
        rw [if_neg more] at unwrapped
        simp only [] at unwrapped ⊢
        split
        · exact .refl
        · rename_i proceeds
          rw [if_neg proceeds] at unwrapped
          generalize p.nonces request align driver = n at unwrapped proceeds ⊢
          obtain ⟨visited, forward, files, pushed, behind⟩ := ih unwrapped
          have exact : toInt32 (n : Int) = n := toInt32_eq (by omega) (by omega)
          have here := unwrapped (driver, ⟨request.plotId, p.snToGen, toInt32 n⟩) (by
            rw [pushed]
            exact List.mem_append_left _ (List.mem_append_right _ (List.mem_singleton_self _)))
          have cursor : (p.push request driver n).snToGen = p.snToGen + n := by
            show toUInt64 ((p.snToGen : Int) + n) = _
            simp only [exact] at here
            rw [← Int.natCast_add, toUInt64_natCast (by omega)]
          rw [cursor] at forward behind
          refine ⟨visited, by omega, ⟨request.plotId, p.snToGen, toInt32 n⟩ :: files, ?_, ?_⟩
          · rw [pushed, List.map_cons]
            exact List.append_assoc ..
          · intro file member
            rcases List.mem_cons.mp member with rfl | later
            · exact Nat.le_refl _
            · have := behind file later
              omega

/-- `sn_to_gen` is behind the finished files of the visited drivers. -/
def Past (request : PlanRequest) (drives : Text → Drive) (p : Planner) : Prop :=
  ∀ driver ∈ p.visited, ∃ scan, request.scan (drives driver) = some scan ∧ scan.lastSn ≤ p.snToGen

/-- What the planner does for one driver. -/
structure Served (request : PlanRequest) (drives : Text → Drive) (driver : Text) (p q : Planner) :
    Prop where
  past : Past request drives q
  visited : ∀ other, other ∈ p.visited ∨ other = driver ∧ (drives driver).present → other ∈ q.visited
  pushed : ∃ files : List PlannedFile, q.pushed = p.pushed ++ files.map (Prod.mk driver) ∧
    ∀ file ∈ files, ∀ other ∈ q.visited, Avoids request (drives other) (InRange request) file

/-- A visit moves `sn_to_gen` behind what is there. -/
theorem visit_past (past : Past request drives p) (visited : p.visit request drives driver = some q) :
    Past request drives q ∧ (∀ other, other ∈ p.visited ∨ other = driver → other ∈ q.visited) ∧
      q.pushed = p.pushed := by
  by_cases old : driver ∈ p.visited
  · rw [visit, if_pos old] at visited
    obtain rfl := Option.some.inj visited
    refine ⟨past, fun other member => ?_, rfl⟩
    rcases member with before | rfl
    · exact before
    · exact old
  · obtain ⟨scan, scanned, rfl⟩ := visit_cases old visited
    refine ⟨fun other member => ?_, fun other member => ?_, rfl⟩
    · rcases List.mem_append.mp member with before | here
      · obtain ⟨found, read, behind⟩ := past other before
        exact ⟨found, read, Nat.le_trans behind (Nat.le_max_left ..)⟩
      · rw [List.mem_singleton.mp here]
        exact ⟨scan, scanned, Nat.le_max_right ..⟩
    · rcases member with before | rfl
      · exact List.mem_append_left _ before
      · exact List.mem_append_right _ (List.mem_singleton_self _)

/-- What a driver is served with. -/
theorem serve_served (past : Past request drives p)
    (served : p.serve request drives align driver = some q) (unwrapped : q.Unwrapped) :
    Served request drives driver p q := by
  unfold serve at served
  split at served
  · obtain ⟨scanned, made, rfl⟩ := Option.map_eq_some_iff.mp served
    obtain ⟨ahead, members, same⟩ := visit_past past made
    have filled := fill_filled _ unwrapped
    generalize scanned.fill request align driver scanned.noncesToGen = q at filled unwrapped
    obtain ⟨visited, forward, files, pushed, behind⟩ := filled
    refine ⟨fun other member => ?_, fun other member => ?_, files, ?_, fun file member other => ?_⟩
    · rw [visited] at member
      obtain ⟨scan, read, before⟩ := ahead other member
      exact ⟨scan, read, Nat.le_trans before forward⟩
    · rw [visited]
      exact members other (member.imp_right And.left)
    · rw [pushed, same]
    · rw [visited]
      intro seen
      obtain ⟨scan, read, before⟩ := ahead other seen
      exact avoids_of_le read (Nat.le_trans before (behind file member))
  · rename_i absent
    obtain rfl := Option.some.inj served
    refine ⟨past, fun other member => ?_, [], by rw [List.map_nil, List.append_nil],
      List.forall_mem_nil _⟩
    rcases member with before | ⟨_, present⟩
    · exact before
    · exact absurd present absent

/-- Files only come after those there are. -/
theorem fill_extends (rounds : Nat) : p.pushed <+: (p.fill request align driver rounds).pushed := by
  induction rounds generalizing p with
  | zero => exact List.prefix_rfl
  | succ rounds ih =>
      rw [fill]
      split
      · exact List.prefix_rfl
      · simp only []
        split
        · exact List.prefix_rfl
        · have more : p.pushed <+:
              (p.push request driver (p.nonces request align driver)).pushed :=
            List.prefix_append _ _
          exact more.trans ih

/-- Serving a driver pushes behind the others. -/
theorem serve_extends (served : p.serve request drives align driver = some q) :
    p.pushed <+: q.pushed := by
  unfold serve at served
  split at served
  · obtain ⟨scanned, made, rfl⟩ := Option.map_eq_some_iff.mp served
    refine List.IsPrefix.trans ?_ (fill_extends _)
    unfold visit at made
    split at made
    · obtain rfl := Option.some.inj made
      exact List.prefix_rfl
    · obtain ⟨scan, _, rfl⟩ := Option.map_eq_some_iff.mp made
      exact List.prefix_rfl
  · obtain rfl := Option.some.inj served
    exact List.prefix_rfl

/-- A pass pushes behind the others. -/
theorem allocate_extends {drivers : List Text}
    (allocated : p.allocate request drives align drivers = some q) : p.pushed <+: q.pushed := by
  induction drivers generalizing p with
  | nil =>
      obtain rfl : p = q := Option.some.inj allocated
      exact List.prefix_rfl
  | cons driver rest ih =>
      rw [allocate, List.foldlM_cons] at allocated
      obtain ⟨next, served, later⟩ := Option.bind_eq_some_iff.mp allocated
      exact (serve_extends served).trans (ih later)

/-- Fewer tasks wrap less. -/
theorem Unwrapped.of_prefix (unwrapped : q.Unwrapped) (earlier : p.pushed <+: q.pushed) :
    p.Unwrapped := fun pair member => unwrapped pair (earlier.subset member)

/-- After a pass over some of the drivers: these are visited, and each file avoids
what is on the drivers up to its own. -/
private structure Passed (request : PlanRequest) (drives : Text → Drive) (done : List Text)
    (p : Planner) : Prop where
  past : Past request drives p
  visited : ∀ driver ∈ done, (drives driver).present → driver ∈ p.visited
  avoids : ∀ pair ∈ p.pushed, ∀ other ∈ request.drivers, (drives other).present →
    request.drivers.idxOf other ≤ request.drivers.idxOf pair.1 →
    Avoids request (drives other) (InRange request) pair.2

/-- A driver up to the given one was served before it, or is it. -/
private theorem earlier_done {done rest : List Text} {other : Text}
    (split : request.drivers = done ++ driver :: rest)
    (upTo : request.drivers.idxOf other ≤ request.drivers.idxOf driver) :
    other ∈ done ++ [driver] := by
  have here : request.drivers.idxOf driver ≤ done.length := by
    rw [split, List.idxOf_append]
    split
    · rename_i before
      exact Nat.le_of_lt (List.idxOf_lt_length_of_mem before)
    · rw [List.idxOf_cons_self]
      omega
  have shorter : (done ++ [driver]).idxOf other < (done ++ [driver]).length := by
    have same : request.drivers.idxOf other = (done ++ [driver] ++ rest).idxOf other := by
      rw [split, List.append_assoc, List.singleton_append]
    rw [same, List.idxOf_append] at upTo
    split at upTo
    · rename_i inside
      exact List.idxOf_lt_length_of_mem inside
    · rw [List.length_append, List.length_singleton] at upTo
      omega
  exact List.idxOf_lt_length_iff.mp shorter

private theorem Passed.serve {done rest : List Text} (passed : Passed request drives done p)
    (split : request.drivers = done ++ driver :: rest)
    (served : p.serve request drives align driver = some q) (unwrapped : q.Unwrapped) :
    Passed request drives (done ++ [driver]) q := by
  obtain ⟨past, visited, files, pushed, avoids⟩ := serve_served passed.past served unwrapped
  have seen : ∀ other ∈ done ++ [driver], (drives other).present → other ∈ q.visited := by
    intro other member present
    rcases List.mem_append.mp member with before | here
    · exact visited other (.inl (passed.visited other before present))
    · obtain rfl := List.mem_singleton.mp here
      exact visited other (.inr ⟨rfl, present⟩)
  refine ⟨past, seen, fun pair member other listed present upTo => ?_⟩
  rw [pushed] at member
  rcases List.mem_append.mp member with old | new
  · exact passed.avoids pair old other listed present upTo
  · obtain ⟨file, made, rfl⟩ := List.mem_map.mp new
    exact avoids file made other (seen other (earlier_done split upTo) present)

/-- The first pass. -/
private theorem Passed.allocate {done drivers : List Text} (passed : Passed request drives done p)
    (split : request.drivers = done ++ drivers)
    (allocated : p.allocate request drives align drivers = some q) (unwrapped : q.Unwrapped) :
    Passed request drives request.drivers q := by
  induction drivers generalizing p done with
  | nil =>
      obtain rfl : p = q := Option.some.inj allocated
      rw [split, List.append_nil]
      exact passed
  | cons driver rest ih =>
      rw [Planner.allocate, List.foldlM_cons] at allocated
      obtain ⟨next, served, later⟩ := Option.bind_eq_some_iff.mp allocated
      refine ih (passed.serve split served (unwrapped.of_prefix (allocate_extends later))) ?_ later
      rw [split, List.append_assoc, List.singleton_append]

/-- A pass over visited drivers: each new file avoids what is on any of them. -/
private theorem allocate_pushed_avoids {drivers : List Text} (past : Past request drives p)
    (allocated : p.allocate request drives align drivers = some q) (unwrapped : q.Unwrapped) :
    ∃ more, q.pushed = p.pushed ++ more ∧ ∀ pair ∈ more, ∀ other ∈ p.visited,
      Avoids request (drives other) (InRange request) pair.2 := by
  induction drivers generalizing p with
  | nil =>
      obtain rfl : p = q := Option.some.inj allocated
      exact ⟨[], (List.append_nil _).symm, List.forall_mem_nil _⟩
  | cons driver rest ih =>
      rw [allocate, List.foldlM_cons] at allocated
      obtain ⟨next, served, later⟩ := Option.bind_eq_some_iff.mp allocated
      obtain ⟨ahead, visited, files, pushed, avoids⟩ :=
        serve_served past served (unwrapped.of_prefix (allocate_extends later))
      obtain ⟨more, whole, others⟩ := ih ahead later
      refine ⟨files.map (Prod.mk driver) ++ more, by rw [whole, pushed, List.append_assoc], ?_⟩
      intro pair member other seen
      rcases List.mem_append.mp member with here | after
      · obtain ⟨file, made, rfl⟩ := List.mem_map.mp here
        exact avoids file made other (visited other (.inl seen))
      · exact others pair after other (visited other (.inl seen))

/-- The files of a plan avoid the finished files the planner has seen before. -/
theorem plan_avoidsVisited (planned : plan request drives = some p) (unwrapped : p.Unwrapped) :
    AvoidsVisited request drives p := by
  obtain ⟨first, made, rest⟩ := Option.bind_eq_some_iff.mp planned
  have passed : Passed request drives request.drivers first := by
    have begun : Passed request drives [] (start request) :=
      ⟨List.forall_mem_nil _, List.forall_mem_nil _, List.forall_mem_nil _⟩
    exact begun.allocate rfl made (unwrapped.of_prefix (allocate_extends rest))
  obtain ⟨more, pushed, avoids⟩ := allocate_pushed_avoids passed.past rest unwrapped
  have second : ∀ pair ∈ more, ∀ other ∈ request.drivers, (drives other).present →
      Avoids request (drives other) (InRange request) pair.2 :=
    fun pair member other listed present =>
      avoids pair member other (passed.visited other listed present)
  constructor
  · intro pair member other listed present upTo
    rw [pushed] at member
    rcases List.mem_append.mp member with old | new
    · exact passed.avoids pair old other listed present upTo
    · exact second pair new other listed present
  · intro again repeated
    obtain rfl : again = first := Option.some.inj (repeated.symm.trans made)
    rw [pushed, List.drop_left]
    exact second

end Planner

/-! ## Finished files the planner has not seen -/

/-- Five files on two drivers. -/
theorem plan_avoidsVisited_twoDrivers : ∃ p, Planner.plan twoDrivers twoDrives = some p ∧
    p.pushed.length = 5 ∧ AvoidsVisited twoDrivers twoDrives p := by
  obtain ⟨p, planned, count, unwrapped⟩ : ∃ p, Planner.plan twoDrivers twoDrives = some p ∧
      p.pushed.length = 5 ∧ p.Unwrapped := ⟨_, rfl, rfl, by unfold Planner.Unwrapped; decide⟩
  exact ⟨p, planned, count, Planner.plan_avoidsVisited planned unwrapped⟩

/-- The finished file is on the second driver, where the first gets its files. -/
def laterDrives (driver : Text) : Drive :=
  if driver = "a".toList then ⟨true, 64 * 262144, []⟩
  else ⟨true, 0, [⟨"1_0_72".toList, false, 18874368⟩]⟩

/-- One driver, and a start nonce. -/
def oneDriver (startNonce : Nat) (bound : startNonce < 18446744073709551616) : PlanRequest where
  plotId := 1
  startNonce := startNonce
  totalNonces := 128
  weight := 32
  drivers := ["a".toList]
  plotId_lt := twoDrivers.plotId_lt
  startNonce_lt := bound

/-- A finished file of the given name beside free room. -/
def besides (name : Text) (_ : Text) : Drive := ⟨true, 128 * 262144, [⟨name, false, 0⟩]⟩

/-- A file of a plan is laid over a finished one. -/
private theorem not_avoidsAll_of {request : PlanRequest} {drives : Text → Drive} {p : Planner}
    {pair : Text × PlannedFile} {entry : DirEntry} (other : Text) (sn n x : Nat)
    (pushed : p.pushed[0]? = some pair) (listed : other ∈ request.drivers)
    (present : (drives other).present) (there : (drives other).entries = [entry])
    (plot : request.PlotFile entry sn n) (new : pair.2.sn ≤ x ∧ x < pair.2.sn + pair.2.nonces.toNat)
    (old : sn ≤ x ∧ x < sn + n) : ¬AvoidsAll request drives p := by
  intro avoids
  have apart := avoids pair (List.mem_of_getElem? pushed) other listed present entry
    (by rw [there]; exact List.mem_singleton_self _) sn n plot trivial
  exact apart.not_both new old

/-- A file on a driver visited later, one in the next range, and one that ends at
`2^64` get files laid over them. -/
theorem not_avoidsAll :
    (∃ p, Planner.plan twoDrivers laterDrives = some p ∧ ¬AvoidsAll twoDrivers laterDrives p) ∧
    (∃ p, Planner.plan (oneDriver 4294967232 (by decide)) (besides "1_4294967296_64".toList) = some p ∧
      ¬AvoidsAll (oneDriver 4294967232 (by decide)) (besides "1_4294967296_64".toList) p) ∧
    ∃ p, Planner.plan (oneDriver 18446744069414584320 (by decide))
        (besides "1_18446744069414584320_4294967296".toList) = some p ∧
      ¬AvoidsAll (oneDriver 18446744069414584320 (by decide))
        (besides "1_18446744069414584320_4294967296".toList) p := by
  refine ⟨⟨_, rfl, ?_⟩, ⟨_, rfl, ?_⟩, ⟨_, rfl, ?_⟩⟩
  · exact not_avoidsAll_of ['b'] 0 72 0 rfl (by decide) rfl rfl ⟨rfl, by decide⟩ (by decide) (by decide)
  · exact not_avoidsAll_of ['a'] 4294967296 64 4294967296 rfl (by decide) rfl rfl
      ⟨rfl, by decide⟩ (by decide) (by decide)
  · exact not_avoidsAll_of ['a'] 18446744069414584320 4294967296 18446744069414584320 rfl (by decide)
      rfl rfl ⟨rfl, by decide⟩ (by decide) (by decide)

end HyperPlotter.Plan

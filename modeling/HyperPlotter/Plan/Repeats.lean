import HyperPlotter.Foundation.Settling
import HyperPlotter.Plan.Passes

/-!
# Repeated and missing drivers

The `drivers` option may name a driver several times, and directories that do not
exist. A pass settles a driver at its first place in the list, so the plan is that
of the existing drivers, each once.
-/

namespace HyperPlotter.Plan

open Foundation Poc Pipeline

/-- The existing drivers, each at its first place. -/
def PlanRequest.effectiveDrivers (request : PlanRequest) (drives : Text → Drive) : List Text :=
  (request.drivers.filter fun driver => (drives driver).present).eraseDups

namespace Planner

variable {request : PlanRequest} {drives : Text → Drive} {p q : Planner} {align : Nat}
  {driver other : Text}

/-- A driver a pass has nothing to do on: it does not exist, or it has a writer and no room
for a further file. -/
def Settled (request : PlanRequest) (drives : Text → Drive) (align : Nat) (p : Planner)
    (driver : Text) : Prop :=
  (drives driver).present = true → driver ∈ p.visited ∧ p.nonces request align driver = 0

/-- A full driver is not filled. -/
theorem fill_full (rounds : Nat) (full : p.nonces request align driver = 0) :
    p.fill request align driver rounds = p := by
  cases rounds with
  | zero => rfl
  | succ rounds =>
      rw [fill]
      split
      · rfl
      · exact if_pos (.inl full)

/-- Serving a settled driver changes nothing. -/
theorem serve_settled (settled : Settled request drives align p driver) :
    p.serve request drives align driver = some p := by
  unfold serve
  split
  · next present =>
      obtain ⟨old, full⟩ := settled present
      rw [visit, if_pos old, Option.map_some, fill_full _ full]
  · rfl

/-- A pass settles the driver it serves and keeps the others settled. -/
theorem serve_settles (small : request.maxNoncesPerFile < 2147483647) :
    Settles (serve request drives align) (Settled request drives align) where
  idle := serve_settled
  settles := by
    intro p driver q served present
    exact ⟨(serve_visited served).mpr (.inr ⟨rfl, present⟩),
      serve_full small served (.inr ⟨rfl, present⟩)⟩
  keeps := by
    intro p driver q other served settled present
    obtain ⟨old, full⟩ := settled present
    exact ⟨(serve_visited served).mpr (.inl old), serve_full small served (.inl ⟨full, old⟩)⟩

/-- A pass over the existing drivers, each once. -/
theorem allocate_effective (small : request.maxNoncesPerFile < 2147483647) (p : Planner) :
    p.allocate request drives align (request.effectiveDrivers drives) =
      p.allocate request drives align request.drivers := by
  have settling : Settles (serve request drives align) _ := serve_settles small
  calc p.allocate request drives align (request.effectiveDrivers drives)
      = p.allocate request drives align
          (request.drivers.filter fun driver => (drives driver).present) :=
        settling.foldlM_eraseDups _ p
    _ = p.allocate request drives align request.drivers :=
        settling.foldlM_filter _ fun _ _ absent present => absurd present absent

/-- The `while` loop does not look at the drivers of the request. -/
private theorem fill_drivers (drivers : List Text) (rounds : Nat) :
    p.fill { request with drivers := drivers } align driver rounds =
      p.fill request align driver rounds := by
  induction rounds generalizing p with
  | zero => rfl
  | succ rounds ih =>
      simp only [fill, ih]
      rfl

/-- A pass reads its drivers from its argument, not from the request. -/
theorem allocate_drivers (drivers served : List Text) (p : Planner) :
    p.allocate { request with drivers := drivers } drives align served =
      p.allocate request drives align served := by
  have same : serve { request with drivers := drivers } drives align =
      serve request drives align := by
    funext p driver
    simp only [serve, fill_drivers]
    rfl
  unfold allocate
  rw [same]

/-- The plan of a list of drivers is the plan of the existing ones, each at its first place:
a repeated driver gets no file more, and no writer and no scan either. -/
theorem plan_effective (request : PlanRequest) (drives : Text → Drive)
    (small : request.maxNoncesPerFile < 2147483647) :
    plan request drives =
      plan { request with drivers := request.effectiveDrivers drives } drives := by
  have effective : ∀ align p, allocate request drives align p (request.effectiveDrivers drives) =
      allocate request drives align p request.drivers := fun _ p => allocate_effective small p
  calc plan request drives
      = (allocate request drives 64 (start request) request.drivers).bind fun p =>
          p.allocate request drives 8 request.drivers := rfl
    _ = (allocate request drives 64 (start request) (request.effectiveDrivers drives)).bind
          fun p => p.allocate request drives 8 (request.effectiveDrivers drives) := by
        simp only [effective]
    _ = plan { request with drivers := request.effectiveDrivers drives } drives := by
        have redirected : ∀ align p served,
            allocate { request with drivers := request.effectiveDrivers drives } drives align p
              served = allocate request drives align p served :=
          fun _ p served => allocate_drivers _ served p
        simp only [← redirected]
        rfl

/-- A missing driver in front of two others, and one of these named again. -/
theorem plan_effective_repeated :
    plan { twoDrivers with drivers := "c".toList :: twoDrivers.drivers ++ ["a".toList] }
        (fun driver => ⟨driver ≠ "c".toList, 64 * 262144, []⟩) =
      plan twoDrivers fun driver => ⟨driver ≠ "c".toList, 64 * 262144, []⟩ :=
  (plan_effective { twoDrivers with drivers := "c".toList :: twoDrivers.drivers ++ ["a".toList] }
    _ (by decide)).trans (congrArg (fun drivers => plan { twoDrivers with drivers := drivers } _)
      (by decide : _ = twoDrivers.drivers))

end Planner

end HyperPlotter.Plan

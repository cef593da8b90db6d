import HyperPlotter.Foundation.Numerals

/-!
# Names of plot files

`writer_task` names its file `<pid>_<sn>_<nonces>`. The verifier and the planner
take such names apart at the underscores.
-/

namespace HyperPlotter.Pipeline

open Foundation

/-- The name `writer_task` gives its file, below the driver. -/
def plotName (pid sn nonces : Nat) : Text :=
  decimal pid ++ '_' :: (decimal sn ++ '_' :: decimal nonces)

/-- A number has no underscore. -/
private theorem underscore_notMem_decimal (n : Nat) : '_' ∉ decimal n := by
  intro member
  exact absurd (isDigit_of_mem_decimal member) (by decide)

/-- The name of a plot file has no extension. -/
theorem dot_notMem_plotName (pid sn nonces : Nat) : '.' ∉ plotName pid sn nonces := by
  have number : ∀ n, '.' ∉ decimal n := fun n member =>
    absurd (isDigit_of_mem_decimal member) (by decide)
  unfold plotName
  simp [number]

/-- The pieces of a plot file's name. -/
@[simp] theorem split_plotName (pid sn nonces : Nat) :
    split (plotName pid sn nonces) '_' = [decimal pid, decimal sn, decimal nonces] :=
  split_three (underscore_notMem_decimal pid) (underscore_notMem_decimal sn)
    (underscore_notMem_decimal nonces) (decimal_ne_nil nonces)

/-- Names of different numbers are different. -/
theorem plotName_inj {pid sn nonces pid' sn' nonces' : Nat} :
    plotName pid sn nonces = plotName pid' sn' nonces' ↔
      pid = pid' ∧ sn = sn' ∧ nonces = nonces' := by
  refine ⟨fun same => ?_, ?_⟩
  · have pieces := congrArg (split · '_') same
    simpa [decimal_injective.eq_iff] using pieces
  · rintro ⟨rfl, rfl, rfl⟩
    rfl

end HyperPlotter.Pipeline

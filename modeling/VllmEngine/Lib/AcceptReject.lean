import Mathlib.Probability.ProbabilityMassFunction.Constructions
import Mathlib.MeasureTheory.Measure.Lebesgue.Basic

namespace VllmEngine.Lib

open MeasureTheory
open scoped ENNReal

section

variable (test : ℝ → Bool)

noncomputable def testProb : ℝ≥0∞ :=
  volume {u | u ∈ Set.Ico (0 : ℝ) 1 ∧ test u = true}

theorem testProb_le_one : testProb test ≤ 1 := by
  calc testProb test ≤ volume (Set.Ico (0 : ℝ) 1) := measure_mono fun _ hu ↦ hu.1
    _ = 1 := by simp

noncomputable def testLaw : PMF Bool :=
  PMF.ofFintype (fun b ↦ cond b (testProb test) (1 - testProb test))
    (by simp [add_tsub_cancel_of_le (testProb_le_one test)])

end

variable {test : ℝ → Bool}

section

variable {α : Type*} (p q : PMF α)

variable {residual : α → PMF α}

end

end VllmEngine.Lib

import VllmEngine.Lib.AcceptReject
import VllmEngine.Sample.RejectionSampler

namespace VllmEngine.Sample

open Lib Set PMF List
open scoped ENNReal

variable {V : Type} [DecidableEq V]

/-- The random inputs of the rejection sampler for a request: the laws of the target and the draft
model after given tokens, and that of a recovered token, in proportion to the weights. Without draft
probabilities the drafts have any law. -/
structure SpeculativeSampling (V : Type) [DecidableEq V] where
  target : List V → PMF V
  draft : List V → PMF V
  hasDraftProbs : Bool
  recovered : List V → V → PMF V
  recovered_race : ∀ drafts d v,
    let weight := fun w ↦ ENNReal.ofReal (recoveredWeight (fun u ↦ (target drafts u).toReal)
      (if hasDraftProbs then some fun u ↦ (draft drafts u).toReal else none) d w)
    recovered drafts d v * tsum weight = weight v

namespace SpeculativeSampling

section

variable (target draft : PMF V) (hasDraftProbs : Bool) (d : V)

noncomputable def raceWeight (v : V) : ℝ≥0∞ :=
  ENNReal.ofReal (recoveredWeight (fun u ↦ (target u).toReal)
    (if hasDraftProbs then some fun u ↦ (draft u).toReal else none) d v)

theorem raceWeight_le (v : V) : raceWeight target draft hasDraftProbs d v ≤ target v := by
  rw [raceWeight, ← ENNReal.ofReal_toReal (target.apply_ne_top v)]
  apply ENNReal.ofReal_le_ofReal
  cases hasDraftProbs with
  | true =>
    simp [recoveredWeight]
  | false =>
    simp only [recoveredWeight, Bool.false_eq_true, if_false]
    split
    · exact ENNReal.toReal_nonneg
    · exact le_rfl

theorem tsum_raceWeight_ne_top : tsum (raceWeight target draft hasDraftProbs d) ≠ ∞ :=
  ne_top_of_le_ne_top ENNReal.one_ne_top
    ((ENNReal.tsum_le_tsum (raceWeight_le target draft hasDraftProbs d)).trans_eq target.tsum_coe)

/-- The winner of the race; where all weights vanish no draft is rejected and any law will do. -/
noncomputable def race : PMF V :=
  if h : tsum (raceWeight target draft hasDraftProbs d) = 0 then target
  else normalize _ h (tsum_raceWeight_ne_top target draft hasDraftProbs d)

theorem race_mul_tsum (v : V) : race target draft hasDraftProbs d v *
    tsum (raceWeight target draft hasDraftProbs d) = raceWeight target draft hasDraftProbs d v := by
  by_cases h : tsum (raceWeight target draft hasDraftProbs d) = 0
  · rw [h, mul_zero, ENNReal.tsum_eq_zero.mp h v]
  · rw [race, dif_neg h, normalize_apply, mul_assoc,
      ENNReal.inv_mul_cancel h (tsum_raceWeight_ne_top target draft hasDraftProbs d), mul_one]

noncomputable def ofLaws (target draft : List V → PMF V) (hasDraftProbs : Bool) :
    SpeculativeSampling V where
  target := target
  draft := draft
  hasDraftProbs := hasDraftProbs
  recovered drafts d := race (target drafts) (draft drafts) hasDraftProbs d
  recovered_race drafts d v := race_mul_tsum (target drafts) (draft drafts) hasDraftProbs d v

end

variable (s : SpeculativeSampling V)

/-- The inputs as draws: each one is read at most once, so it is drawn when it is read. -/
noncomputable def loads : Loads PMF ℝ V where
  draftTokenId := s.draft
  testUniform _ := testLaw
  recoveredTokenId := s.recovered
  bonusTokenId := s.target

variable {s} {n : ℕ} {drafts : List V}

end SpeculativeSampling

end VllmEngine.Sample

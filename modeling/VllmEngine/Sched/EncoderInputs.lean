import VllmEngine.Core.EncoderRun
import Mathlib.Algebra.Order.Ring.Int

namespace VllmEngine.Sched

open VllmEngine.Core Lib

/-- What `_try_schedule_encoder_inputs` reads beside its arguments: a setting, and the items of the
connector of the encoder cache, if there is one. -/
structure EncoderConfig where
  disableChunkedMmInput : Bool := false
  hasCacheItem : String → Bool := fun _ ↦ false

structure EncoderPlan where
  cache : EncoderCache
  numNewTokens : ℤ
  encoderComputeBudget : ℤ
  encoderInputsToSchedule : List ℕ := []
  externalLoadEncoderInput : List ℕ := []
  mmHashesToSchedule : List String := []
  numEmbedsToSchedule : ℕ := 0

namespace EncoderPlan

variable (cfg : EncoderConfig) (request : Request) (numComputedTokens shiftComputedTokens : ℕ)

def embedsIndices (numNewTokens : ℤ) (f : MultiModalFeatureSpec) : ℕ × ℕ :=
  f.mmPosition.getEmbedsIndicesInRange (numComputedTokens - f.start)
    (min (f.mmPosition.length : ℤ) (numComputedTokens + numNewTokens - f.start)).toNat

/-- If an input may not be scheduled in part, and the step would end within it, it ends before it.
-/
def RollsBack (numNewTokens : ℤ) (f : MultiModalFeatureSpec) : Prop :=
  cfg.disableChunkedMmInput = true ∧ numComputedTokens < f.start ∧
    numComputedTokens + numNewTokens < f.stop

instance (numNewTokens : ℤ) (f : MultiModalFeatureSpec) :
    Decidable (RollsBack cfg numComputedTokens numNewTokens f) := by
  unfold RollsBack
  infer_instance

def accept (i : ℕ) (f : MultiModalFeatureSpec) (plan : EncoderPlan) : EncoderPlan :=
  let idx := embedsIndices numComputedTokens plan.numNewTokens f
  if idx.1 = idx.2 then plan
  else if cfg.hasCacheItem f.identifier then
    { plan with
      mmHashesToSchedule := plan.mmHashesToSchedule ++ [f.identifier]
      externalLoadEncoderInput := plan.externalLoadEncoderInput ++ [i]
      numEmbedsToSchedule := plan.numEmbedsToSchedule + f.numEmbeds }
  else
    { plan with
      numEmbedsToSchedule := plan.numEmbedsToSchedule + f.numEmbeds
      encoderComputeBudget := plan.encoderComputeBudget - f.numEmbeds
      mmHashesToSchedule := plan.mmHashesToSchedule ++ [f.identifier]
      encoderInputsToSchedule := plan.encoderInputsToSchedule ++ [i] }

def schedule (i : ℕ) (f : MultiModalFeatureSpec) (plan : EncoderPlan) :
    Except EncoderError (EncoderPlan × Bool) := do
  if RollsBack cfg numComputedTokens plan.numNewTokens f then
    pure ({ plan with
      numNewTokens := max 0 ((f.start : ℤ) - (numComputedTokens + shiftComputedTokens : ℕ)) }, false)
  else
    let out ← plan.cache.canAllocate request i plan.encoderComputeBudget plan.numEmbedsToSchedule
    if out.2 then pure (accept cfg numComputedTokens i f { plan with cache := out.1 }, true)
    else
      pure ({ plan with
        cache := out.1
        numNewTokens :=
          if numComputedTokens + shiftComputedTokens < f.start then
            (f.start : ℤ) - (numComputedTokens + shiftComputedTokens : ℕ)
          else 0 }, false)

def visit (i : ℕ) (f : MultiModalFeatureSpec) (plan : EncoderPlan) :
    Except EncoderError (EncoderPlan × Bool) := do
  if plan.cache.isEncoderDecoder ∧ 0 < numComputedTokens then
    if f.start = 0 then pure (plan, true) else throw .encoderInputNotAtStart
  else if f.stop ≤ numComputedTokens then pure (plan, true)
  else if plan.cache.isEncoderDecoder then
    schedule cfg request numComputedTokens shiftComputedTokens i f plan
  else if f.identifier ∈ plan.mmHashesToSchedule then pure (plan, true)
  else
    let out ← plan.cache.checkAndUpdateCache request i
    if out.2 then pure ({ plan with cache := out.1 }, true)
    else schedule cfg request numComputedTokens shiftComputedTokens i f { plan with cache := out.1 }

def loop : ℕ → List MultiModalFeatureSpec → EncoderPlan → Except EncoderError EncoderPlan
  | _, [], plan => pure plan
  | i, f :: fs, plan => do
    if (f.start : ℤ) ≥ numComputedTokens + plan.numNewTokens + shiftComputedTokens then pure plan
    else
      let out ← visit cfg request numComputedTokens shiftComputedTokens i f plan
      if out.2 then loop (i + 1) fs out.1 else pure out.1

theorem of_drop_eq_cons {request : Request} {i f fs} (h : request.mmFeatures.drop i = f :: fs) :
    request.mmFeatures[i]? = some f ∧ request.mmFeatures.drop (i + 1) = fs := by
  rw [← List.head?_drop, ← List.tail_drop, h]
  exact ⟨rfl, rfl⟩

end EncoderPlan

def tryScheduleEncoderInputs (cfg : EncoderConfig) (cache : EncoderCache) (request : Request)
    (numComputedTokens : ℕ) (numNewTokens encoderComputeBudget : ℤ) (shiftComputedTokens : ℕ) :
    Except EncoderError EncoderPlan :=
  let plan : EncoderPlan := { cache, numNewTokens, encoderComputeBudget }
  if numNewTokens = 0 ∨ request.mmFeatures = [] then pure plan
  else EncoderPlan.loop cfg request numComputedTokens shiftComputedTokens 0 request.mmFeatures plan

end VllmEngine.Sched

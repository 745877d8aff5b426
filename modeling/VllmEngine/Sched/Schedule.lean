import VllmEngine.Sched.SchedRequest
import Mathlib.Algebra.Order.Ring.Int

namespace VllmEngine.Sched

open VllmEngine.Core

/-- What is left for a request at its turn in `schedule`: the token budget, and the limit of its
encoder inputs, if it has any. -/
structure Budget where
  tokenBudget : ℕ
  encoderLimit : Option ℤ := none
  deriving DecidableEq

def Budget.limitEncoder (b : Budget) (n : ℤ) : ℤ :=
  match b.encoderLimit with
  | none => n
  | some limit => min n limit

namespace SchedRequest

variable (cfg : SchedulerConfig) (b : Budget) (r : SchedRequest)

def longPrefillLimit (n : ℤ) : ℤ :=
  if 0 < cfg.longPrefillTokenThreshold ∧ (cfg.longPrefillTokenThreshold : ℤ) < n then
    cfg.longPrefillTokenThreshold
  else n

section

variable (numComputedTokens : ℕ)

/-- `_mamba_block_aligned_split`, for `numComputedTokens` local and own computed tokens. -/
def mambaBlockAlignedSplit (numNewTokens : ℤ) : ℤ :=
  if numComputedTokens < max r.numPromptTokens (r.numTokens - 1) then
    let aligned := r.numTokens - r.numTokens % cfg.blockSize
    let lastCachePosition := if cfg.useEagle then aligned - cfg.blockSize else aligned
    let afterSched : ℤ := numComputedTokens + numNewTokens
    if afterSched < lastCachePosition then numNewTokens / cfg.blockSize * cfg.blockSize
    else if numComputedTokens < lastCachePosition ∧ lastCachePosition < afterSched then
      (lastCachePosition : ℤ) - numComputedTokens
    else numNewTokens
  else numNewTokens

def splitForMamba (n : ℤ) : ℤ :=
  if cfg.needMambaBlockAlignedSplit then mambaBlockAlignedSplit cfg r numComputedTokens n else n

def numNewTokensRunning : ℤ :=
  let n : ℤ := (r.numTokensWithSpec + r.numOutputPlaceholders : ℕ) - r.numComputedTokens
  let n := min (longPrefillLimit cfg n) b.tokenBudget
  let n := min n ((cfg.maxModelLen : ℤ) - 1 - r.numComputedTokens)
  splitForMamba cfg r r.numComputedTokens (b.limitEncoder n)

/-- `num_new_tokens` of a waiting request with `numComputedTokens` tokens; `none` when chunked
prefill is off and the budget too small. -/
def numNewTokensWaiting : Option ℤ :=
  let n := longPrefillLimit cfg ((r.numTokens : ℤ) - numComputedTokens)
  if cfg.enableChunkedPrefill = false ∧ (b.tokenBudget : ℤ) < n then none
  else some (splitForMamba cfg r numComputedTokens (b.limitEncoder (min n b.tokenBudget)))

end

def updateAfterSchedule (n : ℕ) : SchedRequest :=
  { r with
    numComputedTokens := r.numComputedTokens + n
    isPrefillChunk := r.numComputedTokens + n < r.numTokens + r.numOutputPlaceholders }

def scheduledSpecTokenIds (n : ℕ) : List ℤ :=
  r.specTokenIds.take (n + r.numComputedTokens - r.numTokens - r.numOutputPlaceholders)

/-- A running request gets its tokens: the request after `schedule`, and its scheduled drafts. A
negative number fails an assertion of `update_from_output`. -/
def scheduleRunning : Option (SchedRequest × List ℤ) :=
  let n := numNewTokensRunning cfg b r
  if r.status = .running ∧ 0 < n then
    some (updateAfterSchedule { r with specTokenIds := [] } n.toNat,
      r.scheduledSpecTokenIds n.toNat)
  else none

/-- A waiting or preempted request is admitted, with `hits` tokens of it found in the cache. -/
def scheduleWaiting (hits : ℕ) : Option SchedRequest :=
  let computed := if r.numComputedTokens = 0 then hits else r.numComputedTokens
  match numNewTokensWaiting cfg b r computed with
  | none => none
  | some n =>
    if (r.status = .waiting ∨ r.status = .preempted) ∧ computed ≤ r.numTokens ∧ 0 < n then
      some (updateAfterSchedule { r with status := .running, numComputedTokens := computed } n.toNat)
    else none

def preemptRequest : SchedRequest :=
  { r with status := .preempted, numComputedTokens := 0, specTokenIds := [] }

/-- `update_draft_token_ids`, with the drafts that the grammar left. -/
def updateDraftTokenIds (specTokenIds : List ℤ) : SchedRequest :=
  if r.status.isFinished then r
  else { r with specTokenIds := if r.isPrefillChunk then [] else specTokenIds }

end SchedRequest

end VllmEngine.Sched

import VllmEngine.Worker.StepRule
import VllmEngine.Worker.ThinkingBudget

namespace VllmEngine.Worker

open Lib

def CachedRequestState.extend (r : CachedRequestState) (tokens : List ℕ) : CachedRequestState :=
  { r with outputTokenIds := r.outputTokenIds ++ tokens }

namespace InputBatch

variable (b : InputBatch)

def hasBadWords : Bool := (List.range b.maxNumReqs).any fun i ↦ (b.badWordsTokenIds i).isSome

def needsOutputTokenIds (logitsprocsNeedOutputTokenIds : Bool) (h : ThinkingBudgetStateHolder) : Bool :=
  !b.noPenalties || b.hasBadWords || logitsprocsNeedOutputTokenIds || !h.hasTrackedRequests

/-- The part of `_bookkeeping_sync` that appends sampled tokens; that of a row may be discarded. -/
def bookkeep (tokens : ℕ → Option ℕ) : InputBatch :=
  { b with
    reqOutputTokenIds := b.reqOutputTokenIds.mapIdx fun i output ↦
      output.map (· ++ (tokens i).toList)
    tokenIdsCpu := fun i ↦
      writeAt (b.scalars i).numTokensNoSpec (tokens i).toList (b.tokenIdsCpu i)
    scalars := fun i ↦ { b.scalars i with
      numTokensNoSpec := (b.scalars i).numTokensNoSpec + (tokens i).toList.length } }

end InputBatch

def Requests.extend (requests : Requests) (b : InputBatch) (tokens : ℕ → Option ℕ) : Requests :=
  fun reqId ↦ (requests reqId).map (·.extend ((b.reqIdToIndex.get? reqId).bind tokens).toList)

/-- A worker without speculative decoding between steps; `givesOutputTokenIds` says whether the
sampling metadata has the output tokens. -/
structure WorkerState where
  requests : Requests
  batch : InputBatch
  holder : ThinkingBudgetStateHolder
  givesOutputTokenIds : Bool

namespace WorkerState

variable (σ : WorkerState)

def refresh (logitsprocsNeedOutputTokenIds : Bool) (step : WorkerStep) (b : InputBatch) :
    WorkerState where
  requests := σ.requests.add step.additions
  batch := b.refresh.1
  holder := σ.holder.syncBatch b.refresh.2
  givesOutputTokenIds :=
    if b.refresh.2.isSome then
      b.needsOutputTokenIds logitsprocsNeedOutputTokenIds (σ.holder.syncBatch b.refresh.2)
    else σ.givesOutputTokenIds

/-- `output_token_ids` of the sampling metadata: the live list of the batch, or an empty one. -/
def outputTokenIds : List (List ℕ) :=
  if σ.givesOutputTokenIds then σ.batch.reqOutputTokenIds.map (·.getD []) else []

def updated : ThinkingBudgetStateHolder :=
  σ.holder.updateState σ.outputTokenIds (List.replicate σ.batch.numReqs []) none

def forced : ℕ → Option ℕ :=
  if σ.holder.hasTrackedRequests then
    (σ.updated.applyToLogits σ.batch.numReqs false (List.replicate σ.batch.numReqs [])).1
  else fun _ ↦ none

def sample (tokens : ℕ → Option ℕ) : WorkerState :=
  { σ with
    requests := σ.requests.extend σ.batch tokens
    batch := σ.batch.bookkeep tokens
    holder :=
      if σ.holder.hasTrackedRequests then
        (σ.updated.applyToLogits σ.batch.numReqs false (List.replicate σ.batch.numReqs [])).2
      else σ.holder }

end WorkerState

/-- The states of a worker whose steps satisfy `C`. A row with forced logits samples the forced
token. -/
inductive SamplingRun (logitsprocsNeedOutputTokenIds : Bool) (C : WorkerState → WorkerStep → Prop) :
    WorkerState → Prop
  | new (maxNumReqs vocabSize : ℕ) (blocksPerKvBlock : ℕ → ℕ)
      (thinkStartTokenIds thinkEndTokenIds : List ℕ) :
      SamplingRun logitsprocsNeedOutputTokenIds C
        { requests := fun _ ↦ none
          batch :=
            { maxNumReqs, vocabSize
              blockTable := fun g ↦ { blocksPerKvBlock := blocksPerKvBlock g } }
          holder := { maxNumReqs, thinkStartTokenIds, thinkEndTokenIds }
          givesOutputTokenIds := true }
  | step {σ b} (step : WorkerStep)
      (hrun : SamplingRun logitsprocsNeedOutputTokenIds C σ) (hC : C σ step)
      (hstep : step.run σ.batch = .ok b) :
      SamplingRun logitsprocsNeedOutputTokenIds C (σ.refresh logitsprocsNeedOutputTokenIds step b)
  | sample {σ} (tokens : ℕ → Option ℕ)
      (hrun : SamplingRun logitsprocsNeedOutputTokenIds C σ)
      (hrows : ∀ i t, tokens i = some t → i < σ.batch.numReqs)
      (hforced : ∀ i t, tokens i = some t → ∀ token, σ.forced i = some token → t = token) :
      SamplingRun logitsprocsNeedOutputTokenIds C (σ.sample tokens)

end VllmEngine.Worker

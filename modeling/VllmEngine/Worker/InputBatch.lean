import VllmEngine.Lib.Dict
import Mathlib.Data.Finset.Basic
import Mathlib.Data.List.Sort
import Mathlib.Algebra.Order.Field.Rat

namespace VllmEngine.Worker

open Lib Function

structure SamplingParams where
  temperature : ℚ := 1
  topP : ℚ := 1
  topK : ℤ := 0
  frequencyPenalty : ℚ := 0
  presencePenalty : ℚ := 0
  repetitionPenalty : ℚ := 1
  allowedTokenIds : List ℕ := []
  badWordsTokenIds : List (List ℕ) := []
  thinkingTokenBudget : Option ℤ := none
  deriving DecidableEq

/-- `CachedRequestState` of a generation request; `__post_init__` refuses a prompt given neither as
tokens nor as embeddings, or as both with different lengths. -/
structure CachedRequestState where
  reqId : String
  promptTokenIds : Option (List ℕ)
  promptEmbeds : Option (List ℕ) := none
  samplingParams : SamplingParams := {}
  generator : Option ℕ := none
  blockIds : List (List ℕ) := []
  numComputedTokens : ℕ := 0
  outputTokenIds : List ℕ := []
  loraId : Option ℕ := none
  prompt_given : promptTokenIds ≠ none ∨ promptEmbeds ≠ none := by decide
  prompt_length : ∀ tokens ∈ promptTokenIds, ∀ embeds ∈ promptEmbeds,
    tokens.length = embeds.length := by decide
  deriving DecidableEq

namespace CachedRequestState

variable (r : CachedRequestState)

def numPromptTokens : ℕ :=
  match r.promptTokenIds with
  | some tokens => tokens.length
  | none => (r.promptEmbeds.getD []).length

def numTokens : ℕ := r.numPromptTokens + r.outputTokenIds.length

end CachedRequestState

/-- `row[start : start + len(values)] = values`. -/
def writeAt (start : ℕ) (values : List ℕ) (row : ℕ → ℕ) : ℕ → ℕ := fun c ↦
  if start ≤ c then values.getD (c - start) (row c) else row c

/-- `target[:n] = source[:n]`. -/
def copyFirst {α : Type} (n : ℕ) (source target : ℕ → α) : ℕ → α := fun c ↦
  if c < n then source c else target c

def swapAt {α : Type} (i1 i2 : ℕ) (column : ℕ → α) : ℕ → α := column ∘ Equiv.swap i1 i2

def swapDictValues {α : Type} (i1 i2 : ℕ) (d : ℕ → Option α) : ℕ → Option α :=
  update (update d i2 (d i1)) i1 (d i2)

/-- `value = d.pop(source, None)`, and `d[target] = value` if there is one. -/
def moveEntry {α : Type} (source target : ℕ) (d : ℕ → Option α) : ℕ → Option α :=
  if (d source).isNone then d else update (update d source none) target (d source)

structure BlockTable where
  blocksPerKvBlock : ℕ := 1
  blockTable : ℕ → ℕ → ℕ := fun _ _ ↦ 0
  numBlocksPerRow : ℕ → ℕ := fun _ ↦ 0

namespace BlockTable

variable (t : BlockTable)

def mapToKernelBlocks (blocksPerKvBlock : ℕ) (blockIds : List ℕ) : List ℕ :=
  blockIds.flatMap fun b ↦ (List.range blocksPerKvBlock).map (b * blocksPerKvBlock + ·)

def appendRow (blockIds : List ℕ) (row : ℕ) : BlockTable :=
  let blockIds := mapToKernelBlocks t.blocksPerKvBlock blockIds
  { t with
    blockTable := update t.blockTable row
      (writeAt (t.numBlocksPerRow row) blockIds (t.blockTable row))
    numBlocksPerRow := update t.numBlocksPerRow row (t.numBlocksPerRow row + blockIds.length) }

def addRow (blockIds : List ℕ) (row : ℕ) : BlockTable :=
  appendRow { t with numBlocksPerRow := update t.numBlocksPerRow row 0 } blockIds row

def clearRow (row : ℕ) : BlockTable :=
  { t with
    blockTable := update t.blockTable row
      (copyFirst (t.numBlocksPerRow row) (fun _ ↦ 0) (t.blockTable row))
    numBlocksPerRow := update t.numBlocksPerRow row 0 }

def moveRow (source target : ℕ) : BlockTable :=
  { t with
    blockTable := update t.blockTable target
      (copyFirst (t.numBlocksPerRow source) (t.blockTable source) (t.blockTable target))
    numBlocksPerRow := update t.numBlocksPerRow target (t.numBlocksPerRow source) }

def swapRow (source target : ℕ) : BlockTable :=
  { t with
    blockTable := swapAt source target t.blockTable
    numBlocksPerRow := swapAt source target t.numBlocksPerRow }

end BlockTable

/-- The entries of a row in the arrays that `add_request` always writes, `condense` copies and
`swap_states` exchanges. -/
structure RowScalars where
  numTokensNoSpec : ℕ := 0
  numPromptTokens : ℕ := 0
  numComputedTokens : ℕ := 0
  temperature : ℚ := 0
  topP : ℚ := 0
  topK : ℤ := 0
  frequencyPenalty : ℚ := 0
  presencePenalty : ℚ := 0
  repetitionPenalty : ℚ := 0
  numAcceptedTokens : ℕ := 1
  deriving DecidableEq

def samplingEps : ℚ := 1 / 100000

def CachedRequestState.scalars (vocabSize : ℕ) (r : CachedRequestState) : RowScalars where
  numTokensNoSpec := r.numTokens
  numPromptTokens := r.numPromptTokens
  numComputedTokens := r.numComputedTokens
  temperature :=
    if r.samplingParams.temperature < samplingEps then 0 else r.samplingParams.temperature
  topP := r.samplingParams.topP
  topK := if 0 < r.samplingParams.topK ∧ r.samplingParams.topK < vocabSize then r.samplingParams.topK
    else vocabSize
  frequencyPenalty := r.samplingParams.frequencyPenalty
  presencePenalty := r.samplingParams.presencePenalty
  repetitionPenalty := r.samplingParams.repetitionPenalty
  numAcceptedTokens := 1

/-- What the batch stores by row. A dictionary is a function to options; the mask of allowed tokens
is allocated with the first request that has one. -/
structure Columns where
  tokenIdsCpu : ℕ → ℕ → ℕ := fun _ _ ↦ 0
  specTokenIds : ℕ → List ℕ := fun _ ↦ []
  reqPromptEmbeds : ℕ → Option (List ℕ) := fun _ ↦ none
  scalars : ℕ → RowScalars := fun _ ↦ {}
  blockTable : ℕ → BlockTable := fun _ ↦ {}
  requestLoraMapping : ℕ → ℕ := fun _ ↦ 0
  generators : ℕ → Option ℕ := fun _ ↦ none
  badWordsTokenIds : ℕ → Option (List (List ℕ)) := fun _ ↦ none
  allowedTokenIdsMask : Option (ℕ → ℕ → Bool) := none

namespace Columns

variable (c : Columns) (vocabSize : ℕ)

def write (r : CachedRequestState) (row : ℕ) : Columns :=
  { tokenIdsCpu := update c.tokenIdsCpu row (writeAt r.numPromptTokens r.outputTokenIds
        (writeAt 0 (r.promptTokenIds.getD []) (c.tokenIdsCpu row)))
    specTokenIds := update c.specTokenIds row []
    reqPromptEmbeds :=
      match r.promptEmbeds with
      | some embeds => update c.reqPromptEmbeds row (some embeds)
      | none => c.reqPromptEmbeds
    scalars := update c.scalars row (r.scalars vocabSize)
    blockTable := fun g ↦ (c.blockTable g).addRow (r.blockIds.getD g []) row
    requestLoraMapping := update c.requestLoraMapping row (r.loraId.getD 0)
    generators :=
      match r.generator with
      | some generator => update c.generators row (some generator)
      | none => c.generators
    badWordsTokenIds :=
      if r.samplingParams.badWordsTokenIds ≠ [] then
        update c.badWordsTokenIds row (some r.samplingParams.badWordsTokenIds)
      else c.badWordsTokenIds
    allowedTokenIdsMask :=
      if r.samplingParams.allowedTokenIds ≠ [] then
        -- a token that is not allowed is marked
        some (update (c.allowedTokenIdsMask.getD fun _ _ ↦ false) row
          fun tokenId ↦ decide (tokenId ∉ r.samplingParams.allowedTokenIds))
      else c.allowedTokenIdsMask }

def clear (row : ℕ) : Columns :=
  { c with
    specTokenIds := update c.specTokenIds row []
    blockTable := fun g ↦ (c.blockTable g).clearRow row
    requestLoraMapping := update c.requestLoraMapping row 0
    generators := update c.generators row none
    badWordsTokenIds := update c.badWordsTokenIds row none
    allowedTokenIdsMask := c.allowedTokenIdsMask.map fun mask ↦
      update mask row fun _ ↦ false }

def activeTokenCount (row : ℕ) : ℕ := (c.scalars row).numTokensNoSpec + (c.specTokenIds row).length

def move (source target : ℕ) : Columns :=
  { tokenIdsCpu := update c.tokenIdsCpu target
      (copyFirst (c.activeTokenCount source) (c.tokenIdsCpu source) (c.tokenIdsCpu target))
    specTokenIds := update (update c.specTokenIds target (c.specTokenIds source)) source []
    reqPromptEmbeds := moveEntry source target c.reqPromptEmbeds
    scalars := update c.scalars target (c.scalars source)
    blockTable := fun g ↦ (c.blockTable g).moveRow source target
    requestLoraMapping := update c.requestLoraMapping target (c.requestLoraMapping source)
    generators := moveEntry source target c.generators
    badWordsTokenIds := moveEntry source target c.badWordsTokenIds
    allowedTokenIdsMask := c.allowedTokenIdsMask.map fun mask ↦
      update mask target (mask source) }

def swap (i1 i2 : ℕ) : Columns :=
  let maxActive := max (c.activeTokenCount i1) (c.activeTokenCount i2)
  { tokenIdsCpu := update
      (update c.tokenIdsCpu i1 (copyFirst maxActive (c.tokenIdsCpu i2) (c.tokenIdsCpu i1)))
      i2 (copyFirst maxActive (c.tokenIdsCpu i1) (c.tokenIdsCpu i2))
    specTokenIds := swapAt i1 i2 c.specTokenIds
    reqPromptEmbeds := swapDictValues i1 i2 c.reqPromptEmbeds
    scalars := swapAt i1 i2 c.scalars
    blockTable := fun g ↦ (c.blockTable g).swapRow i1 i2
    requestLoraMapping := swapAt i1 i2 c.requestLoraMapping
    generators := swapDictValues i1 i2 c.generators
    badWordsTokenIds := swapDictValues i1 i2 c.badWordsTokenIds
    allowedTokenIdsMask := c.allowedTokenIdsMask.map fun mask ↦
      -- the rows on the right-hand side are views: the second assignment reads the row that the
      -- first one has written
      let mask := update mask i1 (mask i2)
      update mask i2 (mask i1) }

end Columns

inductive MoveDirectionality
  | unidirectional
  | swap
  deriving DecidableEq

/-- The last field is not in the source's tuple and no function reads it: the request for which the
row was registered. -/
structure AddedRequest where
  index : ℕ
  params : SamplingParams
  promptTokIds : Option (List ℕ)
  outputTokIds : List ℕ
  request : CachedRequestState
  deriving DecidableEq

structure BatchUpdate where
  batchSize : ℕ
  removed : List ℕ
  added : List AddedRequest
  moved : List (ℕ × ℕ × MoveDirectionality)
  deriving DecidableEq

structure BatchUpdateBuilder where
  removed : List ℕ := []
  isRemovedSorted : Bool := false
  added : List AddedRequest := []
  moved : List (ℕ × ℕ × MoveDirectionality) := []
  deriving DecidableEq

namespace BatchUpdateBuilder

variable (u : BatchUpdateBuilder)

/-- The indices in descending order, so that the lowest one is the last. -/
def ensureRemovedSorted : BatchUpdateBuilder :=
  if u.isRemovedSorted then u
  else { u with removed := u.removed.insertionSort (· ≥ ·), isRemovedSorted := true }

def popRemoved : Option (ℕ × BatchUpdateBuilder) :=
  let u := u.ensureRemovedSorted
  u.removed.getLast?.map fun index ↦ (index, { u with removed := u.removed.dropLast })

def getAndReset (batchSize : ℕ) : Option BatchUpdate :=
  if u.removed = [] ∧ u.moved = [] ∧ u.added = [] then none
  else some { batchSize, removed := u.removed, added := u.added, moved := u.moved }

end BatchUpdateBuilder

inductive BatchError
  | removedAfterRead
  | batchFull
  | emptyRow
  deriving DecidableEq

structure InputBatch extends Columns where
  maxNumReqs : ℕ
  vocabSize : ℕ
  reqIds : List (Option String) := []
  reqOutputTokenIds : List (Option (List ℕ)) := []
  reqIdToIndex : Dict String ℕ := .empty
  frequencyPenaltiesReqs : Finset String := ∅
  presencePenaltiesReqs : Finset String := ∅
  repetitionPenaltiesReqs : Finset String := ∅
  batchUpdateBuilder : BatchUpdateBuilder := {}

namespace InputBatch

variable (b : InputBatch)

def numReqs : ℕ := b.reqIdToIndex.size

def noPenalties : Bool :=
  b.presencePenaltiesReqs = ∅ ∧ b.frequencyPenaltiesReqs = ∅ ∧ b.repetitionPenaltiesReqs = ∅

def registerAddRequest (r : CachedRequestState) : Except BatchError (ℕ × InputBatch) :=
  let popped := (b.batchUpdateBuilder.popRemoved).getD (b.numReqs, b.batchUpdateBuilder)
  if popped.1 < b.maxNumReqs then
    .ok (popped.1, { b with batchUpdateBuilder := { popped.2 with
      added := popped.2.added ++
        [⟨popped.1, r.samplingParams, r.promptTokenIds, r.outputTokenIds, r⟩] } })
  else .error .batchFull

def addRequest (r : CachedRequestState) : Except BatchError InputBatch := do
  let (reqIndex, b) ← b.registerAddRequest r
  pure { b with
    toColumns := b.toColumns.write b.vocabSize r reqIndex
    reqIds := if reqIndex = b.reqIds.length then b.reqIds ++ [some r.reqId]
      else b.reqIds.set reqIndex (some r.reqId)
    reqOutputTokenIds :=
      if reqIndex = b.reqIds.length then b.reqOutputTokenIds ++ [some r.outputTokenIds]
      else b.reqOutputTokenIds.set reqIndex (some r.outputTokenIds)
    reqIdToIndex := b.reqIdToIndex.set r.reqId reqIndex
    frequencyPenaltiesReqs :=
      if r.samplingParams.frequencyPenalty ≠ 0 then insert r.reqId b.frequencyPenaltiesReqs
      else b.frequencyPenaltiesReqs
    presencePenaltiesReqs :=
      if r.samplingParams.presencePenalty ≠ 0 then insert r.reqId b.presencePenaltiesReqs
      else b.presencePenaltiesReqs
    repetitionPenaltiesReqs :=
      if r.samplingParams.repetitionPenalty ≠ 1 then insert r.reqId b.repetitionPenaltiesReqs
      else b.repetitionPenaltiesReqs }

def removeRequest (reqId : String) : Except BatchError InputBatch :=
  match b.reqIdToIndex.get? reqId with
  | none => .ok b
  | some reqIndex =>
    -- `removed_append`
    if b.batchUpdateBuilder.isRemovedSorted then .error .removedAfterRead
    else .ok { b with
      toColumns := b.toColumns.clear reqIndex
      reqIds := b.reqIds.set reqIndex none
      reqOutputTokenIds := b.reqOutputTokenIds.set reqIndex none
      reqIdToIndex := b.reqIdToIndex.erase reqId
      frequencyPenaltiesReqs := b.frequencyPenaltiesReqs.erase reqId
      presencePenaltiesReqs := b.presencePenaltiesReqs.erase reqId
      repetitionPenaltiesReqs := b.repetitionPenaltiesReqs.erase reqId
      batchUpdateBuilder := { b.batchUpdateBuilder with
        removed := b.batchUpdateBuilder.removed ++ [reqIndex] } }

def swapStates (i1 i2 : ℕ) : Except BatchError InputBatch :=
  match b.reqIds[i1]?.join, b.reqIds[i2]?.join with
  | some id1, some id2 =>
    .ok { b with
      toColumns := b.toColumns.swap i1 i2
      reqIds := (b.reqIds.set i1 (some id2)).set i2 (some id1)
      reqOutputTokenIds := (b.reqOutputTokenIds.set i1 b.reqOutputTokenIds[i2]?.join).set i2
        b.reqOutputTokenIds[i1]?.join
      -- the two indices are read before either is written
      reqIdToIndex := (b.reqIdToIndex.set id1 ((b.reqIdToIndex.get? id2).getD 0)).set id2
        ((b.reqIdToIndex.get? id1).getD 0)
      batchUpdateBuilder := { b.batchUpdateBuilder with
        moved := b.batchUpdateBuilder.moved ++ [(i1, i2, .swap)] } }
  | _, _ => .error .emptyRow

/-- One pass of the loop of `condense` that moves the request in the last row. -/
def moveDown (reqId : String) (lastReqIndex emptyIndex : ℕ) : InputBatch :=
  { b with
    toColumns := b.toColumns.move lastReqIndex emptyIndex
    reqIds := (b.reqIds.set emptyIndex (some reqId)).set lastReqIndex none
    reqOutputTokenIds :=
      (b.reqOutputTokenIds.set emptyIndex b.reqOutputTokenIds[lastReqIndex]?.join).set lastReqIndex none
    reqIdToIndex := b.reqIdToIndex.set reqId emptyIndex
    batchUpdateBuilder := { b.batchUpdateBuilder with
      moved := b.batchUpdateBuilder.moved ++ [(lastReqIndex, emptyIndex, .unidirectional)] } }

/-- The loops of `condense`, from the last row down; the argument is one more than `last_req_index`,
which always falls. -/
def condenseLoop : ℕ → InputBatch → Except BatchError InputBatch
  | 0, b => .ok b
  | lastReqIndex + 1, b =>
    match b.batchUpdateBuilder.popRemoved with
    | none => .ok b
    | some (emptyIndex, popped) =>
      if lastReqIndex ∈ b.batchUpdateBuilder.removed then condenseLoop lastReqIndex b
      else if lastReqIndex ≤ emptyIndex then .ok b
      else
        match b.reqIds[lastReqIndex]?.join with
        | none => .error .emptyRow
        | some reqId =>
          condenseLoop lastReqIndex
            ({ b with batchUpdateBuilder := popped }.moveDown reqId lastReqIndex emptyIndex)

def condense : Except BatchError InputBatch :=
  let b := { b with batchUpdateBuilder := b.batchUpdateBuilder.ensureRemovedSorted }
  if b.batchUpdateBuilder.removed = [] then .ok b
  else if b.numReqs = 0 then .ok { b with reqIds := [], reqOutputTokenIds := [] }
  else do
    let b ← condenseLoop (b.numReqs + b.batchUpdateBuilder.removed.length) b
    pure { b with
      reqIds := b.reqIds.take b.numReqs, reqOutputTokenIds := b.reqOutputTokenIds.take b.numReqs }

/-- The batch after `refresh_metadata`, and the update that it hands out. -/
def refresh : InputBatch × Option BatchUpdate :=
  ({ b with batchUpdateBuilder := {} }, b.batchUpdateBuilder.getAndReset b.numReqs)

end InputBatch

structure WorkerStep where
  removals : List String := []
  additions : List CachedRequestState := []
  swaps : List (ℕ × ℕ) := []

def WorkerStep.run (step : WorkerStep) (b : InputBatch) : Except BatchError InputBatch := do
  let b ← step.removals.foldlM InputBatch.removeRequest b
  let b ← step.additions.foldlM InputBatch.addRequest b
  let b ← b.condense
  step.swaps.foldlM (fun b swap ↦ b.swapStates swap.1 swap.2) b

end VllmEngine.Worker

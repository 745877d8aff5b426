import VllmEngine.Core.CacheHit
import VllmEngine.Lib.Triple

namespace VllmEngine.Core

open Lib BlockHash BlockPool

inductive ManagerError
  | pool (e : PoolError)
  | hit (e : HitError)
  | sinkLen
  | hitsOfRunningRequest
  | tableNotEmpty
  | hitsWithoutCaching
  | hitsOfCrossAttention
  | cachingOfCrossAttention
  | fewerBlocksRequired
  | tooManyNewBlocks
  | blockWithoutHash
  | indexError
  | noNewTokens
  | coordinatorConfig
  deriving DecidableEq

/-- Calls on the block pool. What a manager keeps besides is passed along. -/
abbrev ManagerM := EStateM ManagerError BlockPool

def onPool {α : Type} (m : PoolM α) : ManagerM α := fun p ↦
  match m p with
  | .ok a p' => .ok a p'
  | .error e p' => .error (.pool e) p'

/-- A manager of the class that belongs to its spec. `MambaManager` adds the last three fields. -/
structure SingleTypeKVCacheManager where
  kvCacheSpec : KVCacheSpec
  kvCacheGroupId : ℕ
  enableCaching : Bool
  maxAdmissionBlocksPerRequest : Option ℕ := none
  reqToBlocks : Dict ReqId (List Ref) := .empty
  numCachedBlock : Dict ReqId ℕ := .empty
  sinkBlocks : List Ref := []
  cachedBlocksThisStep : List BlockHashWithGroupId := []
  lastStateBlockIdx : Dict ReqId ℕ := .empty
  allocatedBlockReqs : List ReqId := []

namespace SingleTypeKVCacheManager

variable (m : SingleTypeKVCacheManager)

def kind : SpecKind := m.kvCacheSpec.kind

def blockSize : ℕ := m.kvCacheSpec.blockSize

/-- `self.req_to_blocks[request_id]`, a `defaultdict`. -/
def table (requestId : ReqId) : List Ref := (m.reqToBlocks.get? requestId).getD []

def setTable (requestId : ReqId) (blocks : List Ref) : SingleTypeKVCacheManager :=
  { m with reqToBlocks := m.reqToBlocks.set requestId blocks }

/-- `SlidingWindowSpec.max_admission_blocks_per_request` and its chunked-local counterpart. -/
def maxAdmissionBlocks (spec : KVCacheSpec) (maxNumBatchedTokens maxModelLen : ℕ) : Option ℕ :=
  match spec.kind with
  | .slidingWindow window =>
    some (cdiv (min (window - 1 + maxNumBatchedTokens) maxModelLen) spec.blockSize + 1)
  | .chunkedLocalAttention chunkSize =>
    some (cdiv (min (chunkSize + maxNumBatchedTokens) maxModelLen) spec.blockSize)
  | .fullAttention | .sinkFullAttention _ | .mamba .. | .crossAttention => none

/-- `get_manager_for_kv_cache_spec`. The manager of sink tokens sets their blocks aside. -/
def getManagerForKvCacheSpec (spec : KVCacheSpec) (kvCacheGroupId : ℕ) (enableCaching : Bool)
    (maxNumBatchedTokens maxModelLen : ℕ) : ManagerM SingleTypeKVCacheManager :=
  match spec.kind with
  | .sinkFullAttention sinkLen =>
    if sinkLen = 0 ∨ sinkLen % spec.blockSize ≠ 0 then throw .sinkLen
    else do
      let sinkBlocks ← onPool (onQueue
        (FreeKVCacheBlockQueue.popleftN (sinkLen / spec.blockSize : ℕ)))
      pure { kvCacheSpec := spec, kvCacheGroupId, enableCaching, sinkBlocks }
  | .fullAttention | .slidingWindow _ | .chunkedLocalAttention _ | .mamba .. | .crossAttention =>
    pure {
      kvCacheSpec := spec, kvCacheGroupId, enableCaching
      maxAdmissionBlocksPerRequest := maxAdmissionBlocks spec maxNumBatchedTokens maxModelLen }

/-- `get_num_skipped_tokens`. For Mamba and no computed tokens the source returns `-1`, which
callers treat as `0`. -/
def getNumSkippedTokens (numComputedTokens : ℕ) : ℕ :=
  match m.kind with
  | .fullAttention | .sinkFullAttention _ | .crossAttention => 0
  | .slidingWindow window => numComputedTokens + 1 - window
  | .chunkedLocalAttention chunkSize => numComputedTokens / chunkSize * chunkSize
  | .mamba .. => numComputedTokens - 1

section

variable (p : BlockPool)

def getNumEvictableBlocks (blocks : List Ref) : ℕ :=
  (blocks.filter fun b ↦ p.refCnt b = 0 ∧ ¬ p.isNull b).length

def numBlocksToAllocate (requestId : ReqId) (numTokens : ℕ)
    (newComputedBlocks : List Ref) (totalComputedTokens : ℕ) (applyAdmissionCap : Bool) :
    Except ManagerError ℕ :=
  let required := cdiv numTokens m.blockSize
  let numRequiredBlocks :=
    match applyAdmissionCap, m.maxAdmissionBlocksPerRequest with
    | true, some cap => min required cap
    | _, _ => required
  let numReqBlocks := (m.table requestId).length
  if (m.numCachedBlock.get? requestId).isSome then
    if newComputedBlocks ≠ [] then .error .hitsOfRunningRequest
    else .ok (numRequiredBlocks - numReqBlocks)
  else
    let numSkippedBlocks := m.getNumSkippedTokens totalComputedTokens / m.blockSize
    let numNewBlocks :=
      numRequiredBlocks - max numSkippedBlocks (newComputedBlocks.length + numReqBlocks)
    .ok (numNewBlocks +
      getNumEvictableBlocks p (newComputedBlocks.drop (numSkippedBlocks - numReqBlocks)))

/-- The first test of `MambaManager.get_num_blocks_to_allocate`. -/
def hitsThisStep (newComputedBlocks : List Ref) : Bool :=
  match newComputedBlocks.getLast?.bind p.blockHash with
  | none => false
  | some key => key ∈ m.cachedBlocksThisStep

/-- `MambaManager.get_num_blocks_to_allocate` in `align` mode, which nothing keeps from being
negative. -/
def numBlocksToAllocateAlign (requestId : ReqId) (newComputedBlocks : List Ref)
    (numTokensMainModel numSpeculativeBlocks : ℕ) : ℤ :=
  let numRequiredBlocks := cdiv numTokensMainModel m.blockSize + numSpeculativeBlocks
  let numNewBlocks : ℤ :=
    numRequiredBlocks - newComputedBlocks.length - (m.table requestId).length
  let numNewBlocks :=
    if 0 < numNewBlocks then
      (if requestId ∈ m.allocatedBlockReqs then 1 else 1 + (numSpeculativeBlocks : ℤ))
    else numNewBlocks
  numNewBlocks + getNumEvictableBlocks p newComputedBlocks

def getNumBlocksToAllocate (requestId : ReqId) (numTokens : ℕ)
    (newComputedBlocks : List Ref) (totalComputedTokens numTokensMainModel : ℕ)
    (applyAdmissionCap : Bool) : Except ManagerError ℤ :=
  match m.kind with
  | .mamba mode numSpeculativeBlocks =>
    if m.hitsThisStep p newComputedBlocks then .ok (p.numGpuBlocks + 1)
    else
      match mode with
      | .align =>
        .ok (m.numBlocksToAllocateAlign p requestId newComputedBlocks numTokensMainModel
          numSpeculativeBlocks)
      | .none | .all =>
        (m.numBlocksToAllocate p requestId (numTokens + m.blockSize * numSpeculativeBlocks)
          newComputedBlocks totalComputedTokens applyAdmissionCap).map Nat.cast
  | .fullAttention | .sinkFullAttention _ | .slidingWindow _ | .chunkedLocalAttention _
  | .crossAttention =>
    (m.numBlocksToAllocate p requestId numTokens newComputedBlocks totalComputedTokens
      applyAdmissionCap).map Nat.cast

end

section

variable (requestId : ReqId)

/-- `allocate_new_computed_blocks` of all classes but cross-attention, for a new request. -/
def addComputedBlocks (newComputedBlocks : List Ref)
    (numLocalComputedTokens numExternalComputedTokens : ℕ) : ManagerM SingleTypeKVCacheManager :=
  let total := numLocalComputedTokens + numExternalComputedTokens
  let numSkippedTokens := m.getNumSkippedTokens total
  let numSkippedBlocks := numSkippedTokens / m.blockSize
  let hits := newComputedBlocks.drop numSkippedBlocks
  let numExternal :=
    if 0 < numSkippedBlocks then min (total - numSkippedTokens) numExternalComputedTokens
    else numExternalComputedTokens
  do
    if m.enableCaching then onPool (touch hits)
    else if hits ≠ [] then throw .hitsWithoutCaching
    let p ← get
    let blocks := List.replicate numSkippedBlocks p.nullBlock ++ hits
    let m' := { m with numCachedBlock := m.numCachedBlock.set requestId blocks.length }
    if 0 < numExternal then
      let allocated ← onPool (getNewBlocks (cdiv total m.blockSize - blocks.length))
      pure (m'.setTable requestId (blocks ++ allocated))
    else pure (m'.setTable requestId blocks)

def allocateNewComputedBlocks (newComputedBlocks : List Ref)
    (numLocalComputedTokens numExternalComputedTokens : ℕ) : ManagerM SingleTypeKVCacheManager :=
  if m.kind = .crossAttention then
    if newComputedBlocks ≠ [] then throw .hitsOfCrossAttention else pure m
  else if (m.numCachedBlock.get? requestId).isSome then
    if newComputedBlocks ≠ [] then throw .hitsOfRunningRequest else pure m
  else if m.table requestId ≠ [] then throw .tableNotEmpty
  else m.addComputedBlocks requestId newComputedBlocks numLocalComputedTokens
    numExternalComputedTokens

def allocateBlocks (numTokens : ℕ) : ManagerM (SingleTypeKVCacheManager × List Ref) :=
  let reqBlocks := m.table requestId
  let numRequiredBlocks := cdiv numTokens m.blockSize
  if numRequiredBlocks ≤ reqBlocks.length then pure (m.setTable requestId reqBlocks, [])
  else do
    let newBlocks ← onPool (getNewBlocks (numRequiredBlocks - reqBlocks.length))
    pure (m.setTable requestId (reqBlocks ++ newBlocks), newBlocks)

/-- The loop of `align` mode that moves the speculative blocks with the given indices to the end. -/
def reuseLoop (nullBlock : Ref) (numSkippedBlocks : ℕ) :
    List ℕ → List Ref → Except ManagerError (List Ref)
  | [], reqBlocks => .ok reqBlocks
  | blockIdx :: rest, reqBlocks =>
    if blockIdx < numSkippedBlocks then
      match reqBlocks[blockIdx]? with
      | none => .error .indexError
      | some b => reuseLoop nullBlock numSkippedBlocks rest ((reqBlocks ++ [b]).set blockIdx nullBlock)
    else .ok reqBlocks

/-- The index of the block with the last state, once a table of length `prevBlockLen` is to grow. An
allocated table is longer than its speculative blocks. -/
def newLastStateBlockIdx (prevBlockLen numSpeculativeBlocks : ℕ) : Dict ReqId ℕ :=
  if requestId ∈ m.allocatedBlockReqs then
    m.lastStateBlockIdx.set requestId (prevBlockLen - 1 - numSpeculativeBlocks)
  else if 0 < prevBlockLen then m.lastStateBlockIdx.set requestId (prevBlockLen - 1)
  else m.lastStateBlockIdx

/-- The table of a request after the null blocks and the reused speculative blocks. -/
def extendTable (nullBlock : Ref) (allocated : Bool) (reqBlocks : List Ref)
    (numRequiredBlocks numSpeculativeBlocks : ℕ) : Except ManagerError (List Ref) :=
  let prevBlockLen := reqBlocks.length
  let numSkippedBlocks := numRequiredBlocks - numSpeculativeBlocks - 1
  let padded := reqBlocks ++ List.replicate (numSkippedBlocks - prevBlockLen) nullBlock
  if allocated then
    reuseLoop nullBlock numSkippedBlocks
      (List.range' (prevBlockLen - numSpeculativeBlocks) numSpeculativeBlocks) padded
  else .ok padded

def allocateBlocksAlign (numTokensMainModel numSpeculativeBlocks : ℕ) :
    ManagerM (SingleTypeKVCacheManager × List Ref) :=
  let reqBlocks := m.table requestId
  let numRequiredBlocks := cdiv numTokensMainModel m.blockSize + numSpeculativeBlocks
  let allocated := decide (requestId ∈ m.allocatedBlockReqs)
  if numRequiredBlocks = reqBlocks.length then pure (m.setTable requestId reqBlocks, [])
  else if ¬ numRequiredBlocks > reqBlocks.length then throw .fewerBlocksRequired
  else do
    let p ← get
    match extendTable p.nullBlock allocated reqBlocks numRequiredBlocks numSpeculativeBlocks with
    | .error e => throw e
    | .ok extended =>
      let numNewBlocks : ℤ := numRequiredBlocks - extended.length
      if numNewBlocks > (if allocated then 1 else (numSpeculativeBlocks : ℤ) + 1) then
        throw .tooManyNewBlocks
      else
        let newBlocks ← onPool (getNewBlocks numNewBlocks)
        let blocks := extended ++ newBlocks
        pure ({ m.setTable requestId blocks with
          lastStateBlockIdx := m.newLastStateBlockIdx requestId reqBlocks.length numSpeculativeBlocks
          allocatedBlockReqs := m.allocatedBlockReqs.insert requestId },
          blocks.drop reqBlocks.length)

def allocateNewBlocks (numTokens numTokensMainModel : ℕ) :
    ManagerM (SingleTypeKVCacheManager × List Ref) :=
  match m.kind with
  | .mamba .align numSpeculativeBlocks =>
    m.allocateBlocksAlign requestId numTokensMainModel numSpeculativeBlocks
  | .mamba .none numSpeculativeBlocks | .mamba .all numSpeculativeBlocks =>
    m.allocateBlocks requestId (numTokens + m.blockSize * numSpeculativeBlocks)
  | .fullAttention | .sinkFullAttention _ | .slidingWindow _ | .chunkedLocalAttention _
  | .crossAttention => m.allocateBlocks requestId numTokens

def cacheFull (H : Hashing) (request : Request) (numTokens : ℕ) :
    ManagerM SingleTypeKVCacheManager :=
  let numCachedBlocks := (m.numCachedBlock.get? request.requestId).getD 0
  let numFullBlocks := numTokens / m.blockSize
  if numCachedBlocks ≥ numFullBlocks then pure m
  else do
    onPool (cacheFullBlocks H request (m.table request.requestId) numCachedBlocks
      numFullBlocks m.blockSize m.kvCacheGroupId)
    pure { m with numCachedBlock := m.numCachedBlock.set request.requestId numFullBlocks }

/-- The loop of `MambaManager.cache_blocks` over the blocks that were just cached. -/
def recordCached (p : BlockPool) :
    List Ref → List BlockHashWithGroupId → Except ManagerError (List BlockHashWithGroupId)
  | [], keys => .ok keys
  | b :: bs, keys =>
    if p.isNull b then recordCached p bs keys
    else
      match p.blockHash b with
      | none => .error .blockWithoutHash
      | some key => recordCached p bs (keys.insert key)

def cacheBlocks (H : Hashing) (request : Request) (numTokens : ℕ) :
    ManagerM SingleTypeKVCacheManager :=
  match m.kind with
  | .crossAttention => throw .cachingOfCrossAttention
  | .mamba .. => do
    let before := (m.numCachedBlock.get? request.requestId).getD 0
    let m' ← m.cacheFull H request numTokens
    let after := (m'.numCachedBlock.get? request.requestId).getD 0
    let p ← get
    match recordCached p (((m'.table request.requestId).take after).drop before)
        m'.cachedBlocksThisStep with
    | .error e => throw e
    | .ok keys => pure { m' with cachedBlocksThisStep := keys }
  | .fullAttention | .sinkFullAttention _ | .slidingWindow _ | .chunkedLocalAttention _ =>
    m.cacheFull H request numTokens

/-- `free`. Only `MambaManager` in `align` mode has entries in the last two collections. -/
def free : ManagerM SingleTypeKVCacheManager := do
  onPool (freeBlocks (m.table requestId).reverse)
  pure { m with
    reqToBlocks := m.reqToBlocks.erase requestId
    numCachedBlock := m.numCachedBlock.erase requestId
    lastStateBlockIdx := m.lastStateBlockIdx.erase requestId
    allocatedBlockReqs := m.allocatedBlockReqs.filter (· ≠ requestId) }

/-- The loop of `remove_skipped_blocks` down over the first `n` blocks: the blocks it removes and
the table it leaves. -/
def removeLoop (nullBlock : Ref) : ℕ → List Ref → List Ref × List Ref
  | 0, blocks => ([], blocks)
  | n + 1, blocks =>
    match blocks[n]? with
    | none => ([], blocks)
    | some b =>
      if b = nullBlock then ([], blocks)
      else
        let out := removeLoop nullBlock n (blocks.set n nullBlock)
        (b :: out.1, out.2)

def removeSkipped (totalComputedTokens : ℕ) : ManagerM SingleTypeKVCacheManager :=
  let numSkippedTokens := m.getNumSkippedTokens totalComputedTokens
  if numSkippedTokens = 0 then pure m
  else do
    let p ← get
    let blocks := m.table requestId
    let out := removeLoop p.nullBlock (min (numSkippedTokens / m.blockSize) blocks.length) blocks
    onPool (freeBlocks out.1)
    pure (m.setTable requestId out.2)

/-- The end of `MambaManager.remove_skipped_blocks`, which frees the block of the last state but
one. -/
def removeLastState (numComputedTokens : ℕ) : ManagerM SingleTypeKVCacheManager :=
  match m.lastStateBlockIdx.get? requestId with
  | none => pure m
  | some lastStateBlockIdx =>
    if lastStateBlockIdx + 1 < cdiv numComputedTokens m.blockSize then do
      let p ← get
      let blocks := m.table requestId
      match blocks[lastStateBlockIdx]? with
      | none => throw .indexError
      | some b =>
        if b = p.nullBlock then pure m
        else
          onPool (freeBlocks [b])
          pure (m.setTable requestId (blocks.set lastStateBlockIdx p.nullBlock))
    else pure m

def removeSkippedBlocks (totalComputedTokens : ℕ) : ManagerM SingleTypeKVCacheManager :=
  match m.kind with
  | .mamba mode numSpeculativeBlocks => do
    let numComputedTokens := totalComputedTokens - numSpeculativeBlocks
    let m' ← m.removeSkipped requestId numComputedTokens
    match mode with
    | .align => m'.removeLastState requestId numComputedTokens
    | .none | .all => pure m'
  | .fullAttention | .sinkFullAttention _ | .slidingWindow _ | .chunkedLocalAttention _
  | .crossAttention => m.removeSkipped requestId totalComputedTokens

end

def newStepStarts : SingleTypeKVCacheManager :=
  match m.kind with
  | .mamba .. => { m with cachedBlocksThisStep := [] }
  | .fullAttention | .sinkFullAttention _ | .slidingWindow _ | .chunkedLocalAttention _
  | .crossAttention => m

end SingleTypeKVCacheManager

end VllmEngine.Core

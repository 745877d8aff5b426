import VllmEngine.Core.Hybrid
import VllmEngine.Core.SingleTypeManager

namespace VllmEngine.Core

open Lib BlockHash

/-- How a coordinator searches: `KVCacheCoordinatorNoPrefixCache`, `UnitaryKVCacheCoordinator` or
`HybridKVCacheCoordinator`. -/
inductive KVCacheCoordinator
  | noPrefixCache (numSingleTypeManager : ℕ)
  | unitary (kvCacheSpec : KVCacheSpec) (useEagle : Bool)
  | hybrid (c : HybridKVCacheCoordinator)

structure KVCacheConfig where
  numBlocks : ℕ
  kvCacheGroups : List KVCacheGroupSpec

structure KVCacheManagerConfig where
  kvCacheConfig : KVCacheConfig
  maxModelLen : ℕ
  hashBlockSize : ℕ
  maxNumBatchedTokens : Option ℕ := none
  enableCaching : Bool := true
  useEagle : Bool := false
  enableKvCacheEvents : Bool := false
  /-- The environment variable `VLLM_KV_EVENTS_USE_INT_BLOCK_HASHES`. -/
  useIntBlockHashes : Bool := false

/-- The manager without the pool, on which its calls work. -/
structure KVCacheManager where
  maxModelLen : ℕ
  enableCaching : Bool
  coordinator : KVCacheCoordinator
  singleTypeManagers : List SingleTypeKVCacheManager

/-- `KVCacheBlocks.blocks`, a list for each group; `none` is `empty_kv_cache_blocks`, which
`allocate_slots` recognises by identity. -/
abbrev KVCacheBlocks := Option (List (List Ref))

namespace KVCacheManager

/-- `get_kv_cache_coordinator`, with the checks of the constructors. -/
def getKvCacheCoordinator (cfg : KVCacheManagerConfig) : Except ManagerError KVCacheCoordinator :=
  let groups := cfg.kvCacheConfig.kvCacheGroups
  if cfg.enableCaching then
    match groups with
    | [g] =>
      if g.kvCacheSpec.blockSize = cfg.hashBlockSize ∧ 0 < cfg.hashBlockSize then
        .ok (.unitary g.kvCacheSpec (decide (0 ∈ Hybrid.eagleGroupIds groups cfg.useEagle)))
      else .error .coordinatorConfig
    | _ =>
      if h : (0 < cfg.hashBlockSize ∧ ∀ g ∈ groups, 0 < g.kvCacheSpec.blockSize) ∧
          (∀ g ∈ groups, g.kvCacheSpec.blockSize % cfg.hashBlockSize = 0) ∧
          1 < (Hybrid.attentionGroups groups).length ∧ groups.length < 2 ^ 32 then
        .ok (.hybrid ⟨groups, cfg.useEagle, cfg.hashBlockSize, h.1.1, h.1.2, h.2.1, h.2.2.1, h.2.2.2⟩)
      else .error .coordinatorConfig
  else .ok (.noPrefixCache groups.length)

def initManagers (cfg : KVCacheManagerConfig) :
    ℕ → List KVCacheGroupSpec → ManagerM (List SingleTypeKVCacheManager)
  | _, [] => pure []
  | i, g :: gs => do
    let m ← SingleTypeKVCacheManager.getManagerForKvCacheSpec g.kvCacheSpec i cfg.enableCaching
      (cfg.maxNumBatchedTokens.getD cfg.maxModelLen) cfg.maxModelLen
    let ms ← initManagers cfg (i + 1) gs
    pure (m :: ms)

def init (cfg : KVCacheManagerConfig) : Except ManagerError (KVCacheManager × BlockPool) :=
  match BlockPool.init cfg.kvCacheConfig.numBlocks cfg.enableCaching cfg.hashBlockSize
      cfg.enableKvCacheEvents cfg.useIntBlockHashes with
  | .error e => .error (.pool e)
  | .ok pool =>
    match initManagers cfg 0 cfg.kvCacheConfig.kvCacheGroups pool, getKvCacheCoordinator cfg with
    | .error e _, _ => .error e
    | .ok _ _, .error e => .error e
    | .ok singleTypeManagers pool, .ok coordinator =>
      .ok (⟨cfg.maxModelLen, cfg.enableCaching, coordinator, singleTypeManagers⟩, pool)

def onEach {α : Type} (f : ℕ → SingleTypeKVCacheManager → ManagerM (SingleTypeKVCacheManager × α)) :
    ℕ → List SingleTypeKVCacheManager → ManagerM (List SingleTypeKVCacheManager × List α)
  | _, [] => pure ([], [])
  | i, m :: ms => do
    let out ← f i m
    let rest ← onEach f (i + 1) ms
    pure (out.1 :: rest.1, out.2 :: rest.2)

variable (k : KVCacheManager)

def findLongestCacheHit (p : BlockPool) (blockHashes : List BlockHash) (maxCacheHitLength : ℕ) :
    Except HitError (List (List Ref) × ℕ) :=
  match k.coordinator with
  | .noPrefixCache numSingleTypeManager => .ok (List.replicate numSingleTypeManager [], 0)
  | .unitary spec useEagle =>
    let q : CacheHit.Query := {
      pool := p, blockHashes, kvCacheGroupIds := [0], blockSize := spec.blockSize, useEagle
      alignmentTokens := spec.blockSize, maxLength := maxCacheHitLength }
    match q.findLongestCacheHit spec.kind with
    | .error e => .error e
    | .ok rows =>
      .ok ([HybridKVCacheCoordinator.column 0 p.nullBlock rows], rows.length * spec.blockSize)
  | .hybrid c => c.findLongestCacheHit p blockHashes maxCacheHitLength

def createKvCacheBlocks (blocks : List (List Ref)) : KVCacheBlocks :=
  if blocks.any (· ≠ []) then some blocks else none

/-- A request has at least one token, so that the bound on the hit is not negative. -/
def getComputedBlocks (p : BlockPool) (request : Request) : Except ManagerError (KVCacheBlocks × ℕ) :=
  if ¬ k.enableCaching ∨ request.skipReadingPrefixCache then .ok (none, 0)
  else
    match k.findLongestCacheHit p request.blockHashes (request.numTokens - 1) with
    | .error e => .error (.hit e)
    | .ok (computedBlocks, numNewComputedTokens) =>
      .ok (createKvCacheBlocks computedBlocks, numNewComputedTokens)

/-- The loop body of `coordinator.get_num_blocks_to_allocate`, for the group `i`. -/
def groupBlocksToAllocate (p : BlockPool) (requestId : ReqId) (numTokens : ℕ)
    (newComputedBlocks : List (List Ref))
    (numEncoderTokens totalComputedTokens numTokensMainModel : ℕ) (applyAdmissionCap : Bool)
    (i : ℕ) (m : SingleTypeKVCacheManager) : Except ManagerError ℤ :=
  if m.kind = .crossAttention then
    m.getNumBlocksToAllocate p requestId numEncoderTokens [] 0 numEncoderTokens applyAdmissionCap
  else
    match newComputedBlocks[i]? with
    | none => .error .indexError
    | some hits =>
      m.getNumBlocksToAllocate p requestId numTokens hits totalComputedTokens numTokensMainModel
        applyAdmissionCap

def getNumBlocksToAllocate (p : BlockPool) (requestId : ReqId) (numTokens : ℕ)
    (newComputedBlocks : List (List Ref))
    (numEncoderTokens totalComputedTokens numTokensMainModel : ℕ) (applyAdmissionCap : Bool) :
    ℕ → List SingleTypeKVCacheManager → Except ManagerError ℤ
  | _, [] => .ok 0
  | i, m :: ms => do
    let n ← groupBlocksToAllocate p requestId numTokens newComputedBlocks numEncoderTokens
      totalComputedTokens numTokensMainModel applyAdmissionCap i m
    let rest ← getNumBlocksToAllocate p requestId numTokens newComputedBlocks numEncoderTokens
      totalComputedTokens numTokensMainModel applyAdmissionCap (i + 1) ms
    pure (n + rest)

/-- The arguments of `allocate_slots` besides the request. -/
structure SlotArgs where
  numNewTokens : ℕ
  numNewComputedTokens : ℕ := 0
  newComputedBlocks : KVCacheBlocks := none
  numLookaheadTokens : ℕ := 0
  numExternalComputedTokens : ℕ := 0
  delayCacheBlocks : Bool := false
  numEncoderTokens : ℕ := 0
  fullSequenceMustFit : Bool := false

namespace SlotArgs

variable (a : SlotArgs) (request : Request)

def hits : List (List Ref) := a.newComputedBlocks.getD (List.replicate k.singleTypeManagers.length [])

def numLocalComputedTokens : ℕ := request.numComputedTokens + a.numNewComputedTokens

def totalComputedTokens : ℕ :=
  min (a.numLocalComputedTokens request + a.numExternalComputedTokens) k.maxModelLen

def numTokensMainModel : ℕ := a.totalComputedTokens k request + a.numNewTokens

def numTokensNeedSlot : ℕ :=
  min (a.numTokensMainModel k request + a.numLookaheadTokens) k.maxModelLen

end SlotArgs

/-- The test that `full_sequence_must_fit` asks for. -/
def sequenceFits (p : BlockPool) (request : Request) (a : SlotArgs) : Except ManagerError Bool :=
  let fullNumTokens := min request.numTokens k.maxModelLen
  if a.fullSequenceMustFit then
    (getNumBlocksToAllocate p request.requestId fullNumTokens (a.hits k) a.numEncoderTokens
      (a.totalComputedTokens k request) fullNumTokens true 0 k.singleTypeManagers).map
      fun n ↦ decide (n ≤ p.getNumFreeBlocks)
  else .ok true

section

variable (requestId : ReqId)

def removeSkippedBlocks (totalComputedTokens : ℕ) : ManagerM KVCacheManager := do
  let out ← onEach (fun _ m ↦ do
    let m' ← m.removeSkippedBlocks requestId totalComputedTokens
    pure (m', ())) 0 k.singleTypeManagers
  pure { k with singleTypeManagers := out.1 }

def allocateNewComputedBlocks (newComputedBlocks : List (List Ref))
    (numLocalComputedTokens numExternalComputedTokens : ℕ) : ManagerM KVCacheManager := do
  let out ← onEach (fun i m ↦ do
    match newComputedBlocks[i]? with
    | none => throw .indexError
    | some hits =>
      let m' ← m.allocateNewComputedBlocks requestId hits numLocalComputedTokens
        numExternalComputedTokens
      pure (m', ())) 0 k.singleTypeManagers
  pure { k with singleTypeManagers := out.1 }

def allocateNewBlocks (numTokens numTokensMainModel numEncoderTokens : ℕ) :
    ManagerM (KVCacheManager × List (List Ref)) := do
  let out ← onEach (fun _ m ↦
    m.allocateNewBlocks requestId (if m.kind = .crossAttention then numEncoderTokens else numTokens)
      numTokensMainModel) 0 k.singleTypeManagers
  pure ({ k with singleTypeManagers := out.1 }, out.2)

def cacheBlocks (H : Hashing) (request : Request) (numComputedTokens : ℕ) :
    ManagerM KVCacheManager := do
  let out ← onEach (fun _ m ↦ do
    let m' ← m.cacheBlocks H request numComputedTokens
    pure (m', ())) 0 k.singleTypeManagers
  pure { k with singleTypeManagers := out.1 }

/-- The call of `allocate_new_computed_blocks` in `allocate_slots`, if it is made. -/
def enterHits (request : Request) (a : SlotArgs) : ManagerM KVCacheManager :=
  if a.newComputedBlocks.isSome ∨ 0 < a.numExternalComputedTokens then
    k.allocateNewComputedBlocks request.requestId (a.hits k) (a.numLocalComputedTokens request)
      a.numExternalComputedTokens
  else pure k

/-- The last part of `allocate_slots`, once there are enough free blocks. -/
def takeSlots (H : Hashing) (request : Request) (a : SlotArgs) :
    ManagerM (KVCacheManager × KVCacheBlocks) := do
  let k1 ← k.enterHits request a
  let out ← k1.allocateNewBlocks request.requestId (a.numTokensNeedSlot k request)
    (a.numTokensMainModel k request) a.numEncoderTokens
  if ¬ k.enableCaching ∨ a.delayCacheBlocks then
    pure (out.1, createKvCacheBlocks out.2)
  else
    let k2 ← out.1.cacheBlocks H request
      (min (a.totalComputedTokens k request + a.numNewTokens) request.numTokens)
    pure (k2, createKvCacheBlocks out.2)

/-- `allocate_slots`; `none` when there are too few free blocks. -/
def allocateSlots (H : Hashing) (request : Request) (a : SlotArgs) :
    ManagerM (KVCacheManager × Option KVCacheBlocks) := do
  if a.numNewTokens = 0 ∧ a.numExternalComputedTokens = 0 then throw .noNewTokens
  else
    let p ← get
    match k.sequenceFits p request a with
    | .error e => throw e
    | .ok false => pure (k, none)
    | .ok true =>
      let k' ← k.removeSkippedBlocks request.requestId (a.totalComputedTokens k request)
      let p ← get
      match getNumBlocksToAllocate p request.requestId (a.numTokensNeedSlot k request) (a.hits k)
          a.numEncoderTokens (a.numLocalComputedTokens request + a.numExternalComputedTokens)
          (a.numTokensMainModel k request) false 0 k'.singleTypeManagers with
      | .error e => throw e
      | .ok n =>
        if n > p.getNumFreeBlocks then pure (k', none)
        else
          let out ← k'.takeSlots H request a
          pure (out.1, some out.2)

def free : ManagerM KVCacheManager := do
  let out ← onEach (fun _ m ↦ do
    let m' ← m.free requestId
    pure (m', ())) 0 k.singleTypeManagers
  pure { k with singleTypeManagers := out.1 }

end

def newStepStarts : KVCacheManager :=
  { k with singleTypeManagers := k.singleTypeManagers.map (·.newStepStarts) }

end KVCacheManager

end VllmEngine.Core

import VllmEngine.Core.BlockHashMap
import VllmEngine.Core.Request

namespace VllmEngine.Core

open Lib BlockHash FreeKVCacheBlockQueue

/-- `KVCacheEvent`. Every event names the medium `"GPU"`, which is left out. -/
inductive KVCacheEvent
  | blockStored (blockHashes : List ExternalBlockHash)
      (parentBlockHash : Option ExternalBlockHash) (tokenIds : List ℕ) (blockSize : ℕ)
      (loraId : Option ℕ) (loraName : Option String) (extraKeys : Option (List ExtraKeys))
      (groupIdx : ℕ)
  | blockRemoved (blockHashes : List ExternalBlockHash) (groupIdx : ℕ)
  | allBlocksCleared
  deriving DecidableEq

/-- The pool, with the attributes of its block objects as maps from references. -/
structure BlockPool where
  numGpuBlocks : ℕ
  enableCaching : Bool
  hashBlockSize : ℕ
  enableKvCacheEvents : Bool
  /-- The environment variable `VLLM_KV_EVENTS_USE_INT_BLOCK_HASHES`. -/
  useIntBlockHashes : Bool
  freeBlockQueue : FreeKVCacheBlockQueue
  refCnt : Ref → ℤ
  blockHash : Ref → Option BlockHashWithGroupId
  isNull : Ref → Bool
  nullBlock : Ref
  cachedBlockHashToBlock : BlockHashToBlockMap
  kvEventQueue : List KVCacheEvent

inductive PoolError
  | noGpuBlocks
  | queue (e : QueueError)
  | cannotGetBlocks
  | refCntNotZero
  | tooFewBlockHashes
  | blockSizeNotMultiple
  | blockAlreadyHashed
  | indexError
  | invalidBlockId
  deriving DecidableEq

def PoolError.NotQueue (e : PoolError) : Prop := ∀ q, e ≠ .queue q

abbrev PoolM := EStateM PoolError BlockPool

namespace BlockPool

def onQueue {α : Type} (m : QueueM α) : PoolM α := fun p ↦
  match m p.freeBlockQueue with
  | .ok a q => .ok a { p with freeBlockQueue := q }
  | .error e q => .error (.queue e) { p with freeBlockQueue := q }

def init (numGpuBlocks : ℕ) (enableCaching : Bool) (hashBlockSize : ℕ)
    (enableKvCacheEvents useIntBlockHashes : Bool) : Except PoolError BlockPool :=
  if numGpuBlocks = 0 then .error .noGpuBlocks
  else
    match popleft (.init numGpuBlocks) with
    | .error e _ => .error (.queue e)
    | .ok nullBlock q => .ok {
        numGpuBlocks, enableCaching, hashBlockSize, enableKvCacheEvents, useIntBlockHashes
        freeBlockQueue := q
        refCnt := fun _ ↦ 0
        blockHash := fun _ ↦ none
        isNull := fun r ↦ decide (r = nullBlock)
        nullBlock
        cachedBlockHashToBlock := .empty
        kvEventQueue := [] }

def blocks (p : BlockPool) : List Ref := (List.range p.numGpuBlocks).map .blk

def getNumFreeBlocks (p : BlockPool) : ℤ := p.freeBlockQueue.numFreeBlocks

def getCachedBlock (p : BlockPool) (blockHash : BlockHash) (kvCacheGroupIds : List ℕ) :
    Option (List Ref) :=
  kvCacheGroupIds.mapM fun groupId ↦
    p.cachedBlockHashToBlock.getOneBlock (makeBlockHashWithGroupId blockHash groupId)

def setBlockHash (block : Ref) (h : Option BlockHashWithGroupId) (p : BlockPool) : BlockPool :=
  { p with blockHash := Function.update p.blockHash block h }

def addRef (block : Ref) (n : ℤ) (p : BlockPool) : BlockPool :=
  { p with refCnt := Function.update p.refCnt block (p.refCnt block + n) }

def setIndex (m : BlockHashToBlockMap) (p : BlockPool) : BlockPool :=
  { p with cachedBlockHashToBlock := m }

def pushEvent (e : KVCacheEvent) (p : BlockPool) : BlockPool :=
  if p.enableKvCacheEvents then { p with kvEventQueue := p.kvEventQueue ++ [e] } else p

/-- The first loop of `cache_full_blocks`, for the new full block at offset `i`; `none` for a null
block. -/
def cacheBlock (newBlockHashes : List BlockHash) (kvCacheGroupId : ℕ) (i : ℕ) (blk : Ref) :
    PoolM (Option BlockHash) := do
  let p ← get
  if p.isNull blk then pure none
  else if p.blockHash blk ≠ none then throw .blockAlreadyHashed
  else
    match newBlockHashes[i]? with
    | none => throw .indexError
    | some blockHash =>
      let key := makeBlockHashWithGroupId blockHash kvCacheGroupId
      modify (setBlockHash blk (some key))
      modify (setIndex (p.cachedBlockHashToBlock.insert key blk))
      pure (some blockHash)

/-- The first loop of `cache_full_blocks`: the hashes of the blocks it cached. -/
def cacheLoop (newBlockHashes : List BlockHash) (kvCacheGroupId : ℕ) :
    ℕ → List Ref → PoolM (List BlockHash)
  | _, [] => pure []
  | i, blk :: blks => do
    let h ← cacheBlock newBlockHashes kvCacheGroupId i blk
    let hs ← cacheLoop newBlockHashes kvCacheGroupId (i + 1) blks
    pure (h.toList ++ hs)

/-- The second loop of `cache_full_blocks`, over the indices `idxs`. -/
def extraKeysLoop (H : Hashing) (request : Request) (blocks : List Ref) (blockSize : ℕ) :
    List ℕ → Request.MmCursor → PoolM (List ExtraKeys)
  | [], _ => pure []
  | i :: idxs, currMmIdx => do
    match blocks[i]? with
    | none => throw .indexError
    | some blk =>
      let p ← get
      if p.isNull blk then extraKeysLoop H request blocks blockSize idxs currMmIdx
      else
        let keys := Request.generateBlockHashExtraKeys H request (i * blockSize)
          (i * blockSize + blockSize) currMmIdx
        let rest ← extraKeysLoop H request blocks blockSize idxs keys.2
        pure (keys.1 :: rest)

def parentBlockHash (p : BlockPool) (request : Request) (numCachedBlocks blockSize : ℕ) :
    Except PoolError (Option ExternalBlockHash) :=
  if numCachedBlocks = 0 then .ok none
  else
    match hashAt request.blockHashes p.hashBlockSize blockSize (numCachedBlocks - 1) with
    | none => .error .indexError
    | some h => .ok (some (maybeConvertBlockHash p.useIntBlockHashes h))

def cacheFullBlocks (H : Hashing) (request : Request) (blocks : List Ref)
    (numCachedBlocks numFullBlocks blockSize kvCacheGroupId : ℕ) : PoolM Unit := do
  if numCachedBlocks ≥ numFullBlocks then pure ()
  else
    let p ← get
    let newFullBlocks := (blocks.take numFullBlocks).drop numCachedBlocks
    if request.blockHashes.length < numFullBlocks then throw .tooFewBlockHashes
    else if blockSize ≠ p.hashBlockSize ∧ blockSize % p.hashBlockSize ≠ 0 then
      throw .blockSizeNotMultiple
    else
      let newBlockHashes :=
        (hashList request.blockHashes p.hashBlockSize blockSize).drop numCachedBlocks
      let newHashes ← cacheLoop newBlockHashes kvCacheGroupId 0 newFullBlocks
      if p.enableKvCacheEvents then
        match parentBlockHash p request numCachedBlocks blockSize with
        | .error e => throw e
        | .ok parent =>
          let extraKeysList ← extraKeysLoop H request blocks blockSize
            (List.range' numCachedBlocks (numFullBlocks - numCachedBlocks)) (.idx 0)
          modify (pushEvent (.blockStored
            (newHashes.map (maybeConvertBlockHash p.useIntBlockHashes)) parent
            ((request.allTokenIds.take (numFullBlocks * blockSize)).drop
              (numCachedBlocks * blockSize))
            blockSize (request.loraRequest.map (·.loraIntId)) (request.loraRequest.map (·.loraName))
            (if extraKeysList = [] then none else some extraKeysList) kvCacheGroupId))
      else pure ()

def maybeEvictCachedBlock (block : Ref) : PoolM Bool := do
  let p ← get
  match p.blockHash block with
  | none => pure false
  | some blockHash =>
    let out := p.cachedBlockHashToBlock.pop blockHash block.blockId
    modify (setIndex out.2)
    match out.1 with
    | none => pure false
    | some _ =>
      modify (setBlockHash block none)
      modify (pushEvent (.blockRemoved
        [maybeConvertBlockHash p.useIntBlockHashes (getBlockHash blockHash)] (getGroupId blockHash)))
      pure true

def claimBlock (block : Ref) : PoolM Unit := do
  let p ← get
  if p.enableCaching then
    let _ ← maybeEvictCachedBlock block
  let p ← get
  if p.refCnt block ≠ 0 then throw .refCntNotZero
  else modify (addRef block 1)

def getNewBlocks (numBlocks : ℤ) : PoolM (List Ref) := do
  let p ← get
  if numBlocks > p.getNumFreeBlocks then throw .cannotGetBlocks
  else
    let ret ← onQueue (popleftN numBlocks)
    ret.forM claimBlock
    pure ret

def touchBlock (block : Ref) : PoolM Unit := do
  let p ← get
  if p.refCnt block = 0 ∧ ¬ p.isNull block then
    onQueue (remove block)
  modify (addRef block 1)

def touch (blocks : List Ref) : PoolM Unit := blocks.forM touchBlock

def dropRef (block : Ref) : PoolM Unit := modify (addRef block (-1))

def freeBlocks (orderedBlocks : List Ref) : PoolM Unit := do
  orderedBlocks.forM dropRef
  let p ← get
  onQueue (appendN
    (orderedBlocks.filter fun block ↦ p.refCnt block = 0 ∧ ¬ p.isNull block))

/-- `self.blocks[block_id]`, with Python's negative indices. -/
def blockAt (p : BlockPool) (blockId : ℤ) : Option Ref :=
  if 0 ≤ blockId then (if blockId < p.numGpuBlocks then some (.blk blockId.toNat) else none)
  else if 0 ≤ blockId + p.numGpuBlocks then some (.blk (blockId + p.numGpuBlocks).toNat) else none

def evictBlock (blockId : ℤ) : PoolM Unit := do
  let p ← get
  if ¬ blockId < p.numGpuBlocks then throw .invalidBlockId
  else
    match p.blockAt blockId with
    | none => throw .indexError
    | some block =>
      let _ ← maybeEvictCachedBlock block

def resetHash (block : Ref) : PoolM Unit := modify (setBlockHash block none)

/-- The set of ids is given in the order in which it is iterated. -/
def evictBlocks (blockIds : List ℤ) : PoolM Unit := blockIds.forM evictBlock

def resetPrefixCache : PoolM Bool := do
  let p ← get
  if (p.numGpuBlocks : ℤ) - p.getNumFreeBlocks ≠ 1 then pure false
  else
    modify (setIndex .empty)
    p.blocks.forM resetHash
    modify (pushEvent .allBlocksCleared)
    pure true

end BlockPool

end VllmEngine.Core

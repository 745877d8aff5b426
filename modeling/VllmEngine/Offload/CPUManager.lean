import VllmEngine.Offload.CachePolicy

namespace VllmEngine.Offload

open Lib

structure OffloadingEvent where
  keys : List OffloadKey
  removed : Bool
  deriving DecidableEq

structure PrepareStoreOutput where
  keysToStore : List OffloadKey
  storeSpec : List ℕ
  evictedKeys : List OffloadKey
  deriving DecidableEq

inductive CPUManagerError
  | blockNotFound
  | blockNotReady
  | refCntZero
  | fewFreeBlocks
  deriving DecidableEq

structure CPUOffloadingManager where
  numBlocks : ℕ
  numAllocatedBlocks : ℕ := 0
  freeList : List ℕ := []
  /-- `none` if events are not enabled. -/
  events : Option (List OffloadingEvent) := none
  policy : CachePolicy

namespace CPUOffloadingManager

def new (numBlocks : ℕ) (cachePolicy : PolicyName) (enableEvents : Bool)
    (rounding : Rounding := .exact) : CPUOffloadingManager where
  numBlocks
  events := if enableEvents then some [] else none
  policy :=
    match cachePolicy with
    | .lru => .lru {}
    | .arc => .arc { cacheCapacity := numBlocks, rounding }

variable (m : CPUOffloadingManager)

def getNumFreeBlocks : ℤ := m.freeList.length + m.numBlocks - m.numAllocatedBlocks

/-- Fresh blocks first, then those that `_free_list.pop()` returns. -/
def allocateBlocks (keys : List OffloadKey) :
    Except CPUManagerError (List BlockStatus × CPUOffloadingManager) :=
  let numFresh := min keys.length (m.numBlocks - m.numAllocatedBlocks)
  let numReused := keys.length - numFresh
  if m.freeList.length < numReused then .error .fewFreeBlocks
  else
    let blockIds := List.range' m.numAllocatedBlocks numFresh ++ m.freeList.reverse.take numReused
    .ok (blockIds.map fun blockId ↦ { blockId }, { m with
      numAllocatedBlocks := m.numAllocatedBlocks + numFresh
      freeList := m.freeList.take (m.freeList.length - numReused) })

def freeBlock (block : BlockStatus) : CPUOffloadingManager :=
  { m with freeList := m.freeList ++ [block.blockId] }

def appendEvent (keys : List OffloadKey) (removed : Bool) : CPUOffloadingManager :=
  if keys = [] then m else { m with events := m.events.map (· ++ [⟨keys, removed⟩]) }

def lookup (key : OffloadKey) : Option Bool :=
  match m.policy.get key with
  | none => some false
  | some block => if block.isReady then some true else none

def prepareLoad : CPUOffloadingManager → List OffloadKey → List ℕ →
    Except CPUManagerError (List ℕ × CPUOffloadingManager)
  | m, [], blockIds => .ok (blockIds, m)
  | m, key :: keys, blockIds =>
    match m.policy.get key with
    | none => .error .blockNotFound
    | some block =>
      if block.isReady then
        prepareLoad { m with policy := m.policy.update key (block.addRef 1) } keys
          (blockIds ++ [block.blockId])
      else .error .blockNotReady

def touch (keys : List OffloadKey) : CPUOffloadingManager := { m with policy := m.policy.touch keys }

def completeLoad : CPUOffloadingManager → List OffloadKey → Except CPUManagerError CPUOffloadingManager
  | m, [] => .ok m
  | m, key :: keys =>
    match m.policy.get key with
    | none => .error .blockNotFound
    | some block =>
      if 0 < block.refCnt then
        completeLoad { m with policy := m.policy.update key (block.addRef (-1)) } keys
      else .error .refCntZero

def freeEvicted (evicted : List CacheItem) : CPUOffloadingManager :=
  evicted.foldl (fun m item ↦ m.freeBlock item.2) m

def insertBlocks (keysToStore evictedKeys : List OffloadKey) :
    Except CPUManagerError (Option PrepareStoreOutput × CPUOffloadingManager) := do
  let out ← (m.appendEvent evictedKeys true).allocateBlocks keysToStore
  let policy := (keysToStore.zip out.1).foldl (fun p item ↦ p.insert item.1 item.2) out.2.policy
  pure (some ⟨keysToStore, out.1.map BlockStatus.blockId, evictedKeys⟩, { out.2 with policy })

def prepareStore (keys : List OffloadKey) :
    Except CPUManagerError (Option PrepareStoreOutput × CPUOffloadingManager) :=
  let keysToStore := keys.filter fun key ↦ (m.policy.get key).isNone
  if keysToStore = [] then .ok (some ⟨[], [], []⟩, m)
  else
    let numBlocksToEvict : ℤ := keysToStore.length - m.getNumFreeBlocks
    if 0 < numBlocksToEvict then
      match m.policy.evict numBlocksToEvict.toNat keys with
      | none => .ok (none, m)
      | some evicted =>
        ({ m with policy := evicted.2 }.freeEvicted evicted.1).insertBlocks keysToStore
          (evicted.1.map Prod.fst)
    else m.insertBlocks keysToStore []

def storedLoop : CPUOffloadingManager → List OffloadKey → List OffloadKey →
    CPUOffloadingManager × List OffloadKey
  | m, [], storedKeys => (m, storedKeys)
  | m, key :: keys, storedKeys =>
    match m.policy.get key with
    | none => storedLoop m keys storedKeys
    | some block =>
      if block.isReady then storedLoop m keys storedKeys
      else
        storedLoop { m with policy := m.policy.update key { block with refCnt := 0 } } keys
          (storedKeys ++ [key])

def failedLoop : CPUOffloadingManager → List OffloadKey → CPUOffloadingManager
  | m, [] => m
  | m, key :: keys =>
    match m.policy.get key with
    | none => failedLoop m keys
    | some block =>
      if block.isReady then failedLoop m keys
      else failedLoop ({ m with policy := m.policy.remove key }.freeBlock block) keys

def completeStore (keys : List OffloadKey) (success : Bool) : CPUOffloadingManager :=
  if success then
    let out := m.storedLoop keys []
    out.1.appendEvent out.2 false
  else m.failedLoop keys

def takeEvents : CPUOffloadingManager := { m with events := m.events.map fun _ ↦ [] }

end CPUOffloadingManager

inductive ManagerCall
  | lookup (key : OffloadKey)
  | touch (keys : List OffloadKey)
  | prepareStore (keys : List OffloadKey)
  | completeStore (keys : List OffloadKey) (success : Bool)
  | prepareLoad (keys : List OffloadKey)
  | completeLoad (keys : List OffloadKey)
  | takeEvents

namespace ManagerCall

def run (m : CPUOffloadingManager) : ManagerCall → Except CPUManagerError CPUOffloadingManager
  | .lookup _ => .ok m
  | .touch keys => .ok (m.touch keys)
  | .prepareStore keys => (m.prepareStore keys).map Prod.snd
  | .completeStore keys success => .ok (m.completeStore keys success)
  | .prepareLoad keys => (m.prepareLoad keys []).map Prod.snd
  | .completeLoad keys => m.completeLoad keys
  | .takeEvents => .ok m.takeEvents

/-- The keys to store are distinct. -/
def Proper : ManagerCall → Prop
  | .prepareStore keys => keys.Nodup
  | _ => True

instance (call : ManagerCall) : Decidable call.Proper :=
  match call with
  | .prepareStore keys => inferInstanceAs (Decidable keys.Nodup)
  | .lookup _ | .touch _ | .completeStore .. | .prepareLoad _ | .completeLoad _ | .takeEvents =>
    isTrue trivial

end ManagerCall

inductive ManagerReached (numBlocks : ℕ) (cachePolicy : PolicyName) (enableEvents : Bool) :
    CPUOffloadingManager → Prop
  | new {rounding} : ManagerReached numBlocks cachePolicy enableEvents
      (.new numBlocks cachePolicy enableEvents rounding)
  | call {m m'} (c : ManagerCall)
      (h : ManagerReached numBlocks cachePolicy enableEvents m) (hc : c.Proper)
      (hrun : c.run m = .ok m') : ManagerReached numBlocks cachePolicy enableEvents m'

end VllmEngine.Offload

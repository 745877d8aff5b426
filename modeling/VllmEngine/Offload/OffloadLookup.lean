import VllmEngine.Core.Hybrid

namespace VllmEngine.Offload

open VllmEngine.Core BlockHash

abbrev OffloadKey := Bytes

/-- The same bytes as for a block hash with a group id. -/
def makeOffloadKey (blockHash : BlockHash) (groupIdx : ℕ) : OffloadKey :=
  blockHash ++ groupIdBytes groupIdx

/-- What the scheduler reads of an `OffloadingSpec`. Block sizes include the context parallel
factor. -/
structure OffloadingSpec where
  hashBlockSize : ℕ
  kvCacheGroups : List KVCacheSpec
  blockSizeFactor : ℕ := 1

structure GroupOffloadConfig where
  groupIdx : ℕ
  gpuBlockSize : ℕ
  offloadedBlockSize : ℕ
  hashBlockSizeFactor : ℕ
  slidingWindowSizeInBlocks : Option ℕ
  deriving DecidableEq

structure SchedulerOffloadConfig where
  kvGroupConfigs : List GroupOffloadConfig
  blockSizeFactor : ℕ

/-- What ends a call besides its return: a failed assertion, or a loop that does not end. -/
inductive OffloadError
  | slidingWindow
  | unsupportedSpec
  | missingKeys
  | missingBlocks
  | uncountedTokens
  | windowExceeded
  | outOfFuel
  deriving DecidableEq

def getSlidingWindowSizeInBlocks (kvCacheSpec : KVCacheSpec) (offloadedBlockSize : ℕ) :
    Except OffloadError (Option ℕ) :=
  match kvCacheSpec.kind with
  | .slidingWindow window =>
    if 0 < window then .ok (some (cdiv window offloadedBlockSize)) else .error .slidingWindow
  -- the state after the block is all that is needed
  | .mamba .. => .ok (some 1)
  | .fullAttention | .sinkFullAttention _ => .ok none
  | .chunkedLocalAttention _ | .crossAttention => .error .unsupportedSpec

def groupOffloadConfig (spec : OffloadingSpec) (idx : ℕ) (kvCacheSpec : KVCacheSpec) :
    Except OffloadError GroupOffloadConfig := do
  let gpuBlockSize := kvCacheSpec.blockSize
  let slidingWindowSizeInBlocks ←
    getSlidingWindowSizeInBlocks kvCacheSpec (gpuBlockSize * spec.blockSizeFactor)
  pure {
    groupIdx := idx
    gpuBlockSize
    offloadedBlockSize := gpuBlockSize * spec.blockSizeFactor
    hashBlockSizeFactor := gpuBlockSize * spec.blockSizeFactor / spec.hashBlockSize
    slidingWindowSizeInBlocks }

def SchedulerOffloadConfig.fromSpec (spec : OffloadingSpec) :
    Except OffloadError SchedulerOffloadConfig := do
  let kvGroupConfigs ← spec.kvCacheGroups.zipIdx.mapM fun g ↦ groupOffloadConfig spec g.2 g.1
  pure ⟨kvGroupConfigs, spec.blockSizeFactor⟩

structure OffloadRequest where
  numTokens : ℕ
  blockHashes : List BlockHash

/-- `islice(hashes, start, None, step)`. -/
def islice (hashes : List BlockHash) (start step : ℕ) : List BlockHash :=
  (List.range (cdiv (hashes.length - start) step)).map fun j ↦ hashes.getD (start + j * step) []

/-- `update_offload_keys` for one group: the keys of the blocks that have been filled since. -/
def updateOffloadKeys (req : OffloadRequest) (config : GroupOffloadConfig)
    (offloadKeys : List OffloadKey) : List OffloadKey :=
  offloadKeys ++ (islice req.blockHashes
    (config.hashBlockSizeFactor * offloadKeys.length + config.hashBlockSizeFactor - 1)
    config.hashBlockSizeFactor).map fun hash ↦ makeOffloadKey hash config.groupIdx

structure LookupGroup where
  config : GroupOffloadConfig
  offloadKeys : List OffloadKey

namespace LookupGroup

def blockSize (g : LookupGroup) : ℕ := g.config.offloadedBlockSize

def window (g : LookupGroup) : Option ℕ := g.config.slidingWindowSizeInBlocks

end LookupGroup

def requestGroups (cfg : SchedulerOffloadConfig) (req : OffloadRequest) : List LookupGroup :=
  cfg.kvGroupConfigs.map fun config ↦ ⟨config, updateOffloadKeys req config []⟩

def slidingWindowGroups (groups : List LookupGroup) : List LookupGroup :=
  (groups.filter fun g ↦ g.window.isSome).mergeSort fun g g' ↦
    decide (g'.window.getD 0 ≤ g.window.getD 0)

def lookupGroups (groups : List LookupGroup) : List LookupGroup :=
  groups.filter (fun g ↦ g.window.isNone) ++ slidingWindowGroups groups

/-- `manager.lookup`: a hit, a miss, or `none` for an answer that is deferred. -/
abbrev Lookup := OffloadKey → Option Bool

def prefixLoop (lookup : Lookup) : List OffloadKey → Bool → ℕ → Option ℕ
  | [], deferLookup, hitCount => if deferLookup then none else some hitCount
  | key :: keys, deferLookup, hitCount =>
    match lookup key with
    | none => prefixLoop lookup keys true (hitCount + 1)
    | some false => if deferLookup then none else some hitCount
    | some true => prefixLoop lookup keys deferLookup (hitCount + 1)

def maximalPrefixLookup (lookup : Lookup) (keys : List OffloadKey) : Option ℕ :=
  prefixLoop lookup keys false 0

/-- The loop of `_sliding_window_lookup`, over the keys from the last one on. -/
def windowLoop (lookup : Lookup) (slidingWindowSize : ℕ) : List OffloadKey → Bool → ℕ → Option ℕ
  | [], deferLookup, consecutiveHits => if deferLookup then none else some consecutiveHits
  | key :: keys, deferLookup, consecutiveHits =>
    match lookup key with
    | none => windowLoop lookup slidingWindowSize keys true 0
    | some false => windowLoop lookup slidingWindowSize keys deferLookup 0
    | some true =>
      if consecutiveHits + 1 = slidingWindowSize then
        if deferLookup then none else some (keys.length + slidingWindowSize)
      else windowLoop lookup slidingWindowSize keys deferLookup (consecutiveHits + 1)

def slidingWindowLookup (lookup : Lookup) (keys : List OffloadKey) (slidingWindowSize : ℕ) :
    Option ℕ :=
  windowLoop lookup slidingWindowSize keys.reverse false 0

structure LookupState where
  maxHitSizeTokens : ℕ
  numHitTokens : ℕ := 0
  deferLookup : Bool := false
  lookupGroups : List LookupGroup := []
  lookedUpSlidingWindow : Bool := false

section

variable (lookup : Lookup) (numComputedTokens : ℕ) (groups : List LookupGroup)

/-- The keys of the blocks with hit candidates, from the block with the first token that is not
computed. -/
def LookupGroup.candidates (g : LookupGroup) (maxHitSizeTokens : ℕ) : List OffloadKey :=
  (g.offloadKeys.take (min (cdiv maxHitSizeTokens g.blockSize) g.offloadKeys.length)).drop
    (numComputedTokens / g.blockSize)

/-- The number of hit blocks in a group, or `none` if an answer is deferred. -/
def LookupGroup.numHitBlocks (g : LookupGroup) (maxHitSizeTokens : ℕ) : Option ℕ :=
  match g.window with
  | none => maximalPrefixLookup lookup (g.candidates numComputedTokens maxHitSizeTokens)
  | some size => slidingWindowLookup lookup (g.candidates numComputedTokens maxHitSizeTokens) size

/-- The end of the loop body, once the hits of the group have bounded the length: whether this
affects what other groups have answered. -/
def tighten (g : LookupGroup) (st : LookupState) (deferLookup : Bool) (maxHitSizeTokens : ℕ) :
    LookupState :=
  let newNumHitTokens := maxHitSizeTokens - numComputedTokens
  let next :=
    if newNumHitTokens < st.numHitTokens then
      if deferLookup then (false, lookupGroups groups)
      else if st.lookedUpSlidingWindow ∧ st.lookupGroups = [] then
        (deferLookup, slidingWindowGroups groups)
      else (deferLookup, st.lookupGroups)
    else (deferLookup, st.lookupGroups)
  { maxHitSizeTokens
    numHitTokens := newNumHitTokens
    deferLookup := next.1
    lookupGroups := next.2
    lookedUpSlidingWindow := st.lookedUpSlidingWindow || g.window.isSome }

inductive LookupExit
  | noHit
  | failed (e : OffloadError)

def lookupGroup (numTokens : ℕ) (g : LookupGroup) (st : LookupState) :
    Except LookupExit LookupState :=
  if g.offloadKeys.length < numTokens / g.blockSize then .error (.failed .missingKeys)
  else
    let maxHitSizeTokens := min st.maxHitSizeTokens (g.offloadKeys.length * g.blockSize)
    if maxHitSizeTokens - numComputedTokens < g.blockSize then .error .noHit
    else
      match g.numHitBlocks lookup numComputedTokens maxHitSizeTokens with
      | some 0 => .error .noHit
      | none =>
        if maxHitSizeTokens - numComputedTokens < g.blockSize then .error .noHit
        else .ok (tighten numComputedTokens groups g st true maxHitSizeTokens)
      | some numHitBlocks =>
        let bound := g.blockSize * (numComputedTokens / g.blockSize + numHitBlocks)
        if min maxHitSizeTokens bound - numComputedTokens < g.blockSize then .error .noHit
        else
          .ok (tighten numComputedTokens groups g st st.deferLookup (min maxHitSizeTokens bound))

def lookupPass (numTokens : ℕ) : List LookupGroup → LookupState → Except LookupExit LookupState
  | [], st => .ok st
  | g :: todo, st => do
    let st' ← lookupGroup lookup numComputedTokens groups numTokens g st
    lookupPass numTokens todo st'

def lookupLoop (numTokens : ℕ) : ℕ → List LookupGroup → LookupState → Except LookupExit LookupState
  | _, [], st => .ok st
  | 0, _ :: _, _ => .error (.failed .outOfFuel)
  | fuel + 1, g :: todo, st => do
    let st' ← lookupPass lookup numComputedTokens groups numTokens (g :: todo)
      { st with lookupGroups := [], lookedUpSlidingWindow := false }
    lookupLoop numTokens fuel st'.lookupGroups st'

def LookupGroup.keysOfHit (g : LookupGroup) (numHitTokens : ℕ) : List OffloadKey :=
  let keys := (g.offloadKeys.take (cdiv (numComputedTokens + numHitTokens) g.blockSize)).drop
    (numComputedTokens / g.blockSize)
  match g.window with
  | none => keys
  | some size => keys.drop (keys.length - size)

end

/-- The bound with which `_lookup` starts: with a window, the last token has to be computed. -/
def startTokens (groups : List LookupGroup) (numTokens : ℕ) : ℕ :=
  if slidingWindowGroups groups = [] then numTokens else numTokens - 1

/-- `_lookup`; `none` if the request has to wait. The outer loop is only repeated for a smaller
bound. -/
def lookupTokens (lookup : Lookup) (blocksBeingLoaded : List OffloadKey) (req : OffloadRequest)
    (groups : List LookupGroup) (numComputedTokens : ℕ) : Except OffloadError (Option ℕ) :=
  match lookupLoop lookup numComputedTokens groups req.numTokens (req.numTokens + 1)
      (lookupGroups groups) { maxHitSizeTokens := startTokens groups req.numTokens } with
  | .error .noHit => .ok (some 0)
  | .error (.failed e) => .error e
  | .ok st =>
    if st.deferLookup then .ok none
    else if groups.any fun g ↦
        (g.keysOfHit numComputedTokens st.numHitTokens).any blocksBeingLoaded.contains then .ok none
    else .ok (some st.numHitTokens)

end VllmEngine.Offload

import VllmEngine.Core.BlockPool

namespace VllmEngine.Core

open BlockHash

inductive MambaCacheMode
  | none
  | all
  | align
  deriving DecidableEq

inductive SpecKind
  | fullAttention
  | sinkFullAttention (sinkLen : ℕ)
  | slidingWindow (slidingWindow : ℕ)
  | chunkedLocalAttention (attentionChunkSize : ℕ)
  | mamba (mambaCacheMode : MambaCacheMode) (numSpeculativeBlocks : ℕ)
  | crossAttention
  deriving DecidableEq

/-- `layout` stands for the fields (head sizes, data types, page sizes) that only comparisons read.
-/
structure KVCacheSpec where
  kind : SpecKind
  blockSize : ℕ
  layout : ℕ := 0
  deriving DecidableEq

def KVCacheSpec.isFullAttention (spec : KVCacheSpec) : Bool :=
  match spec.kind with
  | .fullAttention | .sinkFullAttention _ => true
  | .slidingWindow _ | .chunkedLocalAttention _ | .mamba .. | .crossAttention => false

/-- The kinds of groups that a hybrid coordinator can search in any combination. -/
def SpecKind.Searchable : SpecKind → Prop
  | .fullAttention | .sinkFullAttention _ | .slidingWindow _ | .mamba .. => True
  | .chunkedLocalAttention _ | .crossAttention => False

instance : DecidablePred SpecKind.Searchable
  | .fullAttention | .sinkFullAttention _ | .slidingWindow _ | .mamba .. => .isTrue trivial
  | .chunkedLocalAttention _ | .crossAttention => .isFalse id

def SpecKind.isMamba : SpecKind → Bool
  | .mamba .. => true
  | .fullAttention | .sinkFullAttention _ | .slidingWindow _ | .chunkedLocalAttention _
  | .crossAttention => false

inductive HitError
  | indexError
  | eagleChunkedLocal
  | chunkedLocalBlockSize
  | notImplemented
  | outOfFuel
  deriving DecidableEq

namespace CacheHit

/-- The blocks found at one index, one for each of the groups looked up together. -/
abbrev Row := List Ref

/-- What a lookup is given: `block_hashes` of the pool, and the arguments of
`find_longest_cache_hit`. -/
structure Query where
  pool : BlockPool
  blockHashes : List BlockHash
  kvCacheGroupIds : List ℕ
  blockSize : ℕ
  useEagle : Bool
  alignmentTokens : ℕ
  maxLength : ℕ

namespace Query

variable (q : Query)

def maxNumBlocks : ℕ := q.maxLength / q.blockSize

def nullRow : Row := List.replicate q.kvCacheGroupIds.length q.pool.nullBlock

def cachedAt (i : ℕ) : Except HitError (Option Row) :=
  match hashAt q.blockHashes q.pool.hashBlockSize q.blockSize i with
  | none => .error .indexError
  | some blockHash => .ok (q.pool.getCachedBlock blockHash q.kvCacheGroupIds)

def misaligned (numBlocks : ℕ) : Prop :=
  q.blockSize ≠ q.alignmentTokens ∧ numBlocks * q.blockSize % q.alignmentTokens ≠ 0

instance (numBlocks : ℕ) : Decidable (q.misaligned numBlocks) :=
  inferInstanceAs (Decidable (_ ∧ _))

/-- The `while` loop that pops blocks until the hit is aligned: how many of `n` stay. -/
def alignLoop : ℕ → ℕ
  | 0 => 0
  | n + 1 => if q.misaligned (n + 1) then alignLoop n else n + 1

def aligned (rows : List Row) : List Row := rows.take (q.alignLoop rows.length)

def fullLoop : List BlockHash → List Row
  | [] => []
  | blockHash :: rest =>
    match q.pool.getCachedBlock blockHash q.kvCacheGroupIds with
    | none => []
    | some row => row :: fullLoop rest

def fullAttention : List Row :=
  let hashes := hashList q.blockHashes q.pool.hashBlockSize q.blockSize
  let rows := q.fullLoop (hashes.take q.maxNumBlocks)
  q.aligned (if q.useEagle then rows.dropLast else rows)

def postPopBlocks (i : ℕ) : ℕ := if q.useEagle then i else i + 1

/-- The scan of a sliding window down from block `i - 1`: the rows, the length of the run of hits it
ended in, and whether that was long enough. -/
def slidingLoop (needed : ℕ) : ℕ → ℕ → List Row → Except HitError (List Row × ℕ × Bool)
  | 0, numContiguous, computed => .ok (computed, numContiguous, false)
  | i + 1, numContiguous, computed =>
    match q.cachedAt i with
    | .error e => .error e
    | .ok none => slidingLoop needed i 0 computed
    | .ok (some row) =>
      if numContiguous = 0 ∧ q.misaligned (q.postPopBlocks i) then
        slidingLoop needed i numContiguous computed
      else if numContiguous + 1 ≥ needed then
        .ok ((computed.set i row).take (i + (numContiguous + 1)), numContiguous + 1, true)
      else slidingLoop needed i (numContiguous + 1) (computed.set i row)

def slidingWindow (window : ℕ) : Except HitError (List Row) :=
  let needed := cdiv (window - 1) q.blockSize + if q.useEagle then 1 else 0
  match q.slidingLoop needed q.maxNumBlocks 0 (List.replicate q.maxNumBlocks q.nullRow) with
  | .error e => .error e
  | .ok (computed, numContiguous, matchFound) =>
    let rows := if matchFound then computed else q.aligned (computed.take numContiguous)
    .ok (if q.useEagle then q.aligned rows.dropLast else rows)

def chunkedLoop : ℕ → ℕ → Except HitError (List Row)
  | 0, _ => .ok []
  | n + 1, i =>
    match q.cachedAt i with
    | .error e => .error e
    | .ok none => .ok []
    | .ok (some row) => (chunkedLoop n (i + 1)).map (row :: ·)

def chunkedLocalAttention (chunkSize : ℕ) : Except HitError (List Row) :=
  if q.useEagle then .error .eagleChunkedLocal
  else if q.blockSize ≠ q.alignmentTokens then .error .chunkedLocalBlockSize
  else
    let start := q.maxLength / chunkSize * chunkSize / q.blockSize
    (q.chunkedLoop (q.maxNumBlocks - start) start).map (List.replicate start q.nullRow ++ ·)

/-- The right-to-left scan for the last cached state, from block `i - 1` on. -/
def mambaLoop : ℕ → Except HitError (List Row)
  | 0 => .ok []
  | i + 1 =>
    match q.cachedAt i with
    | .error e => .error e
    | .ok none => mambaLoop i
    | .ok (some row) =>
      if q.misaligned (i + 1) then mambaLoop i else .ok (List.replicate i q.nullRow ++ [row])

/-- `manager_cls.find_longest_cache_hit`, for the manager class of the spec. -/
def findLongestCacheHit (kind : SpecKind) : Except HitError (List Row) :=
  match kind with
  | .fullAttention | .sinkFullAttention _ => .ok q.fullAttention
  | .slidingWindow window => q.slidingWindow window
  | .chunkedLocalAttention chunkSize => q.chunkedLocalAttention chunkSize
  | .mamba .. => q.mambaLoop q.maxNumBlocks
  | .crossAttention => .error .notImplemented

end Query

end CacheHit

end VllmEngine.Core

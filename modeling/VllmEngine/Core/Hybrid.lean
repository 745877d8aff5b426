import VllmEngine.Core.CacheHit

namespace VllmEngine.Core

open CacheHit

structure KVCacheGroupSpec where
  kvCacheSpec : KVCacheSpec
  isEagleGroup : Bool := false
  deriving DecidableEq

/-- An entry of `attention_groups`. The manager class is the one of the spec. -/
structure AttentionGroup where
  spec : KVCacheSpec
  groupIds : List ℕ
  deriving DecidableEq

namespace Hybrid

def addGroup (i : ℕ) (spec : KVCacheSpec) : List AttentionGroup → List AttentionGroup
  | [] => [⟨spec, [i]⟩]
  | g :: gs => if g.spec = spec then ⟨g.spec, g.groupIds ++ [i]⟩ :: gs else g :: addGroup i spec gs

def splitGroups : ℕ → List KVCacheGroupSpec → List AttentionGroup → List AttentionGroup
  | _, [], acc => acc
  | i, g :: gs, acc => splitGroups (i + 1) gs (addGroup i g.kvCacheSpec acc)

section

variable (groups : List KVCacheGroupSpec)

/-- Sorting by a Boolean key is stable: full attention first, all else in its order. -/
def attentionGroups : List AttentionGroup :=
  let split := splitGroups 0 groups []
  split.filter (·.spec.isFullAttention) ++ split.filter (!·.spec.isFullAttention)

def lcmBlockSize : ℕ :=
  (splitGroups 0 groups []).foldl (fun n g ↦ Nat.lcm n g.spec.blockSize) 1

/-- `eagle_group_ids`: all groups when EAGLE is on and no group is flagged. -/
def eagleGroupIds (useEagle : Bool) : List ℕ :=
  let flagged := (List.range groups.length).filter fun i ↦
    (groups[i]?.map (·.isEagleGroup)).getD false
  if useEagle ∧ flagged = [] then List.range groups.length else flagged

end

end Hybrid

/-- The configurations that `HybridKVCacheCoordinator` accepts, with group ids of four bytes. -/
structure HybridKVCacheCoordinator where
  kvCacheGroups : List KVCacheGroupSpec
  useEagle : Bool
  hashBlockSize : ℕ
  hashBlockSize_pos : 0 < hashBlockSize
  blockSize_pos : ∀ g ∈ kvCacheGroups, 0 < g.kvCacheSpec.blockSize
  divisible : ∀ g ∈ kvCacheGroups, g.kvCacheSpec.blockSize % hashBlockSize = 0
  two_attention_groups : 1 < (Hybrid.attentionGroups kvCacheGroups).length
  group_ids_fit : kvCacheGroups.length < 2 ^ 32

namespace HybridKVCacheCoordinator

variable (c : HybridKVCacheCoordinator)

def attentionGroups : List AttentionGroup := Hybrid.attentionGroups c.kvCacheGroups

def lcmBlockSize : ℕ := Hybrid.lcmBlockSize c.kvCacheGroups

def isEagle (g : AttentionGroup) : Bool :=
  g.groupIds.any fun gid ↦ gid ∈ Hybrid.eagleGroupIds c.kvCacheGroups c.useEagle

def isSimpleHybrid : Bool :=
  c.attentionGroups.length = 2 ∧ (c.attentionGroups.head?.map (·.spec.isFullAttention)).getD false

/-- The local variables of `find_longest_cache_hit` that its inner loop writes. -/
structure Scan where
  currHitLength : ℕ
  eagleVerified : List ℕ
  hitBlocksByGroup : ℕ → Option (List Ref)

def column (k : ℕ) (nullBlock : Ref) (rows : List Row) : List Ref :=
  rows.map fun row ↦ row.getD k nullBlock

def recordHits (nullBlock : Ref) (rows : List Row) :
    ℕ → List ℕ → (ℕ → Option (List Ref)) → ℕ → Option (List Ref)
  | _, [], hits => hits
  | k, gid :: gids, hits =>
    recordHits nullBlock rows (k + 1) gids
      (Function.update hits gid (some (column k nullBlock rows)))

/-- The lookup of one attention group: `_max_length` and the call of the manager class. -/
def query (p : BlockPool) (blockHashes : List BlockHash) (maxCacheHitLength : ℕ)
    (g : AttentionGroup) (useEagle : Bool) (currHitLength : ℕ) : Query where
  pool := p
  blockHashes
  kvCacheGroupIds := g.groupIds
  blockSize := g.spec.blockSize
  useEagle
  alignmentTokens := c.lcmBlockSize
  maxLength :=
    if useEagle then min (currHitLength + g.spec.blockSize) maxCacheHitLength else currHitLength

/-- The body of the inner loop, for the attention group with index `idx`. -/
def scanGroup (p : BlockPool) (blockHashes : List BlockHash) (maxCacheHitLength : ℕ) (idx : ℕ)
    (g : AttentionGroup) (s : Scan) : Except HitError Scan :=
  let cached := (g.groupIds.head?.bind s.hitBlocksByGroup).isSome
  if g.spec.isFullAttention ∧ cached then
    .ok { s with currHitLength := s.currHitLength / g.spec.blockSize * g.spec.blockSize }
  else
    let useEagle := c.isEagle g && !decide (idx ∈ s.eagleVerified)
    let q := c.query p blockHashes maxCacheHitLength g useEagle s.currHitLength
    match q.findLongestCacheHit g.spec.kind with
    | .error e => .error e
    | .ok rows =>
      let newHitLength := rows.length * g.spec.blockSize
      .ok {
        currHitLength := newHitLength
        eagleVerified :=
          if useEagle then idx :: s.eagleVerified
          else if newHitLength < s.currHitLength then [] else s.eagleVerified
        hitBlocksByGroup := recordHits p.nullBlock rows 0 g.groupIds s.hitBlocksByGroup }

def scanGroups (p : BlockPool) (blockHashes : List BlockHash) (maxCacheHitLength : ℕ) :
    ℕ → List AttentionGroup → Scan → Except HitError Scan
  | _, [], s => .ok s
  | idx, g :: gs, s =>
    match c.scanGroup p blockHashes maxCacheHitLength idx g s with
    | .error e => .error e
    | .ok s' => scanGroups p blockHashes maxCacheHitLength (idx + 1) gs s'

/-- The `while True` loop. A turn that does not end it lowers the hit length, so that a fuel above
that outlasts it. -/
def searchLoop (p : BlockPool) (blockHashes : List BlockHash) (maxCacheHitLength : ℕ) :
    ℕ → ℕ → Scan → Except HitError (ℕ × Scan)
  | 0, _, _ => .error .outOfFuel
  | fuel + 1, hitLength, s =>
    match c.scanGroups p blockHashes maxCacheHitLength 0 c.attentionGroups
        { s with currHitLength := hitLength } with
    | .error e => .error e
    | .ok s' =>
      if s'.currHitLength ≥ hitLength then .ok (hitLength, s')
      else if c.isSimpleHybrid then .ok (s'.currHitLength, s')
      else searchLoop p blockHashes maxCacheHitLength fuel s'.currHitLength s'

/-- The blocks of a group in the returned tuple, with the first attention group truncated if it is
full attention. -/
def finalBlocks (hitLength : ℕ) (s : Scan) (gid : ℕ) : List Ref :=
  let blocks := (s.hitBlocksByGroup gid).getD []
  match c.attentionGroups with
  | [] => blocks
  | g :: _ =>
    if g.spec.isFullAttention ∧ gid ∈ g.groupIds then blocks.take (hitLength / g.spec.blockSize)
    else blocks

def findLongestCacheHit (p : BlockPool) (blockHashes : List BlockHash) (maxCacheHitLength : ℕ) :
    Except HitError (List (List Ref) × ℕ) :=
  match c.searchLoop p blockHashes maxCacheHitLength (maxCacheHitLength + 1) maxCacheHitLength
      ⟨maxCacheHitLength, [], fun _ ↦ none⟩ with
  | .error e => .error e
  | .ok (hitLength, s) =>
    .ok ((List.range c.kvCacheGroups.length).map (c.finalBlocks hitLength s), hitLength)

end HybridKVCacheCoordinator

end VllmEngine.Core

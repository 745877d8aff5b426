import VllmEngine.Offload.OffloadLookup
import VllmEngine.Lib.OrderedDict
import Mathlib.Data.Rat.Floor

namespace VllmEngine.Offload

open Lib

/-- The status of a block in the CPU cache, with `-1` for one that is not ready. -/
structure BlockStatus where
  refCnt : ℤ := -1
  blockId : ℕ
  deriving DecidableEq

namespace BlockStatus

def isReady (b : BlockStatus) : Bool := decide (0 ≤ b.refCnt)

/-- `block.ref_cnt += n`, for a field of type `c_int32`. -/
def addRef (b : BlockStatus) (n : ℤ) : BlockStatus :=
  { b with refCnt := Int.bmod (b.refCnt + n) (2 ^ 32) }

end BlockStatus

abbrev CacheItem := OffloadKey × BlockStatus

/-- The test of both policies for a block that may be evicted. -/
def isEvictable (protectedKeys : List OffloadKey) (item : CacheItem) : Bool :=
  decide (item.2.refCnt = 0) && !protectedKeys.contains item.1

structure LRUCachePolicy where
  blocks : Dict OffloadKey BlockStatus := .empty

namespace LRUCachePolicy

variable (p : LRUCachePolicy)

def get (key : OffloadKey) : Option BlockStatus := p.blocks.get? key

def insert (key : OffloadKey) (block : BlockStatus) : LRUCachePolicy := ⟨p.blocks.set key block⟩

def remove (key : OffloadKey) : LRUCachePolicy := ⟨p.blocks.erase key⟩

def touch (keys : List OffloadKey) : LRUCachePolicy := ⟨keys.reverse.foldl Dict.moveToEnd p.blocks⟩

def selectLoop (protectedKeys : List OffloadKey) (n : ℕ) :
    List CacheItem → List CacheItem → List CacheItem
  | [], candidates => candidates
  | item :: items, candidates =>
    if isEvictable protectedKeys item then
      if (candidates ++ [item]).length = n then candidates ++ [item]
      else selectLoop protectedKeys n items (candidates ++ [item])
    else selectLoop protectedKeys n items candidates

def evict (n : ℕ) (protectedKeys : List OffloadKey) : Option (List CacheItem × LRUCachePolicy) :=
  if n = 0 then some ([], p)
  else
    let candidates := selectLoop protectedKeys n p.blocks.entries []
    if candidates.length < n then none
    else some (candidates, ⟨candidates.foldl (fun blocks item ↦ blocks.erase item.1) p.blocks⟩)

end LRUCachePolicy

/-- How a sum or quotient of floats is rounded; the sizes are floats themselves. -/
structure Rounding where
  round : ℚ → ℚ
  nonneg : ∀ x, 0 ≤ x → 0 ≤ round x
  le_cast : ∀ (x : ℚ) (n : ℕ), x ≤ n → round x ≤ n

def Rounding.exact : Rounding := ⟨id, fun _ h ↦ h, fun _ _ h ↦ h⟩

/-- The values of the ghost lists are `None`. -/
structure ARCCachePolicy where
  cacheCapacity : ℕ
  rounding : Rounding := .exact
  targetT1Size : ℚ := 0
  t1 : Dict OffloadKey BlockStatus := .empty
  t2 : Dict OffloadKey BlockStatus := .empty
  b1 : Dict OffloadKey Unit := .empty
  b2 : Dict OffloadKey Unit := .empty

/-- `int(x)`. -/
def truncate (x : ℚ) : ℤ := if 0 ≤ x then ⌊x⌋ else ⌈x⌉

/-- An evicted block, and whether it comes from `t1`. -/
structure Candidate where
  item : CacheItem
  fromT1 : Bool
  deriving DecidableEq

namespace ARCCachePolicy

variable (p : ARCCachePolicy)

section

variable (key : OffloadKey)

def get : Option BlockStatus := (p.t1.get? key).orElse fun _ ↦ p.t2.get? key

def insert (block : BlockStatus) : ARCCachePolicy :=
  { p with t1 := p.t1.set key block, b1 := p.b1.erase key, b2 := p.b2.erase key }

def remove : ARCCachePolicy :=
  match p.t1.get? key with
  | some _ => { p with t1 := p.t1.erase key }
  | none => { p with t2 := p.t2.erase key }

def touchKey : ARCCachePolicy :=
  match p.t1.get? key with
  | some block =>
    -- a block that is being stored has not been touched twice
    if block.isReady then { p with t1 := p.t1.erase key, t2 := p.t2.set key block }
    else { p with t1 := p.t1.moveToEnd key }
  | none =>
    if (p.t2.get? key).isSome then { p with t2 := p.t2.moveToEnd key }
    else if (p.b1.get? key).isSome then
      { p with
        targetT1Size := min (p.rounding.round (p.targetT1Size +
          max 1 (p.rounding.round (p.b2.size / p.b1.size)))) p.cacheCapacity
        b1 := p.b1.moveToEnd key }
    else if (p.b2.get? key).isSome then
      { p with
        targetT1Size := max (p.rounding.round (p.targetT1Size -
          max 1 (p.rounding.round (p.b1.size / p.b2.size)))) 0
        b2 := p.b2.moveToEnd key }
    else p

end

def touch (keys : List OffloadKey) : ARCCachePolicy := keys.reverse.foldl touchKey p

def nextItem (protectedKeys : List OffloadKey) (candidates : List Candidate)
    (items : List CacheItem) : Option CacheItem :=
  items.find? fun item ↦
    isEvictable protectedKeys item && !(candidates.map fun c ↦ c.item.1).contains item.1

def selectLoop (protectedKeys : List OffloadKey) : ℕ → ℤ → List Candidate → Option (List Candidate)
  | 0, _, candidates => some candidates
  | n + 1, virtualT1Size, candidates =>
    let fromT1 :=
      if truncate p.targetT1Size ≤ virtualT1Size then nextItem protectedKeys candidates p.t1.entries
      else none
    match fromT1 with
    | some item =>
      selectLoop protectedKeys n (virtualT1Size - 1) (candidates ++ [⟨item, true⟩])
    | none =>
      match nextItem protectedKeys candidates p.t2.entries with
      | some item => selectLoop protectedKeys n virtualT1Size (candidates ++ [⟨item, false⟩])
      | none => none

def applyEviction (c : Candidate) : ARCCachePolicy :=
  if c.fromT1 then { p with t1 := p.t1.erase c.item.1, b1 := p.b1.set c.item.1 () }
  else { p with t2 := p.t2.erase c.item.1, b2 := p.b2.set c.item.1 () }

def trimGhosts : ARCCachePolicy :=
  { p with
    b1 := p.b1.dropOldest (p.b1.size - p.cacheCapacity)
    b2 := p.b2.dropOldest (p.b2.size - p.cacheCapacity) }

def evict (n : ℕ) (protectedKeys : List OffloadKey) : Option (List CacheItem × ARCCachePolicy) :=
  if n = 0 then some ([], p)
  else
    match p.selectLoop protectedKeys n p.t1.size [] with
    | none => none
    | some candidates =>
      some (candidates.map Candidate.item, (candidates.foldl applyEviction p).trimGhosts)

end ARCCachePolicy

/-- One of `_CACHE_POLICIES`. -/
inductive CachePolicy
  | lru (p : LRUCachePolicy)
  | arc (p : ARCCachePolicy)

inductive PolicyName
  | lru
  | arc
  deriving DecidableEq

namespace CachePolicy

def get : CachePolicy → OffloadKey → Option BlockStatus
  | .lru p, key => p.get key
  | .arc p, key => p.get key

def insert : CachePolicy → OffloadKey → BlockStatus → CachePolicy
  | .lru p, key, block => .lru (p.insert key block)
  | .arc p, key, block => .arc (p.insert key block)

def remove : CachePolicy → OffloadKey → CachePolicy
  | .lru p, key => .lru (p.remove key)
  | .arc p, key => .arc (p.remove key)

def touch : CachePolicy → List OffloadKey → CachePolicy
  | .lru p, keys => .lru (p.touch keys)
  | .arc p, keys => .arc (p.touch keys)

def evict : CachePolicy → ℕ → List OffloadKey → Option (List CacheItem × CachePolicy)
  | .lru p, n, protectedKeys => (p.evict n protectedKeys).map fun out ↦ (out.1, .lru out.2)
  | .arc p, n, protectedKeys => (p.evict n protectedKeys).map fun out ↦ (out.1, .arc out.2)

def update : CachePolicy → OffloadKey → BlockStatus → CachePolicy
  | .lru p, key, block => .lru ⟨p.blocks.set key block⟩
  | .arc p, key, block =>
    if (p.t1.get? key).isSome then .arc { p with t1 := p.t1.set key block }
    else .arc { p with t2 := p.t2.set key block }

def items : CachePolicy → List CacheItem
  | .lru p => p.blocks.entries
  | .arc p => p.t1.entries ++ p.t2.entries

end CachePolicy

end VllmEngine.Offload

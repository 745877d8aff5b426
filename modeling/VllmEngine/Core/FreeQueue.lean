import Mathlib.Data.List.Basic
import Mathlib.Data.Int.Notation

namespace VllmEngine.Core

/-- A block object: one of the pool's blocks, or an end of the free list. -/
inductive Ref
  | head
  | tail
  | blk (i : ℕ)
  deriving DecidableEq

def Ref.blockId : Ref → ℤ
  | .head | .tail => -1
  | .blk i => i

/-- `FreeKVCacheBlockQueue`, with the two link attributes of every block object. -/
structure FreeKVCacheBlockQueue where
  prevFreeBlock : Ref → Option Ref
  nextFreeBlock : Ref → Option Ref
  numFreeBlocks : ℤ

/-- The `raise` and `assert` branches of the free queue. Only `noFreeBlocks` is a `ValueError`, of
`popleft` on an empty queue. -/
inductive QueueError
  | noFreeBlocks
  | popleftOutOfSync
  | popleftInvalidBlock
  | popleftNShort
  | popleftNNoBlock
  | removeInvalidBlock
  | appendNNoLastBlock
  | readNoFirstBlock
  deriving DecidableEq

abbrev QueueM := EStateM QueueError FreeKVCacheBlockQueue

namespace FreeKVCacheBlockQueue

def setPrev (r : Ref) (v : Option Ref) (q : FreeKVCacheBlockQueue) : FreeKVCacheBlockQueue :=
  { q with prevFreeBlock := Function.update q.prevFreeBlock r v }

def setNext (r : Ref) (v : Option Ref) (q : FreeKVCacheBlockQueue) : FreeKVCacheBlockQueue :=
  { q with nextFreeBlock := Function.update q.nextFreeBlock r v }

def addFree (n : ℤ) (q : FreeKVCacheBlockQueue) : FreeKVCacheBlockQueue :=
  { q with numFreeBlocks := q.numFreeBlocks + n }

/-- `__init__`: the blocks by their ids, between the two fake blocks. -/
def init (numBlocks : ℕ) : FreeKVCacheBlockQueue where
  prevFreeBlock
    | .head => none
    | .tail => some (if numBlocks = 0 then .head else .blk (numBlocks - 1))
    | .blk i => if i < numBlocks then some (if i = 0 then .head else .blk (i - 1)) else none
  nextFreeBlock
    | .head => some (if numBlocks = 0 then .tail else .blk 0)
    | .tail => none
    | .blk i =>
      if i < numBlocks then some (if i = numBlocks - 1 then .tail else .blk (i + 1)) else none
  numFreeBlocks := numBlocks

def popleft : QueueM Ref := do
  let q ← get
  match q.nextFreeBlock .head with
  | none | some .tail =>
    if q.numFreeBlocks = 0 then throw .noFreeBlocks else throw .popleftOutOfSync
  | some firstBlock =>
    match q.nextFreeBlock firstBlock with
    | none => throw .popleftInvalidBlock
    | some second =>
      modify (setNext .head (some second))
      modify (setPrev second (some .head))
      modify (setPrev firstBlock none)
      modify (setNext firstBlock none)
      modify (addFree (-1))
      pure firstBlock

/-- The `for` loop of `popleft_n`: the popped blocks and the block after them. -/
def popleftLoop : ℕ → Option Ref → QueueM (List Ref × Option Ref)
  | 0, currBlock => pure ([], currBlock)
  | _ + 1, none => throw .popleftNNoBlock
  | n + 1, some lastBlock => do
    let q ← get
    modify (setPrev lastBlock none)
    modify (setNext lastBlock none)
    let rest ← popleftLoop n (q.nextFreeBlock lastBlock)
    pure (lastBlock :: rest.1, rest.2)

def popleftN (n : ℤ) : QueueM (List Ref) := do
  if n = 0 then pure []
  else
    let q ← get
    if q.numFreeBlocks < n then throw .popleftNShort
    else
      modify (addFree (-n))
      let out ← popleftLoop n.toNat (q.nextFreeBlock .head)
      match out.2 with
      | none => pure out.1
      | some currBlock =>
        modify (setNext .head (some currBlock))
        modify (setPrev currBlock (some .head))
        pure out.1

def remove (block : Ref) : QueueM Unit := do
  let q ← get
  match q.prevFreeBlock block, q.nextFreeBlock block with
  | some prev, some next =>
    modify (setNext prev (some next))
    modify (setPrev next (some prev))
    modify (setPrev block none)
    modify (setNext block none)
    modify (addFree (-1))
  | _, _ => throw .removeInvalidBlock

/-- The `for` loop of `append_n`, which returns the last block it linked. -/
def appendLoop : List Ref → Ref → QueueM Ref
  | [], lastBlock => pure lastBlock
  | block :: blocks, lastBlock => do
    modify (setPrev block (some lastBlock))
    modify (setNext lastBlock (some block))
    appendLoop blocks block

def appendN (blocks : List Ref) : QueueM Unit := do
  if blocks = [] then pure ()
  else
    let q ← get
    match q.prevFreeBlock .tail with
    | none => throw .appendNNoLastBlock
    | some first =>
      let lastBlock ← appendLoop blocks first
      modify (setNext lastBlock (some .tail))
      modify (setPrev .tail (some lastBlock))
      modify (addFree blocks.length)

/-- The `while` loop of `get_all_free_blocks`, up to the block without a successor. -/
def readFrom (q : FreeKVCacheBlockQueue) : ℕ → Ref → List Ref
  | 0, _ => []
  | fuel + 1, currBlock =>
    match q.nextFreeBlock currBlock with
    | none => []
    | some next => currBlock :: readFrom q fuel next

/-- The loop has no bound of its own; `fuel` is one. -/
def getAllFreeBlocks (q : FreeKVCacheBlockQueue) (fuel : ℕ) : Except QueueError (List Ref) :=
  match q.nextFreeBlock .head with
  | none => .error .readNoFirstBlock
  | some first => .ok (readFrom q fuel first)

end FreeKVCacheBlockQueue

end VllmEngine.Core

import VllmEngine.Core.BlockPool
import VllmEngine.Lib.Triple

namespace VllmEngine.Core.BlockPool

open Lib

structure Config where
  numGpuBlocks : ℕ
  enableCaching : Bool
  hashBlockSize : ℕ
  isNull : Ref → Bool
  nullBlock : Ref

def config (p : BlockPool) : Config :=
  ⟨p.numGpuBlocks, p.enableCaching, p.hashBlockSize, p.isNull, p.nullBlock⟩

structure Counts where
  freeBlockQueue : FreeKVCacheBlockQueue
  refCnt : Ref → ℤ
  isNull : Ref → Bool

def counts (p : BlockPool) : Counts := ⟨p.freeBlockQueue, p.refCnt, p.isNull⟩

structure Index where
  numGpuBlocks : ℕ
  blockHash : Ref → Option BlockHashWithGroupId
  cachedBlockHashToBlock : BlockHashToBlockMap

def index (p : BlockPool) : Index := ⟨p.numGpuBlocks, p.blockHash, p.cachedBlockHashToBlock⟩

structure IgnoresHashes {γ : Type} (view : BlockPool → γ) : Prop where
  setBlockHash : ∀ b h p, view (setBlockHash b h p) = view p
  setIndex : ∀ m p, view (setIndex m p) = view p
  pushEvent : ∀ e p, view (pushEvent e p) = view p

structure IgnoresCounts {γ : Type} (view : BlockPool → γ) : Prop where
  addRef : ∀ b n p, view (addRef b n p) = view p
  setQueue : ∀ q p, view { p with freeBlockQueue := q } = view p

theorem counts_ignoresHashes : IgnoresHashes counts where
  setBlockHash _ _ _ := rfl
  setIndex _ _ := rfl
  pushEvent e p := by unfold pushEvent; split <;> rfl

theorem config_ignoresHashes : IgnoresHashes config where
  setBlockHash _ _ _ := rfl
  setIndex _ _ := rfl
  pushEvent e p := by unfold pushEvent; split <;> rfl

theorem config_ignoresCounts : IgnoresCounts config := ⟨fun _ _ _ ↦ rfl, fun _ _ ↦ rfl⟩

theorem index_ignoresCounts : IgnoresCounts index := ⟨fun _ _ _ ↦ rfl, fun _ _ ↦ rfl⟩

theorem index_pushEvent (e) (p) : (pushEvent e p).index = p.index := by
  unfold pushEvent
  split <;> rfl

section

variable {γ : Type} {view : BlockPool → γ}

theorem maybeEvictCachedBlock_returns (hv : IgnoresHashes view) (b) (p) :
    Succeeds (maybeEvictCachedBlock b) p (fun _ p' ↦ view p' = view p) := by
  refine .get_bind ?_
  cases p.blockHash b with
  | none => exact .pure rfl
  | some h =>
    refine .bind (.modify ?_)
    cases (p.cachedBlockHashToBlock.pop h b.blockId).1 with
    | none => exact .pure (hv.setIndex _ _)
    | some _ =>
      refine .bind (.modify (.bind (.modify (.pure ?_))))
      rw [hv.pushEvent, hv.setBlockHash, hv.setIndex]

theorem cacheBlock_preserves (hv : IgnoresHashes view) (hs g i b) :
    Preserves PoolError.NotQueue view (cacheBlock hs g i b) := by
  refine .bind .get fun p ↦ ?_
  split
  · exact .pure _
  split
  · exact .throw (by simp [PoolError.NotQueue])
  split
  · exact .throw (by simp [PoolError.NotQueue])
  · exact .bind (.modify (hv.setBlockHash _ _)) fun _ ↦
      .bind (.modify (hv.setIndex _)) fun _ ↦ .pure _

theorem cacheLoop_preserves (hv : IgnoresHashes view) (hs g) (i) (bs) :
    Preserves PoolError.NotQueue view (cacheLoop hs g i bs) := by
  induction bs generalizing i with
  | nil => exact .pure _
  | cons b bs ih =>
    exact .bind (cacheBlock_preserves hv hs g i b) fun _ ↦ .bind (ih (i + 1)) fun _ ↦ .pure _

theorem extraKeysLoop_preserves (view : BlockPool → γ) (H r bs size) (idxs)
    (c) : Preserves PoolError.NotQueue view (extraKeysLoop H r bs size idxs c) := by
  induction idxs generalizing c with
  | nil => exact .pure _
  | cons i idxs ih =>
    unfold extraKeysLoop
    split
    · exact .throw (by simp [PoolError.NotQueue])
    refine .bind .get fun p ↦ ?_
    split
    · exact ih c
    · exact .bind (ih _) fun _ ↦ .pure _

theorem parentBlockHash_error {p : BlockPool} {r c size e}
    (h : p.parentBlockHash r c size = .error e) : e.NotQueue := by
  unfold parentBlockHash at h
  split at h
  · cases h
  split at h
  · cases h
    simp [PoolError.NotQueue]
  · cases h

theorem cacheFullBlocks_preserves (hv : IgnoresHashes view) (H r bs c f size g) :
    Preserves PoolError.NotQueue view (cacheFullBlocks H r bs c f size g) := by
  unfold cacheFullBlocks
  split
  · exact .pure _
  refine .bind .get fun p ↦ ?_
  split
  · exact .throw (by simp [PoolError.NotQueue])
  split
  · exact .throw (by simp [PoolError.NotQueue])
  refine .bind (cacheLoop_preserves hv _ _ _ _) fun _ ↦ ?_
  split
  · split
    next e he => exact .throw (parentBlockHash_error he)
    · exact .bind (extraKeysLoop_preserves _ _ _ _ _ _ _) fun _ ↦ .modify (hv.pushEvent _)
  · exact .pure _

theorem evictBlocks_preserves (hv : IgnoresHashes view) (ids) :
    Preserves PoolError.NotQueue view (evictBlocks ids) := by
  refine .forM (fun id ↦ .bind .get fun p ↦ ?_) ids
  split
  · exact .throw (by simp [PoolError.NotQueue])
  split
  · exact .throw (by simp [PoolError.NotQueue])
  · exact .bind (.of_returns (maybeEvictCachedBlock_returns hv _)) fun _ ↦ .pure _

theorem resetPrefixCache_preserves (hv : IgnoresHashes view) :
    Preserves PoolError.NotQueue view resetPrefixCache := by
  refine .bind .get fun p ↦ ?_
  split
  · exact .pure _
  · exact .bind (.modify (hv.setIndex _)) fun _ ↦
      .bind (.forM (fun _ ↦ .modify (hv.setBlockHash _ _)) _) fun _ ↦
        .bind (.modify (hv.pushEvent _)) fun _ ↦ .pure _

end

section

variable {γ : Type} {view : BlockPool → γ}

theorem onQueue_preserves (hv : IgnoresCounts view) {α : Type} (m : QueueM α) :
    Preserves (fun _ ↦ True) view (onQueue m) := by
  intro p
  unfold Ensures onQueue
  cases m p.freeBlockQueue with
  | ok a q => exact hv.setQueue q p
  | error e q => exact ⟨hv.setQueue q p, trivial⟩

theorem touch_preserves (hv : IgnoresCounts view) (bs) : Preserves (fun _ ↦ True) view
    (touch bs) := by
  refine .forM (fun b ↦ .bind .get fun p ↦ ?_) bs
  split
  · exact .bind (onQueue_preserves hv _) fun _ ↦ .modify (hv.addRef _ _)
  · exact .modify (hv.addRef _ _)

theorem freeBlocks_preserves (hv : IgnoresCounts view) (bs) :
    Preserves (fun _ ↦ True) view (freeBlocks bs) :=
  .bind (.forM (fun _ ↦ .modify (hv.addRef _ _)) bs) fun _ ↦
    .bind .get fun _ ↦ onQueue_preserves hv _

end

theorem claimBlock_config (b) : Preserves (fun _ ↦ True) config (claimBlock b) := by
  have hclaim : Preserves (fun _ ↦ True) config (do
      let p ← get
      if p.refCnt b ≠ 0 then throw .refCntNotZero else modify (addRef b 1) : PoolM Unit) := by
    refine .bind .get fun p ↦ ?_
    split
    · exact .throw trivial
    · exact .modify fun _ ↦ rfl
  refine .bind .get fun p ↦ ?_
  split
  · exact .bind (.of_returns (maybeEvictCachedBlock_returns config_ignoresHashes b)) fun _ ↦ hclaim
  · exact hclaim

theorem getNewBlocks_config (n) : Preserves (fun _ ↦ True) config (getNewBlocks n) := by
  refine .bind .get fun p ↦ ?_
  split
  · exact .throw trivial
  · exact .bind (onQueue_preserves config_ignoresCounts _) fun _ ↦
      .bind (.forM claimBlock_config _) fun _ ↦ .pure _

end VllmEngine.Core.BlockPool

import VllmEngine.Core.PoolCounts
import VllmEngine.Core.PoolIndex

namespace VllmEngine.Core

open Lib BlockPool

inductive PoolOp
  | getNewBlocks (numBlocks : ℕ)
  | touch (blocks : List Ref)
  | freeBlocks (orderedBlocks : List Ref)
  | cacheFullBlocks (request : Request) (blocks : List Ref)
      (numCachedBlocks numFullBlocks blockSize kvCacheGroupId : ℕ)
  | evictBlocks (blockIds : List ℤ)
  | resetPrefixCache

namespace PoolOp

def run (H : Hashing) : PoolOp → PoolM (List Ref)
  | .getNewBlocks n => BlockPool.getNewBlocks n
  | .touch bs => do BlockPool.touch bs; pure []
  | .freeBlocks bs => do BlockPool.freeBlocks bs; pure []
  | .cacheFullBlocks r bs c f size g => do BlockPool.cacheFullBlocks H r bs c f size g; pure []
  | .evictBlocks ids => do BlockPool.evictBlocks ids; pure []
  | .resetPrefixCache => do let _ ← BlockPool.resetPrefixCache; pure []

def refs : PoolOp → List Ref
  | .touch bs | .freeBlocks bs | .cacheFullBlocks _ bs _ _ _ _ => bs
  | .getNewBlocks _ | .evictBlocks _ | .resetPrefixCache => []

def track (ret : List Ref) (held : Ref → ℕ) : PoolOp → Ref → ℕ
  | .getNewBlocks _, r => held r + ret.count r
  | .touch bs, r => held r + bs.count r
  | .freeBlocks bs, r => held r - bs.count r
  | .cacheFullBlocks .., r | .evictBlocks _, r | .resetPrefixCache, r => held r

/-- The operation is on blocks of the pool, and what it frees is held and freed only once. The null
block, which is not counted, may be freed freely. -/
def Disciplined (p : BlockPool) (held : Ref → ℕ) (op : PoolOp) : Prop :=
  (∀ b ∈ op.refs, b ∈ p.blocks) ∧
    ∀ bs, op = .freeBlocks bs → ∀ b ∈ bs, b ≠ p.nullBlock → bs.count b = 1 ∧ 0 < held b

theorem run_config (H : Hashing) (op : PoolOp) : Preserves (fun _ ↦ True) config (op.run H) := by
  cases op with
  | getNewBlocks n => exact getNewBlocks_config n
  | touch bs => exact .bind (touch_preserves config_ignoresCounts bs) fun _ ↦ .pure _
  | freeBlocks bs => exact .bind (freeBlocks_preserves config_ignoresCounts bs) fun _ ↦ .pure _
  | cacheFullBlocks r bs c f size g =>
    exact .bind (cacheFullBlocks_preserves config_ignoresHashes _ _ _ _ _ _ _).weaken fun _ ↦ .pure _
  | evictBlocks ids =>
    exact .bind (evictBlocks_preserves config_ignoresHashes ids).weaken fun _ ↦ .pure _
  | resetPrefixCache =>
    exact .bind (resetPrefixCache_preserves config_ignoresHashes).weaken fun _ ↦ .pure _

/-- One operation of a disciplined caller: the pool refines a ledger with the caller's references,
and the free queue raises nothing. -/
theorem run_refines (H : Hashing) {n} {p : BlockPool} {L : Ledger Ref} {op : PoolOp}
    (h : Refines (Usable n []) (.blk 0) p L) (hn : p.numGpuBlocks = n) (hnull : p.nullBlock = .blk 0)
    (hop : op.Disciplined p L.held) :
    Ensures (op.run H) p (fun ret p' ↦ ∃ L' : Ledger Ref, L'.held = op.track ret L.held ∧
        Refines (Usable n []) (.blk 0) p' L')
      (fun e p' ↦ Refines (Usable n []) (.blk 0) p' L ∧ ∀ q, e ≠ .queue q) := by
  have husable : ∀ b ∈ op.refs, Usable n [] b ∨ b = .blk 0 := by
    intro b hb
    by_cases hb0 : b = .blk 0
    · exact .inr hb0
    · exact .inl ⟨hn ▸ hop.1 b hb, hb0, by simp⟩
  -- caching, evicting and resetting leave the counts alone
  have hsame : ∀ {α : Type} {m : PoolM α}, Preserves PoolError.NotQueue counts m →
      Ensures (do let _ ← m; pure [] : PoolM (List Ref)) p
        (fun _ p' ↦ ∃ L' : Ledger Ref, L'.held = L.held ∧ Refines (Usable n []) (.blk 0) p' L')
        (fun e p' ↦ Refines (Usable n []) (.blk 0) p' L ∧ ∀ q, e ≠ .queue q) := fun hm ↦
    .bind ((hm p).weaken (fun _ _ ht ↦ .pure ⟨L, rfl, h.congr ht⟩)
      fun _ _ he ↦ ⟨h.congr he.1, he.2⟩)
  cases op with
  | getNewBlocks k =>
    rcases Nat.lt_or_ge L.free.length k with hk | hk
    · simp only [Ensures, run, getNewBlocks_short h hk]
      exact ⟨h, by simp⟩
    · refine (getNewBlocks_refines h hk).mono ?_
      rintro ret p' ⟨rfl, hp'⟩
      exact ⟨_, rfl, hp'⟩
  | touch bs =>
    exact .seq (touch_refines h husable) (fun _ _ ht ↦ .pure ⟨_, rfl, ht⟩)
  | freeBlocks bs =>
    have hrel : L.Releasable (Usable n []) bs := fun r hr hu ↦
      hop.2 bs rfl r hr (hnull ▸ hu.2.1)
    exact .seq (freeBlocks_refines h husable hrel) (fun _ _ ht ↦ .pure ⟨_, rfl, ht⟩)
  | cacheFullBlocks r bs c f size g =>
    exact hsame (cacheFullBlocks_preserves counts_ignoresHashes H r bs c f size g)
  | evictBlocks ids => exact hsame (evictBlocks_preserves counts_ignoresHashes ids)
  | resetPrefixCache => exact hsame (resetPrefixCache_preserves counts_ignoresHashes)

theorem run_indexed (H : Hashing) {p : BlockPool} {op : PoolOp} (h : Indexed p)
    (hc : p.enableCaching = true) (hop : ∀ b ∈ op.refs, b ∈ p.blocks) :
    Ensures (op.run H) p (fun _ p' ↦ Indexed p') (fun _ p' ↦ Indexed p') := by
  have hsame : ∀ {m : PoolM Unit}, Preserves (fun _ ↦ True) index m →
      Ensures (do m; pure [] : PoolM (List Ref)) p (fun _ p' ↦ Indexed p') (fun _ p' ↦ Indexed p') :=
    fun hm ↦ .bind ((hm p).weaken (fun _ _ ht ↦ .pure (h.congr ht)) fun _ _ he ↦ h.congr he.1)
  cases op with
  | getNewBlocks n => exact (getNewBlocks_index h hc n).mono fun _ _ ht ↦ ht.1
  | touch bs => exact hsame (touch_preserves index_ignoresCounts bs)
  | freeBlocks bs => exact hsame (freeBlocks_preserves index_ignoresCounts bs)
  | cacheFullBlocks r bs c f size g =>
    by_cases hcf : c < f
    · exact .seq (cacheFullBlocks_index h hop H r c f size g hcf) fun _ _ ht ↦ .pure ht.1
    have hskip : BlockPool.cacheFullBlocks H r bs c f size g p = .ok () p := by
      rw [BlockPool.cacheFullBlocks, if_pos (by omega)]
      rfl
    exact .bind (.of_ok hskip (.pure h))
  | evictBlocks ids =>
    exact .seq (evictBlocks_index h ids) fun _ _ ht ↦ .pure ht
  | resetPrefixCache =>
    exact .seq (resetPrefixCache_index h) fun _ _ ht ↦ .pure ht

end PoolOp

namespace BlockPool

/-- The states a disciplined caller can bring a pool into, with its references then. Operations that
raise leave these as they were. -/
inductive Traced (H : Hashing) (n : ℕ) (caching : Bool) (size : ℕ) (events ints : Bool) :
    BlockPool → (Ref → ℕ) → Prop
  | init {p} (h : init n caching size events ints = .ok p) :
    Traced H n caching size events ints p fun _ ↦ 0
  | returned {p held ret p'} (op : PoolOp) (h : Traced H n caching size events ints p held)
    (hop : PoolOp.Disciplined p held op) (hrun : op.run H p = .ok ret p') :
    Traced H n caching size events ints p' (op.track ret held)
  | raised {p held e p'} (op : PoolOp) (h : Traced H n caching size events ints p held)
    (hop : PoolOp.Disciplined p held op) (hrun : op.run H p = .error e p') :
    Traced H n caching size events ints p' held

variable {H : Hashing} {n size : ℕ} {caching events ints : Bool} {p : BlockPool} {held : Ref → ℕ}

theorem Traced.refines (h : Traced H n caching size events ints p held) :
    p.numGpuBlocks = n ∧ p.nullBlock = .blk 0 ∧
      ∃ L : Ledger Ref, L.held = held ∧ Refines (Usable n []) (.blk 0) p L := by
  induction h with
  | init h =>
    obtain ⟨href, hnull, hn, -⟩ := init_refines h
    exact ⟨hn, hnull, _, rfl, href⟩
  | returned op _ hop hrun ih =>
    obtain ⟨hn, hnull, L, rfl, href⟩ := ih
    have hcfg := (PoolOp.run_config H _ _).ok hrun
    exact ⟨(congrArg Config.numGpuBlocks hcfg).trans hn, (congrArg Config.nullBlock hcfg).trans hnull,
      (PoolOp.run_refines H href hn hnull hop).ok hrun⟩
  | raised op _ hop hrun ih =>
    obtain ⟨hn, hnull, L, rfl, href⟩ := ih
    have hcfg := ((PoolOp.run_config H _ _).error hrun).1
    exact ⟨(congrArg Config.numGpuBlocks hcfg).trans hn, (congrArg Config.nullBlock hcfg).trans hnull,
      L, rfl, ((PoolOp.run_refines H href hn hnull hop).error hrun).1⟩

structure FreeQueueReads (p : BlockPool) (l : List Ref) : Prop where
  forwards : (Ref.head :: l ++ [Ref.tail]).IsChain
    fun a b ↦ p.freeBlockQueue.nextFreeBlock a = some b
  backwards : (Ref.tail :: l.reverse ++ [Ref.head]).IsChain
    fun a b ↦ p.freeBlockQueue.prevFreeBlock a = some b
  read : ∀ fuel, l.length < fuel → p.freeBlockQueue.getAllFreeBlocks fuel = .ok l
  nodup : l.Nodup
  count : p.getNumFreeBlocks = l.length

theorem FreeQueueReads.of_holds {l} (h : p.freeBlockQueue.Holds l) : FreeQueueReads p l where
  forwards := h.linked.imp fun _ _ hab ↦ hab.1
  backwards := by
    have hrev := List.isChain_reverse.mpr (h.linked.imp fun _ _ hab ↦ hab.2)
    simpa using hrev
  read fuel hfuel := h.getAllFreeBlocks_eq fuel hfuel
  nodup := h.nodup_blocks
  count := h.count

/-- Whatever a disciplined caller does, the free queue lists each unreferenced block once, in both
directions, and raises nothing. -/
theorem free_queue_lists_unreferenced_blocks (h : Traced H n caching size events ints p held) :
    (∃ l, FreeQueueReads p l ∧ p.nullBlock ∉ l ∧
        ∀ r, r ∈ l ↔ r ∈ p.blocks ∧ r ≠ p.nullBlock ∧ p.refCnt r = 0) ∧
      (∀ r ∈ p.blocks, r ≠ p.nullBlock → 0 ≤ p.refCnt r) ∧
      ∀ op, PoolOp.Disciplined p held op → ∀ e p', op.run H p ≠ .error (.queue e) p' := by
  obtain ⟨hn, hnull, L, rfl, href⟩ := h.refines
  have husable : ∀ r, Usable n [] r ↔ r ∈ p.blocks ∧ r ≠ p.nullBlock := by
    intro r
    simp [Usable, blocks, hn, hnull]
  refine ⟨⟨L.free, .of_holds href.queue, ?_, fun r ↦ ?_⟩, fun r hr hne ↦ ?_, fun op hop e p' he ↦ ?_⟩
  · rw [href.sound.mem_free, husable]
    exact fun hm ↦ hm.1.2 rfl
  · rw [href.sound.mem_free, husable, and_assoc]
    refine and_congr_right fun hr ↦ and_congr_right fun hne ↦ ?_
    rw [href.refCnt r (href.ne_null ((husable r).mpr ⟨hr, hne⟩))]
    exact_mod_cast Iff.rfl
  · rw [href.refCnt r (href.ne_null ((husable r).mpr ⟨hr, hne⟩))]
    exact Int.natCast_nonneg _
  · exact ((PoolOp.run_refines H href hn hnull hop).error he).2 e rfl

def byteHashing : Hashing where
  hashFunction x := [x.2.1.length.toUInt8]
  sha256 _ := []
  noneHash := [0]

theorem free_queue_lists_unreferenced_blocks_after_allocation :
    ∃ p held, Traced byteHashing 3 true 16 false false p held ∧ p.getNumFreeBlocks = 1 ∧
      ∃ l, FreeQueueReads p l ∧ p.nullBlock ∉ l ∧
        ∀ r, r ∈ l ↔ r ∈ p.blocks ∧ r ≠ p.nullBlock ∧ p.refCnt r = 0 :=
  have hrun : Traced byteHashing 3 true 16 false false _ _ :=
    .returned (.getNewBlocks 1) (.init rfl) ⟨by simp [PoolOp.refs], by simp⟩ rfl
  ⟨_, _, hrun, rfl, (free_queue_lists_unreferenced_blocks hrun).1⟩

def runOps (H : Hashing) (ops : List PoolOp) (p : BlockPool) : BlockPool :=
  ops.foldl (fun p op ↦ after (op.run H) p) p

theorem runOps_indexed {p0 : BlockPool} (h : Indexed p0) (hc : p0.enableCaching = true)
    (ops : List PoolOp) (hops : ∀ op ∈ ops, ∀ b ∈ op.refs, b ∈ p0.blocks) :
    Indexed (runOps H ops p0) ∧ (runOps H ops p0).enableCaching = true := by
  induction ops generalizing p0 with
  | nil => exact ⟨h, hc⟩
  | cons op ops ih =>
    have hcfg : (after (op.run H) p0).config = p0.config :=
      ((PoolOp.run_config H op p0).weaken (fun _ _ ht ↦ ht) (fun _ _ he ↦ he.1)).after
    have hblocks : (after (op.run H) p0).blocks = p0.blocks := by
      rw [blocks, show (after (op.run H) p0).numGpuBlocks = p0.numGpuBlocks from
        congrArg Config.numGpuBlocks hcfg]
      rfl
    refine ih (PoolOp.run_indexed H h hc (hops op (by simp))).after
      ((congrArg Config.enableCaching hcfg).trans hc) fun op' hop' ↦ ?_
    rw [hblocks]
    exact hops op' (by simp [hop'])

/-- After any operations on blocks of the pool, held or not, the hash index agrees with the hashes
of the blocks, and a block handed out has none. -/
theorem index_agrees_with_block_hashes {p0 : BlockPool}
    (h : init n true size events ints = .ok p0) (ops : List PoolOp)
    (hops : ∀ op ∈ ops, ∀ b ∈ op.refs, b ∈ p0.blocks) :
    (∀ key b, (runOps H ops p0).cachedBlockHashToBlock.Stored key b ↔
        (runOps H ops p0).blockHash b = some key) ∧
      (∀ key d, (runOps H ops p0).cachedBlockHashToBlock.get? key = some (.many d) →
        d.entries ≠ []) ∧
      (∀ key, ((runOps H ops p0).cachedBlockHashToBlock.getOneBlock key).isSome ↔
        ∃ b, (runOps H ops p0).blockHash b = some key) ∧
      ∀ numBlocks bs p', getNewBlocks numBlocks (runOps H ops p0) = .ok bs p' →
        ∀ b ∈ bs, p'.blockHash b = none := by
  have hcaching : p0.enableCaching = true := by
    unfold init at h
    split at h
    · cases h
    split at h
    · cases h
    · cases h
      rfl
  obtain ⟨hidx, hc⟩ := runOps_indexed (init_indexed h) hcaching ops hops
  refine ⟨hidx.stored, fun key d hd ↦ (hidx.wellFormed key _ hd).nonempty d rfl, fun key ↦ ?_, ?_⟩
  · rw [BlockHashToBlockMap.getOneBlock_isSome hidx.wellFormed]
    exact exists_congr fun b ↦ hidx.stored key b
  · intro numBlocks bs p' hget b hb
    rw [((getNewBlocks_index hidx hc numBlocks).ok hget).2 b, if_pos hb]

def duplicateOps : List PoolOp :=
  let request : Request := { requestId := "r", allTokenIds := [5], blockHashes := [[7]] }
  [.getNewBlocks 2, .cacheFullBlocks request [.blk 1] 0 1 1 0,
    .cacheFullBlocks request [.blk 2] 0 1 1 0, .evictBlocks [1]]

theorem index_agrees_with_block_hashes_after_eviction : ∃ p0, init 4 true 1 false false = .ok p0 ∧
      (runOps byteHashing duplicateOps p0).blockHash (.blk 1) = none ∧
      (runOps byteHashing duplicateOps p0).blockHash (.blk 2) = some [7, 0, 0, 0, 0] ∧
      ∀ key, ((runOps byteHashing duplicateOps p0).cachedBlockHashToBlock.getOneBlock key).isSome ↔
        ∃ b, (runOps byteHashing duplicateOps p0).blockHash b = some key :=
  have h : init 4 true 1 false false = .ok _ := rfl
  ⟨_, h, by decide, by decide, (index_agrees_with_block_hashes h duplicateOps (by decide)).2.2.1⟩

end BlockPool

end VllmEngine.Core

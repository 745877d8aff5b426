import VllmEngine.Core.SlotTables

namespace VllmEngine.Core

open Lib BlockHash BlockPool SingleTypeKVCacheManager List FreeKVCacheBlockQueue

/-- A pool that has handed out only the null block and the blocks in `reserved`. -/
structure Start (n : ℕ) (reserved free : List Ref) (p : BlockPool) : Prop where
  split : reserved ++ free = (range' 1 (n - 1)).map Ref.blk
  queue : p.freeBlockQueue.Holds free
  unused : ∀ b, p.refCnt b = 0
  unhashed : ∀ b, p.blockHash b = none
  index : p.cachedBlockHashToBlock = .empty
  isNull : ∀ b, p.isNull b = decide (b = .blk 0)
  nullBlock : p.nullBlock = .blk 0
  numGpuBlocks : p.numGpuBlocks = n
  pos : 0 < n

variable {n : ℕ} {reserved free : List Ref} {p p' : BlockPool}

theorem init_start {caching events ints size} (h : init n caching size events ints = .ok p) :
    (∃ free, Start n [] free p) ∧ p.enableCaching = caching ∧ p.hashBlockSize = size := by
  obtain ⟨href, hnull, hgpu, hpos⟩ := init_refines h
  unfold BlockPool.init at h
  split at h
  · cases h
  split at h
  · cases h
  · obtain rfl : _ = p := by simpa using h
    exact ⟨⟨_, by simp, href.queue, fun _ ↦ rfl, fun _ ↦ rfl, rfl, href.isNull, hnull, hgpu, hpos⟩,
      rfl, rfl⟩

theorem usable_iff_mem (hsplit : reserved ++ free = (range' 1 (n - 1)).map Ref.blk) (b) :
    Usable n reserved b ↔ b ∈ free := by
  have hnodup : (reserved ++ free).Nodup := by
    rw [hsplit]
    exact List.Nodup.map (fun _ _ h ↦ Ref.blk.inj h) nodup_range'
  have hmem : b ∈ reserved ++ free ↔ b ∈ (range n).map Ref.blk ∧ b ≠ .blk 0 := by
    rw [hsplit]
    simp only [mem_map, mem_range'_1, mem_range]
    constructor
    · rintro ⟨i, hi, rfl⟩
      exact ⟨⟨i, by omega, rfl⟩, by simp; omega⟩
    rintro ⟨⟨i, hi, rfl⟩, hne⟩
    have hi0 : i ≠ 0 := by
      rintro rfl
      exact hne rfl
    exact ⟨i, by omega, rfl⟩
  rw [Usable, ← and_assoc, ← hmem, mem_append]
  constructor
  · rintro ⟨hb, hr⟩
    exact hb.resolve_left hr
  · intro hb
    exact ⟨.inr hb, fun hr ↦ (nodup_append.mp hnodup).2.2 b hr b hb rfl⟩

theorem Start.held (h : Start n reserved free p) :
    Held (Usable n reserved) (.blk 0) p (fun _ ↦ 0) := by
  have husable := usable_iff_mem h.split
  refine ⟨⟨⟨fun _ ↦ 0, free⟩, ⟨⟨h.queue.nodup_blocks, fun r ↦ by simp [husable]⟩, h.queue,
    fun r _ ↦ by simp [h.unused], h.isNull, fun hu ↦ hu.2.1 rfl, ?_⟩, fun _ _ ↦ rfl⟩, ?_, h.nullBlock,
    ?_, fun b hb ↦ absurd (h.unhashed b) hb, fun _ _ _ ↦ rfl, fun _ _ _ ↦ Nat.zero_le _,
    fun _ ↦ h.unhashed⟩
  · rintro r ⟨hm, -⟩
    obtain ⟨i, -, rfl⟩ := mem_map.mp hm
    exact ⟨i, rfl⟩
  · exact ⟨by simp [h.index, BlockHashToBlockMap.WellFormed],
      by simp [h.index, BlockHashToBlockMap.Stored, h.unhashed], by simp [h.unhashed]⟩
  rw [blocks, h.numGpuBlocks]
  rintro b (hb | rfl)
  · exact hb.1
  · exact mem_map_of_mem (mem_range.mpr h.pos)

theorem popleftN_start {k : ℕ} (h : Start n reserved free p) :
    Ensures (onPool (onQueue (popleftN k))) p
      (fun bs p' ↦ p'.config = p.config ∧ ∃ free', Start n (reserved ++ bs) free' p') := by
  rcases Nat.lt_or_ge free.length k with hk | hk
  · have hshort : ∃ q, popleftN k p.freeBlockQueue = .error .popleftNShort q := by
      refine ⟨p.freeBlockQueue, ?_⟩
      have hcount := h.queue.count
      unfold popleftN
      rw [if_neg (by omega)]
      simp only [EState.bind_apply, EState.get_apply]
      rw [if_pos (by omega)]
      rfl
    obtain ⟨q, hq⟩ := hshort
    unfold Ensures onPool onQueue
    rw [hq]
    trivial
  · have hqueue := h.queue
    rw [← take_append_drop k free] at hqueue
    obtain ⟨q, hrun, hq⟩ := popleftN_holds hqueue
    rw [length_take_of_le hk] at hrun
    unfold Ensures onPool onQueue
    rw [hrun]
    refine ⟨rfl, free.drop k, ?_, hq, h.unused, h.unhashed, h.index, h.isNull, h.nullBlock,
      h.numGpuBlocks, h.pos⟩
    rw [append_assoc, take_append_drop, h.split]

structure New (g : KVCacheGroupSpec) (i : ℕ) (caching : Bool) (m : SingleTypeKVCacheManager) : Prop where
  spec : m.kvCacheSpec = g.kvCacheSpec
  group : m.kvCacheGroupId = i
  caching : m.enableCaching = caching
  tables : m.reqToBlocks = .empty
  allocated : m.allocatedBlockReqs = []

theorem New.table_eq {g i caching m} (h : New g i caching m) (id) : m.table id = [] := by
  rw [SingleTypeKVCacheManager.table, h.tables]
  rfl

theorem getManager_start (h : Start n reserved free p) (g : KVCacheGroupSpec) (i) (caching)
    (tokens len) :
    Ensures (getManagerForKvCacheSpec g.kvCacheSpec i caching tokens len) p
      (fun m p' ↦ New g i caching m ∧ p'.config = p.config ∧
        ∃ free', Start n (reserved ++ m.sinkBlocks) free' p') := by
  unfold getManagerForKvCacheSpec
  split
  · refine .ite (fun _ ↦ .throw trivial) fun _ ↦ ?_
    refine .seq (popleftN_start h) fun bs p' hp' ↦ ?_
    exact .pure ⟨⟨rfl, rfl, rfl, rfl, rfl⟩, hp'⟩
  all_goals
    refine .pure ⟨⟨rfl, rfl, rfl, rfl, rfl⟩, rfl, free, ?_⟩
    rwa [append_nil]

theorem initManagers_start {cfg i gs} (h : Start n reserved free p) :
    Ensures (KVCacheManager.initManagers cfg i gs) p (fun ms p' ↦ p'.config = p.config ∧
        (∃ free', Start n (reserved ++ ms.flatMap (·.sinkBlocks)) free' p') ∧ ms.length = gs.length ∧
        ∀ (j : ℕ) m, ms[j]? = some m → ∃ g, gs[j]? = some g ∧ New g (i + j) cfg.enableCaching m) := by
  induction gs generalizing i reserved free p with
  | nil => exact .pure ⟨rfl, ⟨free, by simpa using h⟩, rfl, by simp⟩
  | cons g gs ih =>
    refine .seq (getManager_start h g i _ _ _) ?_
    rintro m p' ⟨hm, hcfg, free', h'⟩
    refine .seq (ih h') ?_
    rintro ms p'' ⟨hcfg', hstart, hlen, hms⟩
    refine .pure ⟨hcfg'.trans hcfg, ?_, by simp [hlen], fun j m' hj ↦ ?_⟩
    · simpa [append_assoc] using hstart
    cases j with
    | zero =>
      obtain rfl : m = m' := by simpa using hj
      exact ⟨g, rfl, hm⟩
    | succ j =>
      obtain ⟨g', hg', hnew⟩ := hms j m' (by simpa using hj)
      refine ⟨g', by simpa using hg', ?_⟩
      rwa [show i + (j + 1) = i + 1 + j by omega]

end VllmEngine.Core

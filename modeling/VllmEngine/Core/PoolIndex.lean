import VllmEngine.Core.PoolFrames

namespace VllmEngine.Core.BlockPool

open Lib BlockHash BlockHashToBlockMap

structure Indexed (p : BlockPool) : Prop where
  wellFormed : p.cachedBlockHashToBlock.WellFormed
  stored : ∀ key b, p.cachedBlockHashToBlock.Stored key b ↔ p.blockHash b = some key
  pooled : ∀ b, p.blockHash b ≠ none → b ∈ p.blocks

variable {p p' : BlockPool}

theorem Indexed.congr (h : Indexed p) (hp : p'.index = p.index) : Indexed p' := by
  simp only [index, Index.mk.injEq] at hp
  obtain ⟨hn, hb, hc⟩ := hp
  have hblocks : p'.blocks = p.blocks := by simp [blocks, hn]
  exact ⟨hc ▸ h.wellFormed, by rw [hc, hb]; exact h.stored, by rw [hb, hblocks]; exact h.pooled⟩

theorem mem_blocks {r} : r ∈ p.blocks ↔ ∃ i < p.numGpuBlocks, r = .blk i := by
  simp [blocks, eq_comm]

theorem init_indexed {n size caching events ints}
    (h : init n caching size events ints = .ok p) : Indexed p := by
  unfold init at h
  split at h
  · simp at h
  split at h
  · simp at h
  · obtain rfl : _ = p := by simpa using h
    exact ⟨by simp [WellFormed], by simp [Stored], by simp⟩

section

variable (h : Indexed p)

include h

theorem Indexed.insert {b} (hb : b ∈ p.blocks) (hnone : p.blockHash b = none) (key) :
    Indexed (setIndex (p.cachedBlockHashToBlock.insert key b) (setBlockHash b (some key) p)) := by
  obtain ⟨i, -, rfl⟩ := mem_blocks.mp hb
  refine ⟨h.wellFormed.insert i, fun k r ↦ ?_, fun r hr ↦ ?_⟩
  · simp only [setIndex, setBlockHash, stored_insert h.wellFormed i r, h.stored]
    by_cases hr : r = .blk i
    · subst hr
      simp [hnone, eq_comm]
    · simp [hr]
  · by_cases hri : r = .blk i
    · exact hri ▸ hb
    · exact h.pooled r (by simpa [setIndex, setBlockHash, hri] using hr)

theorem Indexed.pop {b key} (hb : p.blockHash b = some key) :
    Indexed (setBlockHash b none (setIndex (p.cachedBlockHashToBlock.pop key b.blockId).2 p)) := by
  obtain ⟨i, -, rfl⟩ := mem_blocks.mp (h.pooled b (by simp [hb]))
  refine ⟨h.wellFormed.pop i, fun k r ↦ ?_, fun r hr ↦ ?_⟩
  · simp only [setIndex, setBlockHash, stored_pop h.wellFormed i r, h.stored]
    by_cases hr : r = .blk i
    · subst hr
      simp [hb, eq_comm]
    · simp [hr]
  · by_cases hri : r = .blk i
    · simp [setBlockHash, hri] at hr
    · exact h.pooled r (by simpa [setIndex, setBlockHash, hri] using hr)

theorem maybeEvictCachedBlock_index (b) : Succeeds (maybeEvictCachedBlock b) p
      (fun _ p' ↦ Indexed p' ∧ p'.blockHash = Function.update p.blockHash b none) := by
  refine .get_bind ?_
  cases hb : p.blockHash b with
  | none =>
    refine .pure ⟨h, ?_⟩
    rw [← hb, Function.update_eq_self]
  | some key =>
    have hpop := pop_of_stored h.wellFormed ((h.stored key b).mpr hb)
    refine .bind (.modify ?_)
    simp only [hpop]
    refine .bind (.modify (.bind (.modify (.pure ?_))))
    have hpush := fun e ↦ index_pushEvent e
      (setBlockHash b none (setIndex (p.cachedBlockHashToBlock.pop key b.blockId).2 p))
    exact ⟨(h.pop hb).congr (hpush _), congrArg Index.blockHash (hpush _)⟩

theorem claimBlock_index (hc : p.enableCaching = true) (b) : Ensures (claimBlock b) p
      (fun _ p' ↦ Indexed p' ∧ p'.blockHash = Function.update p.blockHash b none)
      (fun _ p' ↦ Indexed p') := by
  refine .get_bind ?_
  rw [if_pos hc]
  refine .bind ((maybeEvictCachedBlock_index h b).mono ?_)
  rintro _ t ⟨ht, hbt⟩
  refine .get_bind ?_
  split
  · exact .throw ht
  · exact .modify ⟨ht.congr rfl, hbt⟩

theorem claimBlocks_index {bs : List Ref} (hc : p.enableCaching = true) :
    Ensures (bs.forM claimBlock) p
      (fun _ p' ↦ Indexed p' ∧ ∀ r, p'.blockHash r = if r ∈ bs then none else p.blockHash r)
      (fun _ p' ↦ Indexed p') := by
  induction bs generalizing p with
  | nil => exact .pure ⟨h, by simp⟩
  | cons b bs ih =>
    refine .bind (((claimBlock_index h hc b).and (claimBlock_config b p)).weaken ?_
      (fun _ _ he ↦ he.1))
    rintro _ t ⟨⟨ht, hbt⟩, hcfg⟩
    refine (ih ht ((congrArg Config.enableCaching hcfg).trans hc)).mono ?_
    rintro _ u ⟨hu, hbu⟩
    refine ⟨hu, fun r ↦ ?_⟩
    rw [hbu, hbt]
    by_cases hr : r = b <;> simp [hr]

theorem getNewBlocks_index (hc : p.enableCaching = true) (n) : Ensures (getNewBlocks n) p
      (fun bs p' ↦ Indexed p' ∧ ∀ r, p'.blockHash r = if r ∈ bs then none else p.blockHash r)
      (fun _ p' ↦ Indexed p') := by
  refine .get_bind ?_
  split
  · exact .throw h
  have hpop := (onQueue_preserves index_ignoresCounts (FreeKVCacheBlockQueue.popleftN n) p).and
    (onQueue_preserves config_ignoresCounts (FreeKVCacheBlockQueue.popleftN n) p)
  refine .bind (hpop.weaken ?_ (fun _ _ he ↦ h.congr he.1.1))
  rintro bs t ⟨hidx, hcfg⟩
  refine .seq (claimBlocks_index (h.congr hidx) ((congrArg Config.enableCaching hcfg).trans hc)) ?_
  rintro _ u ⟨hu, hbu⟩
  refine .pure ⟨hu, fun r ↦ ?_⟩
  rw [hbu, show t.blockHash = p.blockHash from congrArg Index.blockHash hidx]

end

/-- What caching the blocks `bs` under the hashes `hs`, from offset `i` on, does to the hashes
carried. -/
structure Filed (hs : List BlockHash) (g i : ℕ) (bs : List Ref) (p p' : BlockPool) : Prop where
  kept : ∀ r key, p.blockHash r = some key → p'.blockHash r = some key
  frame : ∀ r, r ∉ bs → p'.blockHash r = p.blockHash r
  null : ∀ r, p.isNull r = true → p'.blockHash r = p.blockHash r
  filed : ∀ j b, bs[j]? = some b → p.isNull b = false →
    p.blockHash b = none ∧ ∃ h, hs[i + j]? = some h ∧
      p'.blockHash b = some (makeBlockHashWithGroupId h g)

theorem cacheBlock_index (h : Indexed p) {b} (hb : b ∈ p.blocks) (hs g i) :
    Ensures (cacheBlock hs g i b) p
      (fun _ p' ↦ Indexed p' ∧ Filed hs g i [b] p p') (fun _ p' ↦ Indexed p') := by
  refine .get_bind ?_
  split
  next hn =>
    refine .pure ⟨h, fun _ _ e ↦ e, fun _ _ ↦ rfl, fun _ _ ↦ rfl, ?_⟩
    rintro (_ | j) b' hj hb'
    · obtain rfl : b = b' := by simpa using hj
      simp [hn] at hb'
    · simp at hj
  next hn =>
    split
    · exact .throw h
    next hnone =>
      have hnone : p.blockHash b = none := by simpa using hnone
      split
      · exact .throw h
      next hash hhash =>
        refine .bind (.modify (.bind (.modify (.pure
          ⟨h.insert hb hnone _, fun r key hr ↦ ?_, fun r hr ↦ ?_, fun r hr ↦ ?_, ?_⟩))))
        · have hrb : r ≠ b := by
            rintro rfl
            simp [hnone] at hr
          simpa [setIndex, setBlockHash, hrb] using hr
        · have hrb : r ≠ b := by simpa using hr
          simp [setIndex, setBlockHash, hrb]
        · have hrb : r ≠ b := by
            rintro rfl
            exact hn hr
          simp [setIndex, setBlockHash, hrb]
        · rintro (_ | j) b' hj -
          · obtain rfl : b = b' := by simpa using hj
            exact ⟨hnone, hash, hhash, by simp [setIndex, setBlockHash]⟩
          · simp at hj

theorem cacheLoop_index (h : Indexed p) {bs} (hb : ∀ b ∈ bs, b ∈ p.blocks) (hs g) (i) :
    Ensures (cacheLoop hs g i bs) p
      (fun _ p' ↦ Indexed p' ∧ Filed hs g i bs p p') (fun _ p' ↦ Indexed p') := by
  induction bs generalizing p i with
  | nil => exact .pure ⟨h, fun _ _ e ↦ e, fun _ _ ↦ rfl, fun _ _ ↦ rfl, by simp⟩
  | cons b bs ih =>
    refine .bind (((cacheBlock_index h (hb b (by simp)) hs g i).and
      (cacheBlock_preserves config_ignoresHashes hs g i b p)).weaken ?_ (fun _ _ he ↦ he.1))
    rintro _ t ⟨⟨ht, hft⟩, hcfg⟩
    have hblocks : t.blocks = p.blocks := by
      rw [blocks, show t.numGpuBlocks = p.numGpuBlocks from congrArg Config.numGpuBlocks hcfg]
      rfl
    have hnull : t.isNull = p.isNull := congrArg Config.isNull hcfg
    refine .seq (ih ht (fun b' hb' ↦ hblocks ▸ hb b' (by simp [hb'])) (i + 1)) ?_
    rintro _ u ⟨hu, hfu⟩
    refine .pure ⟨hu, fun r key hr ↦ hfu.kept r key (hft.kept r key hr), fun r hr ↦ ?_,
      fun r hr ↦ ?_, ?_⟩
    · simp only [List.mem_cons, not_or] at hr
      rw [hfu.frame r hr.2, hft.frame r (by simp [hr.1])]
    · rw [hfu.null r (hnull ▸ hr), hft.null r hr]
    rintro (_ | j) b' hj hn
    · obtain ⟨hnone, hash, hhash, hset⟩ := hft.filed 0 b' hj hn
      exact ⟨hnone, hash, hhash, hfu.kept _ _ hset⟩
    obtain ⟨hnone, hash, hhash, hset⟩ := hfu.filed j b' hj (hnull ▸ hn)
    refine ⟨?_, hash, by rwa [Nat.add_right_comm] at hhash, hset⟩
    by_contra hsome
    obtain ⟨key, hkey⟩ := Option.ne_none_iff_exists'.mp hsome
    rw [hft.kept _ _ hkey] at hnone
    simp at hnone

theorem cacheFullBlocks_index (h : Indexed p) {bs} (hb : ∀ b ∈ bs, b ∈ p.blocks)
    (H r c f size g) (hcf : c < f) :
    Ensures (cacheFullBlocks H r bs c f size g) p
      (fun _ p' ↦ Indexed p' ∧ Filed ((hashList r.blockHashes p.hashBlockSize size).drop c) g 0
        ((bs.take f).drop c) p p' ∧ f ≤ r.blockHashes.length)
      (fun _ p' ↦ Indexed p') := by
  unfold cacheFullBlocks
  rw [if_neg (by omega)]
  refine .get_bind ?_
  split
  · exact .throw h
  next hlen =>
    split
    · exact .throw h
    have hmem : ∀ b ∈ (bs.take f).drop c, b ∈ p.blocks := fun b hb' ↦
      hb b (List.mem_of_mem_take (List.mem_of_mem_drop hb'))
    refine .seq (cacheLoop_index h hmem _ g 0) ?_
    rintro newHashes t ⟨ht, hft⟩
    split
    · split
      · exact .throw ht
      refine .bind ((extraKeysLoop_preserves (fun p ↦ (p.index, p.isNull)) H r bs size _ _ t).weaken
        ?_ (fun _ _ he ↦ ht.congr (congrArg Prod.fst he.1)))
      intro keys u hu
      have hhash := fun e ↦ congrArg Index.blockHash
        ((index_pushEvent e u).trans (congrArg Prod.fst hu))
      refine .modify ⟨(ht.congr (congrArg Prod.fst hu)).congr (index_pushEvent _ _),
        ⟨fun r key hr ↦ ?_, fun r hr ↦ ?_, fun r hr ↦ ?_, fun j b hj hn ↦ ?_⟩, by omega⟩
      · exact (congrFun (hhash _) r).trans (hft.kept r key hr)
      · exact (congrFun (hhash _) r).trans (hft.frame r hr)
      · exact (congrFun (hhash _) r).trans (hft.null r hr)
      · obtain ⟨hnone, hash, hhash', hset⟩ := hft.filed j b hj hn
        exact ⟨hnone, hash, hhash', (congrFun (hhash _) b).trans hset⟩
    · exact .pure ⟨ht, hft, by omega⟩

theorem evictBlocks_index (h : Indexed p) (ids) :
    Ensures (evictBlocks ids) p (fun _ p' ↦ Indexed p') (fun _ p' ↦ Indexed p') := by
  refine .forM (fun _ p ↦ Indexed p) (fun id _ t ht ↦ .get_bind ?_) ids h
  split
  · exact .throw ht
  split
  · exact .throw ht
  · exact .seq (maybeEvictCachedBlock_index ht _) (fun _ _ hu ↦ .pure hu.1)

theorem resetHashes_eq (bs : List Ref) : (bs.forM resetHash) p =
    .ok ⟨⟩ { p with blockHash := fun r ↦ if r ∈ bs then none else p.blockHash r } := by
  induction bs generalizing p with
  | nil => simp
  | cons b bs ih =>
    change (bs.forM resetHash) (setBlockHash b none p) = _
    rw [ih]
    congr 1
    simp only [setBlockHash, mk.injEq, true_and, and_true]
    funext r
    by_cases hr : r = b <;> simp [hr]

theorem resetPrefixCache_index (h : Indexed p) :
    Ensures resetPrefixCache p (fun _ p' ↦ Indexed p') (fun _ p' ↦ Indexed p') := by
  refine .get_bind ?_
  split
  · exact .pure h
  refine .bind (.modify (.bind (.of_ok (resetHashes_eq _) ?_)))
  refine .bind (.modify (.pure (Indexed.congr ?_ (index_pushEvent _ _))))
  have hnone : ∀ r, (if r ∈ p.blocks then none else p.blockHash r) = none := by
    intro r
    split
    · rfl
    next hr => exact not_not.mp fun hne ↦ hr (h.pooled r hne)
  exact ⟨by simp [setIndex, WellFormed], by simp [setIndex, Stored, hnone], by simp [setIndex, hnone]⟩

end VllmEngine.Core.BlockPool

import VllmEngine.Core.PoolIndex
import VllmEngine.Core.HybridGroups
import Mathlib.Data.List.Dedup

namespace VllmEngine.Core

open Lib BlockHash List

namespace BlockPool

theorem getCachedBlock_isSome (p : BlockPool) (h : BlockHash) (gids) :
    (p.getCachedBlock h gids).isSome ↔ ∀ gid ∈ gids,
      (p.cachedBlockHashToBlock.getOneBlock (makeBlockHashWithGroupId h gid)).isSome := by
  unfold getCachedBlock
  induction gids with
  | nil => simp
  | cons gid gids ih =>
    rw [mapM_cons]
    cases hg : p.cachedBlockHashToBlock.getOneBlock (makeBlockHashWithGroupId h gid) with
    | none => simp [hg]
    | some b =>
      simp only [mem_cons, forall_eq_or_imp, hg, Option.isSome_some, true_and, ← ih]
      cases gids.mapM fun gid ↦
        p.cachedBlockHashToBlock.getOneBlock (makeBlockHashWithGroupId h gid) <;> simp

def holding (hashBlockSize : ℕ) (keys : List BlockHashWithGroupId) (hk : keys.Nodup) :
    BlockPool where
  numGpuBlocks := keys.length + 1
  enableCaching := true
  hashBlockSize := hashBlockSize
  enableKvCacheEvents := false
  useIntBlockHashes := false
  freeBlockQueue := after FreeKVCacheBlockQueue.popleft (.init (keys.length + 1))
  refCnt := fun _ ↦ 0
  blockHash
    | .blk (i + 1) => keys[i]?
    | _ => none
  isNull := fun r ↦ decide (r = .blk 0)
  nullBlock := .blk 0
  cachedBlockHashToBlock :=
    ⟨keys.zipIdx.map fun e ↦ (e.1, .single (.blk (e.2 + 1))), by simpa [Function.comp_def] using hk⟩
  kvEventQueue := []

variable {keys : List BlockHashWithGroupId}

theorem holding_get? {size hk key v} :
    (holding size keys hk).cachedBlockHashToBlock.get? key = some v ↔
      ∃ i, keys[i]? = some key ∧ v = .single (.blk (i + 1)) := by
  rw [Dict.get?_eq_some]
  simp only [holding, mem_map, Prod.mk.injEq]
  constructor
  · rintro ⟨e, he, rfl, rfl⟩
    exact ⟨e.2, mem_zipIdx_iff_getElem?.mp he, rfl⟩
  · rintro ⟨i, hi, rfl⟩
    exact ⟨(key, i), mem_zipIdx_iff_getElem?.mpr hi, rfl, rfl⟩

theorem holding_indexed (size) (hk : keys.Nodup) : Indexed (holding size keys hk) where
  wellFormed key c hc := by
    obtain ⟨i, -, rfl⟩ := holding_get?.mp hc
    exact CachedBlocks.wellFormed_single (i + 1)
  stored key b := by
    constructor
    · rintro ⟨c, hc, hb⟩
      obtain ⟨i, hi, rfl⟩ := holding_get?.mp hc
      obtain rfl : Ref.blk (i + 1) = b := hb
      exact hi
    · intro hb
      match b, hb with
      | .blk (i + 1), hb => exact ⟨_, holding_get?.mpr ⟨i, hb, rfl⟩, rfl⟩
  pooled b hb := by
    match b, hb with
    | .blk (i + 1), hb =>
      have hi : i < keys.length := by simpa [holding] using hb
      exact mem_blocks.mpr ⟨i + 1, by simpa [holding] using hi, rfl⟩

theorem holding_getOneBlock (size) (hk : keys.Nodup) (key) :
    ((holding size keys hk).cachedBlockHashToBlock.getOneBlock key).isSome ↔ key ∈ keys := by
  have hidx := holding_indexed size hk
  rw [BlockHashToBlockMap.getOneBlock_isSome hidx.wellFormed]
  simp only [hidx.stored]
  constructor
  · rintro ⟨b, hb⟩
    match b, hb with
    | .blk (i + 1), hb => exact mem_of_getElem? hb
  · intro hm
    obtain ⟨i, hi⟩ := mem_iff_getElem?.mp hm
    exact ⟨.blk (i + 1), hi⟩

end BlockPool

def unaryHashes (n : ℕ) : List BlockHash := (range n).map fun j ↦ replicate j 0

def unaryRun (scale i : ℕ) : BlockHash :=
  ((range' (i * scale) scale).map fun j ↦ replicate j (0 : UInt8)).flatten

theorem unaryRun_length (scale i) :
    (unaryRun scale i).length = (range' (i * scale) scale).sum := by
  simp [unaryRun, length_flatten, Function.comp_def]

variable {n : ℕ}

theorem sum_range'_lt {a b} (hab : a < b) (hn : 0 < n) : (range' a n).sum < (range' b n).sum := by
  induction n generalizing a b with
  | zero => omega
  | succ n ih =>
    rw [range'_succ, range'_succ, sum_cons, sum_cons]
    rcases eq_zero_or_pos n with rfl | hn
    · simpa using hab
    · have := ih (a := a + 1) (b := b + 1) (by omega) hn
      omega

theorem unaryRun_inj {scale i j} (hs : 0 < scale) (h : unaryRun scale i = unaryRun scale j) :
    i = j := by
  have hlen := congrArg length h
  rw [unaryRun_length, unaryRun_length] at hlen
  rcases lt_trichotomy i j with hij | hij | hij
  · have := sum_range'_lt (mul_lt_mul_of_pos_right hij hs) hs
    omega
  · exact hij
  · have := sum_range'_lt (mul_lt_mul_of_pos_right hij hs) hs
    omega

theorem getValueAt_unary {scale i} (h : (i + 1) * scale ≤ n) :
    getValueAt (unaryHashes n) scale i = unaryRun scale i := by
  have hle : i * scale + scale ≤ n := by rwa [add_mul, one_mul] at h
  have hrange : ((range n).drop (i * scale)).take scale = range' (i * scale) scale := by
    rw [range_eq_range', drop_range', take_range'_of_length_ge (by omega)]
    simp
  rw [getValueAt, unaryHashes, ← map_drop, ← map_take, hrange, unaryRun]

theorem hashAt_unary {size blockSize i} (hsize : 0 < size) (hdvd : size ∣ blockSize)
    (hpos : 0 < blockSize) (hi : (i + 1) * blockSize ≤ n * size) :
    hashAt (unaryHashes n) size blockSize i = some (unaryRun (blockSize / size) i) := by
  obtain ⟨scale, rfl⟩ := hdvd
  have hle : (i + 1) * scale ≤ n := by
    refine le_of_mul_le_mul_left ?_ hsize
    calc size * ((i + 1) * scale) = (i + 1) * (size * scale) := by ring
      _ ≤ n * size := hi
      _ = size * n := Nat.mul_comm _ _
  rw [Nat.mul_div_cancel_left _ hsize, hashAt]
  split
  next hone =>
    obtain rfl : scale = 1 := Nat.eq_of_mul_eq_mul_left hsize (by omega)
    rw [Nat.mul_one] at hle
    simp [unaryHashes, unaryRun, Nat.lt_of_succ_le hle]
  · rw [Nat.mul_div_cancel_left _ hsize, getValueAt_unary hle]

theorem hashList_unary {size blockSize} (hsize : 0 < size) (hdvd : size ∣ blockSize)
    (hpos : 0 < blockSize) :
    hashList (unaryHashes n) size blockSize =
      (range (n * size / blockSize)).map (unaryRun (blockSize / size)) := by
  obtain ⟨scale, rfl⟩ := hdvd
  have hscale : 0 < scale := Nat.pos_of_mul_pos_left hpos
  rw [Nat.mul_div_cancel_left _ hsize, Nat.mul_comm n, Nat.mul_div_mul_left _ _ hsize, hashList]
  split
  next hone =>
    obtain rfl : scale = 1 := Nat.eq_of_mul_eq_mul_left hsize (by omega)
    simp [unaryHashes, unaryRun]
  · rw [Nat.mul_div_cancel_left _ hsize, withBlockSize, unaryHashes, length_map, length_range]
    refine map_congr_left fun i hi ↦ getValueAt_unary ?_
    have := (Nat.le_div_iff_mul_le hscale).mp (Nat.succ_le_of_lt (mem_range.mp hi))
    exact this

namespace HybridKVCacheCoordinator

open Hybrid CacheHit

variable (c : HybridKVCacheCoordinator)

def contentKeys (n : ℕ) (pattern : AttentionGroup → ℕ → Bool) : List BlockHashWithGroupId :=
  c.attentionGroups.flatMap fun g ↦
    ((range (n * c.hashBlockSize / g.spec.blockSize)).filter (pattern g)).flatMap fun i ↦
      g.groupIds.map (makeBlockHashWithGroupId (unaryRun (g.spec.blockSize / c.hashBlockSize) i))

def content (n : ℕ) (pattern : AttentionGroup → ℕ → Bool) : BlockPool :=
  .holding c.hashBlockSize (c.contentKeys n pattern).dedup (nodup_dedup _)

variable {c}

theorem eq_of_mem_ids {g g' gid} (hg : g ∈ c.attentionGroups)
    (hg' : g' ∈ c.attentionGroups) (h : gid ∈ g.groupIds) (h' : gid ∈ g'.groupIds) : g = g' := by
  obtain ⟨l1, l2, hsplit⟩ := append_of_mem hg
  have hnodup := c.ids_nodup
  rw [hsplit] at hg' hnodup
  by_contra hne
  have hside : g' ∈ l1 ∨ g' ∈ l2 := by simpa [Ne.symm hne] using hg'
  exact not_mem_of_nodup l1 hnodup hside h' h

theorem content_cached {n pattern g}
    (hg : g ∈ c.attentionGroups) {i} (hi : i < n * c.hashBlockSize / g.spec.blockSize) :
    ((c.content n pattern).getCachedBlock
      (unaryRun (g.spec.blockSize / c.hashBlockSize) i) g.groupIds).isSome = pattern g i := by
  have hfits : ∀ g ∈ c.attentionGroups, ∀ gid ∈ g.groupIds, gid < 2 ^ 32 := fun g hg gid hgid ↦
    ((mem_ids c).mp (mem_flatMap.mpr ⟨g, hg, hgid⟩)).trans c.group_ids_fit
  have hscale : 0 < g.spec.blockSize / c.hashBlockSize :=
    Nat.div_pos (Nat.le_of_dvd (blockSize_pos' hg) (hashBlockSize_dvd hg)) c.hashBlockSize_pos
  rw [Bool.eq_iff_iff, BlockPool.getCachedBlock_isSome]
  simp only [content, BlockPool.holding_getOneBlock, mem_dedup, contentKeys, mem_flatMap,
    mem_filter, mem_range, mem_map]
  constructor
  · intro h
    obtain ⟨gid, hgid⟩ := exists_mem_of_ne_nil _ (lists hg).nonempty
    obtain ⟨g', hg', j, ⟨-, hj⟩, gid', hgid', hkey⟩ := h gid hgid
    obtain ⟨hrun, rfl⟩ := make_inj (hfits g' hg' _ hgid') (hfits g hg _ hgid) hkey
    obtain rfl := eq_of_mem_ids hg hg' hgid hgid'
    rwa [unaryRun_inj hscale hrun] at hj
  · intro h gid hgid
    exact ⟨g, hg, i, ⟨hi, h⟩, gid, hgid, rfl⟩

end HybridKVCacheCoordinator

end VllmEngine.Core

import VllmEngine.Core.HitSources
import VllmEngine.Core.PoolRule
import VllmEngine.Core.TableShapes

namespace VllmEngine.Core

open Lib BlockHash List BlockPool SingleTypeKVCacheManager

namespace CacheHit.Query

variable {q : Query} {rows : List Row} {row : Row} {i j n : ℕ}

def Cached (q : Query) (i : ℕ) : Prop := ∃ row, q.cachedAt i = .ok (some row)

def HitAt (q : Query) (rows : List Row) (i : ℕ) : Prop :=
  ∃ row, rows[i]? = some row ∧ q.cachedAt i = .ok (some row)

theorem cachedAt_of_hashAt {x}
    (hx : hashAt q.blockHashes q.pool.hashBlockSize q.blockSize i = some x) :
    q.cachedAt i = .ok (q.pool.getCachedBlock x q.kvCacheGroupIds) := by
  rw [cachedAt, hx]

theorem HitAt.cached (h : q.HitAt rows i) : q.Cached i := by
  obtain ⟨row, -, hrow⟩ := h
  exact ⟨row, hrow⟩

theorem HitAt.take (h : q.HitAt rows i) (hi : i < n) : q.HitAt (rows.take n) i := by
  obtain ⟨row, hget, hrow⟩ := h
  exact ⟨row, by rw [getElem?_take, if_pos hi, hget], hrow⟩

theorem HitAt.set_self (hi : i < rows.length) (h : q.cachedAt i = .ok (some row)) :
    q.HitAt (rows.set i row) i :=
  ⟨row, getElem?_set_self hi, h⟩

theorem HitAt.set_of_ne (h : q.HitAt rows j) (hne : i ≠ j) : q.HitAt (rows.set i row) j := by
  obtain ⟨row', hget, hrow⟩ := h
  exact ⟨row', by rw [getElem?_set_ne hne, hget], hrow⟩

section

def EndsAt (q : Query) (t : ℕ) : Prop := ¬ q.misaligned (q.postPopBlocks t)

def Broken (q : Query) (needed t : ℕ) : Prop := ∃ j ≤ t, t < j + max needed 1 ∧ ¬ q.Cached j

/-- The scan of a sliding window, with block `i - 1` next and in a run of `n` hits. -/
structure Scanned (q : Query) (needed i n : ℕ) (computed : List Row) : Prop where
  length : computed.length = q.maxNumBlocks
  le : i + n ≤ q.maxNumBlocks
  run : ∀ j, i ≤ j → j < i + n → q.HitAt computed j
  top : 0 < n → q.EndsAt (i + n - 1)
  short : 0 < n → n < needed
  above : ∀ t, i + n ≤ t → t < q.maxNumBlocks → q.EndsAt t → q.Broken needed t

/-- The scan has stopped: the run of hits up to block `t` is long enough, and none up to a later
block is. -/
structure Matched (q : Query) (needed t : ℕ) (computed : List Row) : Prop where
  length : computed.length = t + 1
  lt : t < q.maxNumBlocks
  run : ∀ j, j ≤ t → t < j + max needed 1 → q.HitAt computed j
  long : needed ≤ t + 1
  top : q.EndsAt t
  above : ∀ t', t < t' → t' < q.maxNumBlocks → q.EndsAt t' → q.Broken needed t'

variable {needed : ℕ} {computed : List Row}

theorem Scanned.miss (h : q.Scanned needed (i + 1) n computed) (hmiss : ¬ q.Cached i) :
    q.Scanned needed i 0 computed where
  length := h.length
  le := by have := h.le; omega
  run j hij hj := by omega
  top hn := absurd hn (lt_irrefl 0)
  short hn := absurd hn (lt_irrefl 0)
  above t hit ht hend := by
    rcases Nat.lt_or_ge t (i + 1 + n) with hlt | hge
    · refine ⟨i, hit, ?_, hmiss⟩
      rcases Nat.eq_zero_or_pos n with hn | hn
      · omega
      · have := h.short hn
        omega
    · exact h.above t hge ht hend

theorem Scanned.skip (h : q.Scanned needed (i + 1) 0 computed) (hend : ¬ q.EndsAt i) :
    q.Scanned needed i 0 computed where
  length := h.length
  le := by have := h.le; omega
  run j hij hj := by omega
  top hn := absurd hn (lt_irrefl 0)
  short hn := absurd hn (lt_irrefl 0)
  above t hit ht htend := by
    rcases Nat.eq_or_lt_of_le hit with heq | hlt
    · obtain rfl : i = t := heq
      exact absurd htend hend
    · exact h.above t hlt ht htend

section

variable (h : q.Scanned needed (i + 1) n computed)

include h

theorem Scanned.extend
    (hrow : q.cachedAt i = .ok (some row)) {j} (hij : i ≤ j) (hj : j < i + (n + 1)) :
    q.HitAt (computed.set i row) j := by
  rcases Nat.eq_or_lt_of_le hij with heq | hlt
  · subst heq
    apply HitAt.set_self _ hrow
    rw [h.length]
    have := h.le
    omega
  · exact (h.run j hlt (by omega)).set_of_ne hlt.ne

theorem Scanned.top_extend (hstart : n = 0 → q.EndsAt i) : q.EndsAt (i + n) := by
  rcases Nat.eq_zero_or_pos n with hn | hn
  · rw [hn]
    exact hstart hn
  · have := h.top hn
    rwa [show i + 1 + n - 1 = i + n by omega] at this

section

variable (hrow : q.cachedAt i = .ok (some row)) (hstart : n = 0 → q.EndsAt i)

include hrow hstart

theorem Scanned.hit (hneed : n + 1 < needed) : q.Scanned needed i (n + 1) (computed.set i row) where
  length := by rw [length_set, h.length]
  le := by have := h.le; omega
  run j hij hj := h.extend hrow hij hj
  top _ := h.top_extend hstart
  short _ := hneed
  above t hit ht hend := h.above t (by omega) ht hend

theorem Scanned.matched (hneed : n + 1 ≥ needed) :
    q.Matched needed (i + n) ((computed.set i row).take (i + (n + 1))) where
  length := by
    rw [length_take, length_set, h.length]
    have := h.le
    omega
  lt := by have := h.le; omega
  run j hj hneeded := (h.extend hrow (by omega) (by omega)).take (by omega)
  long := by omega
  top := h.top_extend hstart
  above t ht hmax hend := h.above t (by omega) hmax hend

end

end

theorem slidingLoop_scanned {m out found} (hs : q.Scanned needed i n computed)
    (h : q.slidingLoop needed i n computed = .ok (out, m, found)) :
    (found = true ∧ ∃ t, q.Matched needed t out) ∨ (found = false ∧ q.Scanned needed 0 m out) := by
  induction i generalizing n computed with
  | zero =>
    obtain ⟨rfl, rfl, rfl⟩ := h
    exact .inr ⟨rfl, hs⟩
  | succ i ih =>
    unfold slidingLoop at h
    split at h
    · cases h
    next hmiss =>
      refine ih (hs.miss ?_) h
      intro hcached
      obtain ⟨row, hrow⟩ := hcached
      rw [hmiss] at hrow
      cases hrow
    next row hrow =>
      split at h
      next hskip =>
        obtain ⟨rfl, hmis⟩ := hskip
        exact ih (hs.skip (not_not.mpr hmis)) h
      next hskip =>
        have hstart : n = 0 → q.EndsAt i := fun hn hmis ↦ hskip ⟨hn, hmis⟩
        split at h
        next hneed =>
          cases h
          exact .inl ⟨rfl, _, hs.matched hrow hstart hneed⟩
        next hneed => exact ih (hs.hit hrow hstart (Nat.lt_of_not_ge hneed)) h

end

section

variable {window : ℕ}

/-- The number of contiguous hits that the lookup of a sliding window asks for. -/
def neededBlocks (q : Query) (window : ℕ) : ℕ :=
  cdiv (window - 1) q.blockSize + if q.useEagle then 1 else 0

def shortHit (q : Query) (m : ℕ) : ℕ :=
  if q.useEagle then q.alignLoop (q.alignLoop m - 1) else q.alignLoop m

theorem shortHit_le (m) : q.shortHit m ≤ m := by
  have hm := alignLoop_le (q := q) m
  have hpop := alignLoop_le (q := q) (q.alignLoop m - 1)
  unfold shortHit
  split <;> omega

theorem aligned_take (h : n ≤ rows.length) : q.aligned (rows.take n) = rows.take (q.alignLoop n) := by
  rw [aligned, length_take, min_eq_left h, take_take, min_eq_left (alignLoop_le n)]

variable {computed : List Row} {needed : ℕ}

theorem Matched.rows_eq {t} (h : q.Matched needed t computed) :
    (if q.useEagle then q.aligned computed.dropLast else computed) =
      computed.take (q.postPopBlocks t) := by
  have hend := h.top
  unfold EndsAt postPopBlocks at *
  split
  next he =>
    rw [if_pos he] at hend
    rw [dropLast_eq_take, h.length, Nat.add_sub_cancel, aligned_take (by rw [h.length]; omega),
      alignLoop_of_aligned hend]
  next he => rw [← h.length, take_length]

theorem Scanned.rows_eq {m} (h : q.Scanned needed 0 m computed) :
    (if q.useEagle then q.aligned (q.aligned (computed.take m)).dropLast
      else q.aligned (computed.take m)) = computed.take (q.shortHit m) := by
  have hle : m ≤ computed.length := by
    have := h.le
    rw [h.length]
    omega
  have hal := alignLoop_le (q := q) m
  have hlen : (computed.take (q.alignLoop m)).length = q.alignLoop m := by
    rw [length_take, min_eq_left (hal.trans hle)]
  unfold shortHit
  split
  · rw [aligned_take hle, dropLast_eq_take, hlen, take_take,
      min_eq_left (Nat.sub_le _ _), aligned_take (by omega)]
  · exact aligned_take hle

theorem slidingWindow_cases (h : q.slidingWindow window = .ok rows) : ∃ computed,
    (∃ t, q.Matched (q.neededBlocks window) t computed ∧ rows = computed.take (q.postPopBlocks t)) ∨
      ∃ m, q.Scanned (q.neededBlocks window) 0 m computed ∧ rows = computed.take (q.shortHit m) := by
  have hstart : q.Scanned (q.neededBlocks window) q.maxNumBlocks 0
      (replicate q.maxNumBlocks q.nullRow) :=
    ⟨length_replicate, le_rfl, by omega, by omega, by omega, by omega⟩
  unfold slidingWindow at h
  dsimp only at h
  split at h
  · cases h
  next computed m found hloop =>
    refine ⟨computed, ?_⟩
    rw [← Except.ok.inj h]
    rcases slidingLoop_scanned hstart hloop with ⟨rfl, t, ht⟩ | ⟨rfl, hm⟩
    · exact .inl ⟨t, ht, ht.rows_eq⟩
    · exact .inr ⟨m, hm, hm.rows_eq⟩

theorem Matched.length_eq {t} (h : q.Matched needed t computed) :
    (computed.take (q.postPopBlocks t)).length = q.postPopBlocks t := by
  rw [length_take, h.length, min_eq_left]
  unfold postPopBlocks
  split <;> omega

theorem Scanned.length_eq {m} (h : q.Scanned needed 0 m computed) :
    (computed.take (q.shortHit m)).length = q.shortHit m := by
  have hle := h.le
  have hshort := shortHit_le (q := q) m
  rw [length_take, h.length, min_eq_left (by omega)]

theorem window_reaches {size l window} (hi : (l * size + 1 - window) / size ≤ i) (hl : i < l)
    (hsize : 0 < size) : l ≤ i + cdiv (window - 1) size := by
  have hlt : l * size + 1 - window < (i + 1) * size :=
    (Nat.div_lt_iff_lt_mul hsize).mp (Nat.lt_succ_of_le hi)
  have hcover : l * size < (i + 1) * size + (window - 1) := by
    omega
  obtain ⟨k, rfl⟩ : ∃ k, l = i + 1 + k := ⟨l - (i + 1), by omega⟩
  have hk : k < cdiv (window - 1) size := by
    by_contra hge
    have := (cdiv_le_iff hsize).mp (Nat.not_lt.mp hge)
    rw [Nat.add_mul] at hcover
    omega
  omega

theorem slidingWindow_hitAt (hpos : 0 < q.blockSize) (h : q.slidingWindow window = .ok rows)
    (hi : (rows.length * q.blockSize + 1 - window) / q.blockSize ≤ i) (hlt : i < rows.length) :
    q.HitAt rows i := by
  have hreach := window_reaches hi hlt hpos
  obtain ⟨computed, ⟨t, ht, rfl⟩ | ⟨m, hm, rfl⟩⟩ := slidingWindow_cases h
  · rw [ht.length_eq] at hreach hlt
    refine (ht.run i ?_ ?_).take hlt
    · unfold postPopBlocks at hlt
      split at hlt <;> omega
    unfold neededBlocks
    unfold postPopBlocks at hreach
    split at hreach
    next he =>
      rw [if_pos he]
      omega
    next he =>
      rw [if_neg he]
      omega
  · rw [hm.length_eq] at hlt
    have hle := shortHit_le (q := q) m
    exact (hm.run i (Nat.zero_le _) (by omega)).take hlt

theorem fullAttention_hitAt (hlt : i < q.fullAttention.length) : q.HitAt q.fullAttention i := by
  obtain ⟨row, hrow⟩ : ∃ row, q.fullAttention[i]? = some row := ⟨_, getElem?_eq_getElem hlt⟩
  have hloop : q.fullRows[i]? = some row := by
    unfold fullAttention aligned at hrow
    rw [getElem?_take_of_lt] at hrow
    · split at hrow
      · rw [getElem?_dropLast] at hrow
        split at hrow
        · exact hrow
        · cases hrow
      · exact hrow
    · rw [← aligned_length]
      exact hlt
  obtain ⟨x, hx, hget⟩ := fullLoop_sourced _ hloop
  have hlist : (hashList q.blockHashes q.pool.hashBlockSize q.blockSize)[i]? = some x := by
    rw [getElem?_take] at hx
    split at hx
    · exact hx
    · cases hx
  exact ⟨row, hrow, (cachedAt_of_hashAt (hashAt_of_hashList hlist)).trans (congrArg _ hget)⟩

theorem mambaLoop_hitAt (h : q.mambaLoop n = .ok rows) (hi : i + 1 = rows.length) :
    q.HitAt rows i := by
  induction n with
  | zero =>
    cases h
    simp at hi
  | succ n ih =>
    unfold mambaLoop at h
    split at h
    · cases h
    · exact ih h
    next row hrow =>
      split at h
      · exact ih h
      · cases h
        obtain rfl : i = n := by simpa using hi
        exact ⟨row, by simp, hrow⟩

theorem findLongestCacheHit_hitAt {m : SingleTypeKVCacheManager} (hk : m.kind.Searchable)
    (hsize : q.blockSize = m.blockSize) (hpos : 0 < m.blockSize)
    (h : q.findLongestCacheHit m.kind = .ok rows)
    (hi : m.getNumSkippedTokens (rows.length * m.blockSize) / m.blockSize ≤ i)
    (hlt : i < rows.length) : q.HitAt rows i := by
  unfold getNumSkippedTokens at hi
  cases hkind : m.kind with
  | fullAttention | sinkFullAttention =>
    rw [hkind] at h
    cases h
    exact fullAttention_hitAt hlt
  | slidingWindow window =>
    rw [hkind] at h hi
    rw [← hsize] at hi hpos
    exact slidingWindow_hitAt hpos h hi hlt
  | mamba mode spec =>
    rw [hkind] at h hi
    refine mambaLoop_hitAt h (le_antisymm hlt ?_)
    have hlast : rows.length * m.blockSize - 1 < (i + 1) * m.blockSize :=
      (Nat.div_lt_iff_lt_mul hpos).mp (Nat.lt_succ_of_le hi)
    exact Nat.le_of_mul_le_mul_right (by omega) hpos
  | chunkedLocalAttention chunkSize =>
    rw [hkind] at hk
    exact hk.elim
  | crossAttention =>
    rw [hkind] at hk
    exact hk.elim

end

section

theorem chunkedLoop_cons {n} (hrow : q.cachedAt i = .ok (some row))
    (h : q.chunkedLoop (n + 1) i = .ok rows) :
    ∃ rest, q.chunkedLoop n (i + 1) = .ok rest ∧ rows = row :: rest := by
  rw [chunkedLoop, hrow] at h
  cases hrest : q.chunkedLoop n (i + 1) with
  | error e => simp [hrest, Except.map] at h
  | ok rest => exact ⟨rest, rfl, by simpa [hrest, Except.map] using h.symm⟩

theorem chunkedLoop_rows (h : q.chunkedLoop n i = .ok rows) {j} (hj : rows[j]? = some row) :
    q.cachedAt (i + j) = .ok (some row) := by
  induction n generalizing i j rows with
  | zero =>
    cases h
    cases hj
  | succ n ih =>
    cases hcached : q.cachedAt i with
    | error e =>
      rw [chunkedLoop, hcached] at h
      cases h
    | ok found =>
      cases found with
      | none =>
        rw [chunkedLoop, hcached] at h
        cases h
        cases hj
      | some first =>
        obtain ⟨rest, hrest, rfl⟩ := chunkedLoop_cons hcached h
        cases j with
        | zero =>
          obtain rfl : first = row := by simpa using hj
          exact hcached
        | succ j =>
          have := ih hrest (by simpa using hj)
          rwa [Nat.add_assoc, Nat.add_comm 1 j] at this

theorem chunkedLoop_ne_nil (h : q.chunkedLoop n i = .ok rows) : rows ≠ [] ↔ 0 < n ∧ q.Cached i := by
  cases n with
  | zero =>
    cases h
    simp
  | succ n =>
    constructor
    · intro hne
      obtain ⟨row, rest, rfl⟩ := exists_cons_of_ne_nil hne
      exact ⟨n.succ_pos, row, chunkedLoop_rows h (j := 0) rfl⟩
    · rintro ⟨-, row, hrow⟩
      obtain ⟨rest, -, rfl⟩ := chunkedLoop_cons hrow h
      exact cons_ne_nil _ _

def chunkStart (q : Query) (chunkSize : ℕ) : ℕ :=
  q.maxLength / chunkSize * chunkSize / q.blockSize

theorem chunkedLocalAttention_eq {chunkSize} (h : q.chunkedLocalAttention chunkSize = .ok rows) :
    ∃ hits, q.chunkedLoop (q.maxNumBlocks - q.chunkStart chunkSize) (q.chunkStart chunkSize) =
        .ok hits ∧ rows = replicate (q.chunkStart chunkSize) q.nullRow ++ hits := by
  unfold chunkedLocalAttention at h
  split at h
  · cases h
  split at h
  · cases h
  change (q.chunkedLoop (q.maxNumBlocks - q.chunkStart chunkSize) (q.chunkStart chunkSize)).map
    (replicate (q.chunkStart chunkSize) q.nullRow ++ ·) = .ok rows at h
  cases hhits : q.chunkedLoop (q.maxNumBlocks - q.chunkStart chunkSize) (q.chunkStart chunkSize) with
  | error e => simp [hhits, Except.map] at h
  | ok hits => exact ⟨hits, rfl, by simpa [hhits, Except.map] using h.symm⟩

theorem chunkStart_of_reach {chunkSize l} (hreach : q.chunkStart chunkSize < l)
    (hl : l ≤ q.maxNumBlocks) :
    l * q.blockSize / chunkSize * chunkSize / q.blockSize = q.chunkStart chunkSize := by
  have hpos : 0 < q.blockSize := by
    rcases Nat.eq_zero_or_pos q.blockSize with hz | hz
    · simp only [maxNumBlocks, hz, Nat.div_zero] at hl
      omega
    · exact hz
  have hmax : l * q.blockSize ≤ q.maxLength := (Nat.le_div_iff_mul_le hpos).mp hl
  have hbound : q.maxLength / chunkSize * chunkSize ≤ l * q.blockSize :=
    ((Nat.div_lt_iff_lt_mul hpos).mp hreach).le
  have hsame : l * q.blockSize / chunkSize = q.maxLength / chunkSize := by
    rcases Nat.eq_zero_or_pos chunkSize with hz | hz
    · rw [hz, Nat.div_zero, Nat.div_zero]
    · exact le_antisymm (Nat.div_le_div_right hmax) ((Nat.le_div_iff_mul_le hz).mpr hbound)
  rw [hsame, chunkStart]

end

end CacheHit.Query

open CacheHit CacheHit.Query HybridKVCacheCoordinator

/-- Each block of the hit that is not skipped after it is, for each group, cached under the hash of
its index. -/
def HoldsUnskipped (m : SingleTypeKVCacheManager) (q : Query) (rows : List Row) : Prop :=
  ∀ i, m.getNumSkippedTokens (rows.length * m.blockSize) / m.blockSize ≤ i → i < rows.length →
    ∀ j gid, q.kvCacheGroupIds[j]? = some gid →
      ∃ b, (column j q.pool.nullBlock rows)[i]? = some b ∧ b ≠ q.pool.nullBlock ∧
        ∃ x, hashAt q.blockHashes q.pool.hashBlockSize q.blockSize i = some x ∧
          q.pool.cachedBlockHashToBlock.getOneBlock (makeBlockHashWithGroupId x gid) = some b

variable {m : SingleTypeKVCacheManager} {q : Query} {rows : List Row}

theorem CacheHit.Query.HitAt.block {i j gid} (h : q.HitAt rows i) (hidx : q.pool.Indexed)
    (hnull : q.pool.blockHash q.pool.nullBlock = none) (hj : q.kvCacheGroupIds[j]? = some gid) :
    ∃ b, (column j q.pool.nullBlock rows)[i]? = some b ∧ b ≠ q.pool.nullBlock ∧
      ∃ x, hashAt q.blockHashes q.pool.hashBlockSize q.blockSize i = some x ∧
        q.pool.cachedBlockHashToBlock.getOneBlock (makeBlockHashWithGroupId x gid) = some b := by
  obtain ⟨row, hrow, hcached⟩ := h
  obtain ⟨x, hx, hget⟩ : ∃ x, hashAt q.blockHashes q.pool.hashBlockSize q.blockSize i = some x ∧
      q.pool.getCachedBlock x q.kvCacheGroupIds = some row := by
    unfold cachedAt at hcached
    split at hcached
    · cases hcached
    next x hx => exact ⟨x, hx, Except.ok.inj hcached⟩
  obtain ⟨b, hb, hone⟩ := getCachedBlock_get hget hj
  refine ⟨b, ?_, ?_, x, hx, hone⟩
  · rw [column, getElem?_map, hrow, Option.map_some, getD_eq_getElem?_getD, hb, Option.getD_some]
  intro heq
  have hhash := (hidx.stored _ b).mp (BlockHashToBlockMap.stored_of_getOneBlock hone)
  rw [heq, hnull] at hhash
  cases hhash

/-- A lookup for full attention, a sliding window or Mamba counts no block as computed that the next
token needs and the cache lacks. -/
theorem hit_holds_unskipped_blocks (hk : m.kind.Searchable) (hsize : q.blockSize = m.blockSize)
    (hpos : 0 < m.blockSize) (hidx : q.pool.Indexed)
    (hnull : q.pool.blockHash q.pool.nullBlock = none)
    (h : q.findLongestCacheHit m.kind = .ok rows) : HoldsUnskipped m q rows := by
  intro i hi hlt j gid hj
  exact (findLongestCacheHit_hitAt hk hsize hpos h hi hlt).block hidx hnull hj

def windowOps : List PoolOp :=
  let request : Request :=
    { requestId := "r", allTokenIds := replicate 7 5, blockHashes := [[1], [2], [3]] }
  [.getNewBlocks 2, .cacheFullBlocks request [.blk 0, .blk 1, .blk 2] 0 3 2 0]

def windowManager : SingleTypeKVCacheManager where
  kvCacheSpec := ⟨.slidingWindow 5, 2, 0⟩
  kvCacheGroupId := 0
  enableCaching := true

def windowQuery (p : BlockPool) : Query where
  pool := p
  blockHashes := [[1], [2], [3]]
  kvCacheGroupIds := [0]
  blockSize := 2
  useEagle := false
  alignmentTokens := 2
  maxLength := 6

theorem hit_holds_unskipped_blocks_of_window : ∃ p0, init 4 true 2 false false = .ok p0 ∧
    (windowQuery (runOps byteHashing windowOps p0)).findLongestCacheHit
        (.slidingWindow 5) = .ok [[.blk 0], [.blk 1], [.blk 2]] ∧
      HoldsUnskipped windowManager (windowQuery (runOps byteHashing windowOps p0))
        [[.blk 0], [.blk 1], [.blk 2]] := by
  obtain ⟨p0, hinit, hcaching, hrefs, hnull, hrows⟩ : ∃ p0,
      init 4 true 2 false false = .ok p0 ∧ p0.enableCaching = true ∧
        (∀ op ∈ windowOps, ∀ b ∈ op.refs, b ∈ p0.blocks) ∧
        (runOps byteHashing windowOps p0).nullBlock = p0.nullBlock ∧
        (windowQuery (runOps byteHashing windowOps p0)).findLongestCacheHit
          (.slidingWindow 5) = .ok [[.blk 0], [.blk 1], [.blk 2]] :=
    ⟨_, rfl, rfl, by decide, rfl, by decide +kernel⟩
  have hunhashed := (runOps_nullUnhashed (H := byteHashing) hinit windowOps).blockHash
  rw [← hnull] at hunhashed
  have hidx := (runOps_indexed (H := byteHashing) (init_indexed hinit) hcaching windowOps hrefs).1
  exact ⟨p0, hinit, hrows, hit_holds_unskipped_blocks trivial rfl (by decide) hidx hunhashed hrows⟩

/-- A lookup of chunked local attention keeps what the next token needs exactly when a chunk begins
where its null blocks end, or the next block is a hit. -/
theorem chunked_hit_holds_unskipped_blocks_iff {chunkSize : ℕ}
    (hkind : m.kind = .chunkedLocalAttention chunkSize) (hsize : q.blockSize = m.blockSize)
    (hidx : q.pool.Indexed) (hnull : q.pool.blockHash q.pool.nullBlock = none)
    (hgids : q.kvCacheGroupIds ≠ []) (h : q.findLongestCacheHit m.kind = .ok rows) :
    HoldsUnskipped m q rows ↔ chunkSize ∣ q.chunkStart chunkSize * q.blockSize ∨
      q.chunkStart chunkSize < q.maxNumBlocks ∧ q.Cached (q.chunkStart chunkSize) := by
  have hlookup : q.chunkedLocalAttention chunkSize = .ok rows := by rwa [hkind] at h
  obtain ⟨hits, hhits, hrows⟩ := chunkedLocalAttention_eq hlookup
  have hlen : rows.length = q.chunkStart chunkSize + hits.length := by simp [hrows]
  have hle := (findLongestCacheHit_found h).length
  have hne := chunkedLoop_ne_nil hhits
  have hskip : ∀ n, m.getNumSkippedTokens n = n / chunkSize * chunkSize := by
    intro n
    rw [getNumSkippedTokens, hkind]
  rw [HoldsUnskipped, hskip, ← hsize]
  constructor
  · intro hholds
    by_contra hnot
    obtain ⟨hdvd, hmiss⟩ := not_or.mp hnot
    -- the lookup stops at once, so that the hit consists of null blocks
    have hnil : hits = [] := by
      by_contra hhit
      obtain ⟨hroom, hcached⟩ := hne.mp hhit
      exact hmiss ⟨by omega, hcached⟩
    have hstart : rows.length = q.chunkStart chunkSize := by rw [hlen, hnil, length_nil]; rfl
    rw [hstart] at hholds
    have hlt : q.chunkStart chunkSize * q.blockSize / chunkSize * chunkSize / q.blockSize <
        q.chunkStart chunkSize := by
      apply Nat.div_lt_of_lt_mul
      rw [Nat.mul_comm q.blockSize]
      exact lt_of_le_of_ne (Nat.div_mul_le_self _ _) fun heq ↦ hdvd (Nat.dvd_of_mod_eq_zero
        (by rw [Nat.mod_eq_sub_div_mul, heq, Nat.sub_self]))
    obtain ⟨gid, gids, hgid⟩ := exists_cons_of_ne_nil hgids
    obtain ⟨b, hb, hbn, -⟩ := hholds _ le_rfl hlt 0 gid (by rw [hgid]; rfl)
    apply hbn
    rw [hrows, hnil, append_nil, column, map_replicate] at hb
    have hbn' := eq_of_mem_replicate (mem_of_getElem? hb)
    rw [hbn', nullRow, hgid]
    rfl
  · intro hcond i hi hlt j gid hj
    have hhit : q.chunkStart chunkSize ≤ i := by
      rcases Nat.eq_or_lt_of_le (show q.chunkStart chunkSize ≤ rows.length by omega) with heq | hlt'
      · -- the hit has null blocks only, and a chunk begins after them
        have hnil : hits = [] := eq_nil_of_length_eq_zero (by omega)
        have hdvd : chunkSize ∣ q.chunkStart chunkSize * q.blockSize := by
          apply hcond.resolve_right
          intro hcached
          exact hne.mpr ⟨Nat.sub_pos_of_lt hcached.1, hcached.2⟩ hnil
        rw [← heq, Nat.div_mul_cancel hdvd] at hi
        rcases Nat.eq_zero_or_pos q.blockSize with hz | hz
        · rw [chunkStart, hz, Nat.div_zero]
          exact Nat.zero_le i
        · rwa [Nat.mul_div_cancel _ hz] at hi
      · rwa [chunkStart_of_reach hlt' hle] at hi
    refine HitAt.block ?_ hidx hnull hj
    obtain ⟨row, hrow⟩ : ∃ row, rows[i]? = some row := ⟨_, getElem?_eq_getElem hlt⟩
    refine ⟨row, hrow, ?_⟩
    rw [hrows, getElem?_append_right (by simpa using hhit), length_replicate] at hrow
    have hcached := chunkedLoop_rows hhits hrow
    rwa [show q.chunkStart chunkSize + (i - q.chunkStart chunkSize) = i by omega] at hcached

def chunkManager (chunkSize : ℕ) : SingleTypeKVCacheManager where
  kvCacheSpec := ⟨.chunkedLocalAttention chunkSize, 4, 0⟩
  kvCacheGroupId := 0
  enableCaching := true

def chunkQuery (p : BlockPool) : Query where
  pool := p
  blockHashes := [[1], [2]]
  kvCacheGroupIds := [0]
  blockSize := 4
  useEagle := false
  alignmentTokens := 4
  maxLength := 8

/-- Blocks of four tokens and chunks of six: the second chunk begins in the second block, which is
not cached. The hit is one null block, in the chunk of the next token. -/
theorem chunked_hit_lacks_needed_block : ∃ p, init 3 true 4 false false = .ok p ∧
    (chunkQuery p).findLongestCacheHit (.chunkedLocalAttention 6) = .ok [[p.nullBlock]] ∧
      ¬ HoldsUnskipped (chunkManager 6) (chunkQuery p) [[p.nullBlock]] := by
  refine ⟨_, rfl, rfl, fun h ↦ ?_⟩
  obtain ⟨b, hb, hne, -⟩ := h 0 (by decide) (by decide) 0 0 rfl
  cases hb
  exact hne rfl

theorem chunked_hit_holds_unskipped_blocks_of_whole_chunks : ∃ p,
    init 3 true 4 false false = .ok p ∧
      (chunkQuery p).findLongestCacheHit (.chunkedLocalAttention 4) =
        .ok [[p.nullBlock], [p.nullBlock]] ∧
      HoldsUnskipped (chunkManager 4) (chunkQuery p) [[p.nullBlock], [p.nullBlock]] := by
  have hinit : init 3 true 4 false false = .ok _ := rfl
  refine ⟨_, hinit, rfl, ?_⟩
  exact (chunked_hit_holds_unskipped_blocks_iff rfl rfl (init_indexed hinit) rfl (by decide)
    rfl).mpr (.inl (by decide))

end VllmEngine.Core

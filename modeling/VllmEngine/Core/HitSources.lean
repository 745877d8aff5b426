import VllmEngine.Core.HybridCoherent
import VllmEngine.Core.ManagerCalls

namespace VllmEngine.Core

open Lib BlockHash List Except Option

namespace CacheHit.Query

variable {q : Query} {rows : List Row}

def Sourced (q : Query) (i : ℕ) (row : Row) : Prop :=
  row = q.nullRow ∨ ∃ h, hashAt q.blockHashes q.pool.hashBlockSize q.blockSize i = some h ∧
    q.pool.getCachedBlock h q.kvCacheGroupIds = some row

structure Found (q : Query) (rows : List Row) : Prop where
  length : rows.length ≤ q.maxNumBlocks
  row : ∀ i row, rows[i]? = some row → q.Sourced i row

theorem Found.take (h : q.Found rows) (n) : q.Found (rows.take n) where
  length := (length_take_le' _ _).trans h.length
  row i row hi := by
    rw [getElem?_take] at hi
    split at hi
    · exact h.row i row hi
    · cases hi

theorem Found.dropLast (h : q.Found rows) : q.Found rows.dropLast := by
  rw [dropLast_eq_take]
  exact h.take _

variable {i n : ℕ} {row : Row}

theorem Found.set (h : q.Found rows) (hrow : q.Sourced i row) : q.Found (rows.set i row) where
  length := length_set.trans_le h.length
  row j r hj := by
    rw [getElem?_set] at hj
    split at hj
    next hij =>
      subst hij
      split at hj
      · exact some.inj hj ▸ hrow
      · cases hj
    · exact h.row j r hj

theorem found_replicate (hn : n ≤ q.maxNumBlocks) : q.Found (replicate n q.nullRow) where
  length := by simpa using hn
  row i row hi := .inl (eq_of_mem_replicate (mem_of_getElem? hi))

theorem sourced_of_cachedAt (h : q.cachedAt i = .ok (some row)) : q.Sourced i row := by
  unfold cachedAt at h
  split at h
  · cases h
  next x hx => exact .inr ⟨x, hx, ok.inj h⟩

theorem fullLoop_sourced (hashes) (h : (q.fullLoop hashes)[i]? = some row) :
    ∃ x, hashes[i]? = some x ∧ q.pool.getCachedBlock x q.kvCacheGroupIds = some row := by
  induction hashes generalizing i with
  | nil => simp [fullLoop] at h
  | cons x hashes ih =>
    unfold fullLoop at h
    split at h
    · simp at h
    next r hr =>
      cases i with
      | zero =>
        obtain rfl : r = row := by simpa using h
        exact ⟨x, rfl, hr⟩
      | succ i => exact ih (by simpa using h)

theorem fullAttention_found : q.Found q.fullAttention := by
  have hloop : q.Found q.fullRows := by
    refine ⟨(fullLoop_length_le _).trans (length_take_le _ _), fun i row hi ↦ ?_⟩
    obtain ⟨x, hx, hrow⟩ := fullLoop_sourced _ hi
    rw [getElem?_take] at hx
    split at hx
    · exact .inr ⟨x, hashAt_of_hashList hx, hrow⟩
    · cases hx
  unfold fullAttention
  split
  · exact hloop.dropLast.take _
  · exact hloop.take _

theorem slidingLoop_found {needed m computed out found}
    (hc : q.Found computed) (h : q.slidingLoop needed i n computed = .ok (out, m, found)) :
    q.Found out := by
  induction i generalizing n computed with
  | zero =>
    simp only [slidingLoop, ok.injEq, Prod.mk.injEq] at h
    exact h.1 ▸ hc
  | succ i ih =>
    unfold slidingLoop at h
    split at h
    · cases h
    · exact ih hc h
    next row hrow =>
      have hset := hc.set (sourced_of_cachedAt hrow)
      split at h
      · exact ih hc h
      split at h
      · simp only [ok.injEq, Prod.mk.injEq] at h
        exact h.1 ▸ hset.take _
      · exact ih hset h

theorem slidingWindow_found {window} (h : q.slidingWindow window = .ok rows) : q.Found rows := by
  unfold slidingWindow at h
  dsimp only at h
  split at h
  · cases h
  next computed numContiguous matchFound hloop =>
    have hfound := slidingLoop_found (found_replicate le_rfl) hloop
    have hrows : q.Found (if matchFound then computed else q.aligned (computed.take numContiguous)) := by
      split
      · exact hfound
      · exact (hfound.take _).take _
    rw [← ok.inj h]
    split
    · exact hrows.dropLast.take _
    · exact hrows

theorem chunkedLoop_found (h : q.chunkedLoop n i = .ok rows) :
    rows.length ≤ n ∧ ∀ (j : ℕ) row, rows[j]? = some row → q.Sourced (i + j) row := by
  induction n generalizing i rows with
  | zero =>
    obtain rfl : [] = rows := by simpa [chunkedLoop] using h
    simp
  | succ n ih =>
    unfold chunkedLoop at h
    split at h
    · cases h
    · obtain rfl : [] = rows := by simpa using h
      simp
    next row hrow =>
      obtain ⟨rest, hrest, rfl⟩ : ∃ rest, q.chunkedLoop n (i + 1) = .ok rest ∧ row :: rest = rows := by
        cases hc : q.chunkedLoop n (i + 1) with
        | error e => simp [hc, Except.map] at h
        | ok rest => exact ⟨rest, rfl, by simpa [hc, Except.map] using h⟩
      obtain ⟨hlen, hsrc⟩ := ih hrest
      refine ⟨by simpa using hlen, fun j r hj ↦ ?_⟩
      cases j with
      | zero =>
        obtain rfl : row = r := by simpa using hj
        exact sourced_of_cachedAt hrow
      | succ j =>
        have := hsrc j r (by simpa using hj)
        rwa [add_assoc, add_comm 1 j] at this

theorem chunkedLocalAttention_found {chunkSize} (h : q.chunkedLocalAttention chunkSize = .ok rows) :
    q.Found rows := by
  unfold chunkedLocalAttention at h
  split at h
  · cases h
  split at h
  · cases h
  generalize hstart : q.maxLength / chunkSize * chunkSize / q.blockSize = start at h
  have hle : start ≤ q.maxNumBlocks := hstart ▸ Nat.div_le_div_right (Nat.div_mul_le_self _ _)
  obtain ⟨rest, hrest, rfl⟩ : ∃ rest, q.chunkedLoop (q.maxNumBlocks - start) start = .ok rest ∧
      replicate start q.nullRow ++ rest = rows := by
    cases hc : q.chunkedLoop (q.maxNumBlocks - start) start with
    | error e => simp [hc, Except.map] at h
    | ok rest => exact ⟨rest, rfl, by simpa [hc, Except.map] using h⟩
  obtain ⟨hlen, hsrc⟩ := chunkedLoop_found hrest
  refine ⟨by simp only [length_append, length_replicate]; omega, fun i row hi ↦ ?_⟩
  rw [getElem?_append, length_replicate] at hi
  split at hi
  · exact .inl (eq_of_mem_replicate (mem_of_getElem? hi))
  next hlt =>
    have := hsrc (i - start) row hi
    rwa [show start + (i - start) = i by omega] at this

theorem mambaLoop_found (hn : n ≤ q.maxNumBlocks) (h : q.mambaLoop n = .ok rows) :
    q.Found rows := by
  induction n with
  | zero =>
    obtain rfl : [] = rows := by simpa [mambaLoop] using h
    exact ⟨by simp, by simp⟩
  | succ n ih =>
    unfold mambaLoop at h
    split at h
    · cases h
    · exact ih (by omega) h
    next row hrow =>
      split at h
      · exact ih (by omega) h
      cases h
      refine ⟨by simpa using hn, fun i r hi ↦ ?_⟩
      rw [getElem?_append, length_replicate] at hi
      split at hi
      · exact .inl (eq_of_mem_replicate (mem_of_getElem? hi))
      next hlt =>
        have hlen := (List.getElem?_eq_some_iff.mp hi).1
        obtain rfl := mem_singleton.mp (mem_of_getElem? hi)
        rw [length_singleton] at hlen
        obtain rfl : i = n := by omega
        exact sourced_of_cachedAt hrow

theorem findLongestCacheHit_found {kind} (h : q.findLongestCacheHit kind = .ok rows) :
    q.Found rows := by
  unfold findLongestCacheHit at h
  split at h
  · exact ok.inj h ▸ fullAttention_found
  · exact ok.inj h ▸ fullAttention_found
  · exact slidingWindow_found h
  · exact chunkedLocalAttention_found h
  · exact mambaLoop_found le_rfl h
  · cases h

end CacheHit.Query

open CacheHit CacheHit.Query HybridKVCacheCoordinator

/-- Entry `i` of the hit of group `gid` is the null block, or cached under the hash of block `i`,
which ends within `maxLen` tokens. -/
def HitEntry (p : BlockPool) (blockHashes : List BlockHash) (blockSize gid maxLen i : ℕ) (b : Ref) :
    Prop :=
  b = p.nullBlock ∨ ∃ h, hashAt blockHashes p.hashBlockSize blockSize i = some h ∧
    (i + 1) * blockSize ≤ maxLen ∧
    p.cachedBlockHashToBlock.getOneBlock (makeBlockHashWithGroupId h gid) = some b

variable {gid : ℕ}

theorem HitEntry.mono {p blockHashes blockSize maxLen maxLen' i b}
    (h : HitEntry p blockHashes blockSize gid maxLen i b) (hle : maxLen ≤ maxLen') :
    HitEntry p blockHashes blockSize gid maxLen' i b :=
  h.imp_right fun ⟨x, hx, hi, hb⟩ ↦ ⟨x, hx, hi.trans hle, hb⟩

theorem getCachedBlock_get {p : BlockPool} {h gids} {row : Row} {j : ℕ}
    (hrow : p.getCachedBlock h gids = some row) (hj : gids[j]? = some gid) :
    ∃ b, row[j]? = some b ∧
      p.cachedBlockHashToBlock.getOneBlock (makeBlockHashWithGroupId h gid) = some b := by
  unfold BlockPool.getCachedBlock at hrow
  induction gids generalizing j row with
  | nil => simp at hj
  | cons g gids ih =>
    simp only [mapM_cons, Option.pure_def, Option.bind_eq_bind, Option.bind_eq_some_iff] at hrow
    obtain ⟨b, hb, rest, hrest, hcons⟩ := hrow
    obtain rfl : b :: rest = row := some.inj hcons
    cases j with
    | zero =>
      obtain rfl : g = gid := by simpa using hj
      exact ⟨b, rfl, hb⟩
    | succ j => simpa using ih hrest (by simpa using hj)

theorem column_entry {q : Query} {rows : List Row} (h : q.Found rows) {j i : ℕ} {b}
    (hj : q.kvCacheGroupIds[j]? = some gid) (hb : (column j q.pool.nullBlock rows)[i]? = some b) :
    HitEntry q.pool q.blockHashes q.blockSize gid q.maxLength i b := by
  simp only [column, getElem?_map, map_eq_some_iff] at hb
  obtain ⟨row, hrow, rfl⟩ := hb
  rcases h.row i row hrow with rfl | ⟨x, hx, hget⟩
  · left
    simp only [nullRow, getD_eq_getElem?_getD, getElem?_replicate]
    split <;> rfl
  obtain ⟨b, hb, hone⟩ := getCachedBlock_get hget hj
  have hlt : i + 1 ≤ q.maxNumBlocks :=
    (List.getElem?_eq_some_iff.mp hrow).1.trans_le h.length
  refine .inr ⟨x, hx, (Nat.mul_le_mul_right _ hlt).trans (Nat.div_mul_le_self _ _), ?_⟩
  rwa [getD_eq_getElem?_getD, hb]

namespace HybridKVCacheCoordinator

variable {c : HybridKVCacheCoordinator} {p : BlockPool} {blockHashes : List BlockHash} {maxLen : ℕ}

structure FromCache (c : HybridKVCacheCoordinator) (p : BlockPool) (blockHashes : List BlockHash)
    (maxLen : ℕ) (s : Scan) : Prop where
  currHitLength : s.currHitLength ≤ maxLen
  hits : ∀ gid blocks g, s.hitBlocksByGroup gid = some blocks → c.kvCacheGroups[gid]? = some g →
    ∀ i b, blocks[i]? = some b → HitEntry p blockHashes g.kvCacheSpec.blockSize gid maxLen i b

variable {s' : Scan}

theorem scanGroup_fromCache {idx : ℕ} {g s} (hg : g ∈ c.attentionGroups)
    (hs : FromCache c p blockHashes maxLen s)
    (h : c.scanGroup p blockHashes maxLen idx g s = .ok s') : FromCache c p blockHashes maxLen s' := by
  unfold scanGroup at h
  dsimp only at h
  split at h
  · cases h
    exact ⟨(Nat.div_mul_le_self _ _).trans hs.currHitLength, hs.hits⟩
  split at h
  · cases h
  next rows hrows =>
    cases h
    generalize huse : (c.isEagle g && !decide (idx ∈ s.eagleVerified)) = useEagle at hrows
    have hfound := findLongestCacheHit_found hrows
    have hmax : (c.query p blockHashes maxLen g useEagle s.currHitLength).maxLength ≤ maxLen := by
      unfold query
      split
      · exact min_le_right _ _
      · exact hs.currHitLength
    refine ⟨?_, fun gid blocks s0 (hblocks : recordHits _ _ _ _ _ gid = some blocks) hs0 i b hb ↦ ?_⟩
    · calc rows.length * g.spec.blockSize
          ≤ (c.query p blockHashes maxLen g useEagle s.currHitLength).maxNumBlocks * g.spec.blockSize :=
            Nat.mul_le_mul_right _ hfound.length
        _ ≤ _ := Nat.div_mul_le_self _ _
        _ ≤ maxLen := hmax
    · by_cases hm : gid ∈ g.groupIds
      · obtain ⟨j, hj, hrec⟩ := recordHits_column p.nullBlock rows 0 s.hitBlocksByGroup hm
        obtain ⟨s1, hs1, hspec⟩ := (lists hg).spec gid hm
        obtain rfl := some.inj (hs0.symm.trans hs1)
        rw [hrec, zero_add] at hblocks
        cases hblocks
        rw [hspec]
        exact (column_entry hfound hj hb).mono hmax
      · rw [recordHits_of_not_mem hm] at hblocks
        exact hs.hits gid blocks s0 hblocks hs0 i b hb

theorem scanGroups_fromCache {idx gs s}
    (hgs : ∀ g ∈ gs, g ∈ c.attentionGroups) (hs : FromCache c p blockHashes maxLen s)
    (h : c.scanGroups p blockHashes maxLen idx gs s = .ok s') :
    FromCache c p blockHashes maxLen s' := by
  induction gs generalizing idx s with
  | nil => exact ok.inj h ▸ hs
  | cons g gs ih =>
    unfold scanGroups at h
    split at h
    · cases h
    next t ht =>
      exact ih (fun g' hg' ↦ hgs g' (by simp [hg'])) (scanGroup_fromCache (hgs g (by simp)) hs ht) h

theorem searchLoop_fromCache {fuel hitLength n s} (hn : hitLength ≤ maxLen)
    (hs : FromCache c p blockHashes maxLen s)
    (h : c.searchLoop p blockHashes maxLen fuel hitLength s = .ok (n, s')) :
    FromCache c p blockHashes maxLen s' := by
  induction fuel generalizing hitLength s with
  | zero => cases h
  | succ fuel ih =>
    unfold searchLoop at h
    split at h
    · cases h
    next t ht =>
      have ht' := scanGroups_fromCache (fun _ hg ↦ hg)
        (show FromCache c p blockHashes maxLen { s with currHitLength := hitLength } from
          ⟨hn, hs.hits⟩) ht
      split at h
      · simp only [ok.injEq, Prod.mk.injEq] at h
        exact h.2 ▸ ht'
      split at h
      · simp only [ok.injEq, Prod.mk.injEq] at h
        exact h.2 ▸ ht'
      · exact ih ht'.currHitLength ht' h

theorem findLongestCacheHit_fromCache {blocks hitLength}
    (h : c.findLongestCacheHit p blockHashes maxLen = .ok (blocks, hitLength)) {gid g l}
    (hg : c.kvCacheGroups[gid]? = some g) (hl : blocks[gid]? = some l) {i b} (hb : l[i]? = some b) :
    HitEntry p blockHashes g.kvCacheSpec.blockSize gid maxLen i b := by
  unfold findLongestCacheHit at h
  split at h
  · cases h
  next n s hloop =>
    cases h
    have hstart : FromCache c p blockHashes maxLen ⟨maxLen, [], fun _ ↦ none⟩ :=
      ⟨le_rfl, fun _ _ _ h ↦ by cases h⟩
    have hs := searchLoop_fromCache le_rfl hstart hloop
    rw [List.getElem?_map, List.getElem?_range (List.getElem?_eq_some_iff.mp hg).1] at hl
    cases hl
    have hget : ∃ blocks, s.hitBlocksByGroup gid = some blocks ∧ blocks[i]? = some b := by
      unfold finalBlocks at hb
      cases hblocks : s.hitBlocksByGroup gid with
      | none =>
        simp only [hblocks, getD_none, take_nil, ite_self] at hb
        split at hb <;> simp at hb
      | some blocks =>
        refine ⟨blocks, rfl, ?_⟩
        simp only [hblocks, getD_some] at hb
        split at hb
        · exact hb
        split at hb
        · rw [getElem?_take] at hb
          split at hb
          · exact hb
          · cases hb
        · exact hb
    obtain ⟨blocks, hblocks, hib⟩ := hget
    exact hs.hits gid blocks g hblocks hg i b hib

end HybridKVCacheCoordinator

end VllmEngine.Core

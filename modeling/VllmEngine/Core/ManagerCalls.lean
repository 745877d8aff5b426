import VllmEngine.Core.ManagerTables

namespace VllmEngine.Core

open Lib BlockHash BlockPool List

theorem hashAt_of_hashList {blockHashes hashBlockSize blockSize i h}
    (hi : (hashList blockHashes hashBlockSize blockSize)[i]? = some h) :
    hashAt blockHashes hashBlockSize blockSize i = some h := by
  unfold hashList at hi
  unfold hashAt
  split at hi
  next heq => rwa [if_pos heq]
  next hne =>
    rw [if_neg hne]
    simp only [withBlockSize, getElem?_map, Option.map_eq_some_iff] at hi
    obtain ⟨j, hj, rfl⟩ := hi
    obtain ⟨hlt, rfl⟩ := List.getElem?_eq_some_iff.mp hj
    rw [getElem_range]

namespace SingleTypeKVCacheManager

variable {R : Request → Prop} {owned : Ref → Prop} {null : Ref} {m m' : SingleTypeKVCacheManager}
  {p p' : BlockPool} {rest : Ref → ℕ} {id : ReqId} {t : List Ref}

/-- `m'` differs from `m` in what it keeps for `id`, whose table becomes `t`. -/
structure Retabled (id : ReqId) (t : List Ref) (m m' : SingleTypeKVCacheManager) : Prop where
  spec : m'.kvCacheSpec = m.kvCacheSpec
  group : m'.kvCacheGroupId = m.kvCacheGroupId
  caching : m'.enableCaching = m.enableCaching
  sinks : m'.sinkBlocks = m.sinkBlocks
  self : m'.table id = t
  table : ∀ id', id' ≠ id → m'.table id' = m.table id'
  allocated : ∀ id', id' ≠ id → (id' ∈ m'.allocatedBlockReqs ↔ id' ∈ m.allocatedBlockReqs)
  occurrences : ∀ b, m'.occurrences b + (m.table id).count b = m.occurrences b + t.count b

theorem Retabled.setTable (m) (id) (t) :
    Retabled id t m (m.setTable id t) :=
  ⟨rfl, rfl, rfl, rfl, m.table_setTable_self id t, fun _ h ↦ m.table_setTable_ne h t,
    fun _ _ ↦ Iff.rfl, m.occurrences_setTable id t⟩

theorem Retabled.frame (h : Retabled id t m m') (hcfg : p'.config = p.config)
    (hhash : ∀ b, b ≠ null → 0 < m.occurrences b + rest b → p'.blockHash b = p.blockHash b) :
    Frame rest null id m p m' p' where
  spec := h.spec
  group := h.group
  caching := h.caching
  sinks := h.sinks
  config := hcfg
  table := h.table
  allocated := h.allocated
  hashes id' _ b hb hn := by
    have hpos := count_pos_iff.mpr hb
    have hle := m.count_table_le id' b
    exact hhash b hn (by omega)
  rest b hn hpos := hhash b hn (by omega)

section

variable (h : Kept R owned null rest m p)

include h

theorem Kept.retable (hm : Retabled id t m m') {held}
    (hp' : Held owned null p' held) (hcfg : p'.config = p.config)
    (hheld : ∀ b, b ≠ null → held b + (m.table id).count b = m.occurrences b + rest b + t.count b)
    (hhash : ∀ b, b ≠ null → 0 < m.occurrences b + rest b → p'.blockHash b = p.blockHash b)
    (hmem : ∀ b ∈ t, b = null ∨ owned b)
    (hkeyed : ∀ i b key, t[i]? = some b → p'.blockHash b = some key →
      KeyAt R p.hashBlockSize m.blockSize m.kvCacheGroupId i key) :
    Keeps R owned null rest id m p m' p' := by
  have hsize : p'.hashBlockSize = p.hashBlockSize := congrArg Config.hashBlockSize hcfg
  have hspec : m'.blockSize = m.blockSize := by rw [blockSize, hm.spec, blockSize]
  refine ⟨⟨hp'.congr fun b hb ↦ ?_, fun id' b hb ↦ ?_, fun id' i b key hi hkey ↦ ?_⟩,
    hm.frame hcfg hhash⟩
  · have := hm.occurrences b
    have := hheld b hb
    omega
  · by_cases hid : id' = id
    · subst hid
      exact hmem b (hm.self ▸ hb)
    · exact h.tables.mem id' b (hm.table id' hid ▸ hb)
  · rw [hsize, hspec, hm.group]
    by_cases hid : id' = id
    · subst hid
      exact hkeyed i b key (hm.self ▸ hi) hkey
    rw [hm.table id' hid] at hi
    by_cases hn : b = null
    · exact absurd (hp'.hashed b (by simp [hkey])) (hn ▸ hp'.null_not_owned)
    have hpos := count_pos_iff.mpr (mem_of_getElem? hi)
    have hle := m.count_table_le id' b
    exact h.tables.keyed id' i b key hi (hhash b hn (by omega) ▸ hkey)

theorem freeBlocks_keeps [DecidablePred owned]
    (hR : Distinct R p.hashBlockSize m.blockSize) (hm : Retabled id t m m') {removed}
    (hcount : ∀ b, b ≠ null → t.count b + removed.count b = (m.table id).count b)
    (hremoved : ∀ b ∈ removed, b ∈ m.table id)
    (hpruned : ∀ (i : ℕ) b, t[i]? = some b → b = null ∨ (m.table id)[i]? = some b) :
    Succeeds (onPool (freeBlocks removed)) p
      (fun _ p' ↦ Keeps R owned null rest id m p m' p' ∧ SameHashes p p') := by
  have hrel : ∀ b ∈ removed, b ≠ null → removed.count b = 1 ∧ 0 < m.occurrences b + rest b := by
    intro b hb hn
    have hone := h.count_le_one hR id hn
    have hpos := count_pos_iff.mpr hb
    have hle := m.count_table_le id b
    have := hcount b hn
    omega
  refine onPool_ensures ((freeBlocks_held h.held (fun b hb ↦ h.tables.mem id b (hremoved b hb))
    hrel).mono fun _ p' hp' ↦ ?_) (fun _ _ he ↦ he)
  refine ⟨h.retable hm hp'.1 hp'.2.2 (fun b hb ↦ ?_) (fun b _ _ ↦ ?_) (fun b hb ↦ ?_)
    (fun i b key hi hkey ↦ ?_), hp'.2⟩
  · have := m.count_table_le id b
    have := hcount b hb
    omega
  · rw [hp'.2.blockHash]
  · obtain ⟨i, hi⟩ := mem_iff_getElem?.mp hb
    rcases hpruned i b hi with hn | hi
    · exact .inl hn
    · exact h.tables.mem id b (mem_of_getElem? hi)
  · rw [hp'.2.blockHash] at hkey
    rcases hpruned i b hi with rfl | hi
    · exact absurd (h.held.hashed b (by simp [hkey])) h.held.null_not_owned
    · exact h.tables.keyed id i b key hi hkey

theorem getNewBlocks_keeps {ext} {n : ℕ} {after : List Ref → SingleTypeKVCacheManager}
    (hm : ∀ bs, Retabled id (ext ++ bs) m (after bs))
    (hcount : ∀ b, b ≠ null → ext.count b = (m.table id).count b)
    (hplace : ∀ (i : ℕ) b key, ext[i]? = some b → p.blockHash b = some key →
      (m.table id)[i]? = some b) :
    Ensures (onPool (getNewBlocks n)) p
      (fun bs p' ↦ Keeps R owned null rest id m p (after bs) p' ∧ bs.length = n ∧
        ∀ b, p'.blockHash b = if b ∈ bs then none else p.blockHash b) := by
  refine onPool_returns ((getNewBlocks_held h.held).mono ?_)
  rintro bs p' ⟨hlen, hfresh, hp'⟩
  refine ⟨h.retable (hm bs) hp' hfresh.config (fun b hb ↦ ?_) (fun b _ hpos ↦ ?_) (fun b hb ↦ ?_)
    (fun i b key hi hkey ↦ ?_), hlen, hfresh.hashes⟩
  · rw [count_append, hcount b hb]
    omega
  · rw [hfresh.hashes, if_neg]
    intro hb
    have := (hfresh.free b hb).2
    omega
  · by_cases hn : b = null
    · exact .inl hn
    rcases mem_append.mp hb with hb | hb
    · have hpos := count_pos_iff.mpr hb
      rw [hcount b hn] at hpos
      exact h.tables.mem id b (count_pos_iff.mp hpos)
    · exact .inr (hfresh.free b hb).1
  · rw [hfresh.hashes] at hkey
    split at hkey
    · cases hkey
    next hb =>
      rw [getElem?_append] at hi
      split at hi
      · exact h.tables.keyed id i b key (hplace i b key hi hkey) hkey
      · exact absurd (mem_of_getElem? hi) hb

end

def Hits (R : Request → Prop) (null : Ref) (m : SingleTypeKVCacheManager) (p : BlockPool)
    (hits : List Ref) : Prop :=
  ∀ i b, hits[i]? = some b → b = null ∨
    ∃ key, p.blockHash b = some key ∧ KeyAt R p.hashBlockSize m.blockSize m.kvCacheGroupId i key

theorem touch_keeps (h : Kept R owned null rest m p) {hits skipped}
    (hm : Retabled id (replicate skipped null ++ hits.drop skipped) m m')
    (hempty : m.table id = []) (hhits : Hits R null m p hits) :
    Succeeds (onPool (touch (hits.drop skipped))) p
      (fun _ p' ↦ Keeps R owned null rest id m p m' p' ∧ SameHashes p p') := by
  have hhash : ∀ b ∈ hits.drop skipped, b = null ∨ p.blockHash b ≠ none := by
    intro b hb
    obtain ⟨i, hi⟩ := mem_iff_getElem?.mp (mem_of_mem_drop hb)
    exact (hhits i b hi).imp_right fun ⟨key, hkey, _⟩ ↦ by simp [hkey]
  refine onPool_ensures ((touch_held h.held hhash).mono fun _ p' hp' ↦ ?_) (fun _ _ he ↦ he)
  refine ⟨h.retable hm hp'.1 hp'.2.2 (fun b hb ↦ ?_) (fun b _ _ ↦ ?_) (fun b hb ↦ ?_)
    (fun i b key hi hkey ↦ ?_), hp'.2⟩
  · have hnull : null ≠ b := Ne.symm hb
    simp [hempty, count_replicate, hnull]
  · rw [hp'.2.blockHash]
  · rcases mem_append.mp hb with hb | hb
    · exact .inl (eq_of_mem_replicate hb)
    · exact (hhash b hb).imp_right (h.held.hashed b)
  rw [hp'.2.blockHash] at hkey
  have hnull : b ≠ null := by
    rintro rfl
    exact h.held.null_not_owned (h.held.hashed b (by simp [hkey]))
  rw [getElem?_append, length_replicate] at hi
  split at hi
  · exact absurd (eq_of_mem_replicate (mem_of_getElem? hi)) hnull
  next hlt =>
    rw [getElem?_drop, show skipped + (i - skipped) = i by omega] at hi
    obtain ⟨key', hkey', hat⟩ := (hhits i b hi).resolve_left hnull
    rw [hkey] at hkey'
    exact Option.some.inj hkey' ▸ hat

end SingleTypeKVCacheManager

end VllmEngine.Core

import VllmEngine.Core.ManagerOps

namespace VllmEngine.Core.SingleTypeKVCacheManager

open Lib BlockHash BlockPool List

variable {R : Request → Prop} {owned : Ref → Prop} {null : Ref} {m m' : SingleTypeKVCacheManager}
  {p p' : BlockPool} {rest : Ref → ℕ} {id : ReqId}

theorem Frame.kind_eq (h : Frame rest null id m p m' p') : m'.kind = m.kind := by
  rw [kind, h.spec, kind]

theorem allocateNewBlocks_keeps (h : Kept R owned null rest m p) {main}
    (hs : Ready null m p id main) (n) :
    Ensures (m.allocateNewBlocks id n main) p
      (fun out p' ↦ Keeps R owned null rest id m p out.1 p' ∧ Settled null out.1 p' id ∧
        ∀ s, m.kind = .mamba .align s → (out.1.table id).length = cdiv main m.blockSize + s) := by
  have hbase : (∀ s, m.kind ≠ .mamba .align s) → ∀ n, Ensures (m.allocateBlocks id n) p
      (fun out p' ↦ Keeps R owned null rest id m p out.1 p' ∧ Settled null out.1 p' id ∧
        ∀ s, m.kind = .mamba .align s → (out.1.table id).length = cdiv main m.blockSize + s) := by
    intro hkind n
    refine (allocateBlocks_keeps h n).mono fun out p' hp' ↦ ⟨hp', fun s hs' ↦ ?_, fun s hs' ↦ ?_⟩
    · exact absurd (hp'.2.kind_eq ▸ hs') (hkind s)
    · exact absurd hs' (hkind s)
  unfold allocateNewBlocks
  split
  next s hkind =>
    refine (allocateBlocksAlign_keeps h hkind hs).mono fun out p' hp' ↦ ⟨hp'.1, hp'.2.1, fun s' hs' ↦ ?_⟩
    obtain rfl : s' = s := by simpa using hs'.symm.trans hkind
    exact hp'.2.2
  all_goals
    next hkind => exact hbase (by simp [hkind]) _

variable {request : Request}

theorem cacheFullBlocks_keeps (h : Kept R owned null rest m p) (hc : p.enableCaching = true)
    (hr : R request) {c f} (hcf : c < f) (hf : f * m.blockSize ≤ request.numTokens) (H) :
    Ensures (onPool (cacheFullBlocks H request (m.table id) c f m.blockSize m.kvCacheGroupId)) p
      (fun _ p' ↦ Kept R owned null rest m p' ∧ Frame rest null id m p m p' ∧
        ∀ (i : ℕ) (b : Ref), f ≤ i → (m.table id)[i]? = some b → b ≠ null →
          p'.blockHash b = p.blockHash b) := by
  refine onPool_returns ((cacheFullBlocks_held h.held (h.tables.mem id) hc H request c f m.blockSize
    m.kvCacheGroupId hcf).mono ?_)
  rintro _ p' ⟨hheld, hcfg, hfiled⟩
  -- a block is either left alone or is an unhashed block of the table, filed where it stands
  have hcase : ∀ b, b ≠ null → p'.blockHash b = p.blockHash b ∨ p.blockHash b = none ∧
      ∃ i, i < f ∧ (m.table id)[i]? = some b ∧ ∃ x, p'.blockHash b =
        some (makeBlockHashWithGroupId x m.kvCacheGroupId) ∧
        hashAt request.blockHashes p.hashBlockSize m.blockSize i = some x := by
    intro b hn
    by_cases hb : b ∈ ((m.table id).take f).drop c
    · obtain ⟨j, hj⟩ := mem_iff_getElem?.mp hb
      obtain ⟨hnone, x, hx, hset⟩ := hfiled.filed j b hj (by simpa [h.held.isNull] using hn)
      rw [getElem?_drop] at hj
      have hlt : c + j < f := by
        have := (List.getElem?_eq_some_iff.mp hj).1
        rw [length_take] at this
        omega
      rw [getElem?_take_of_lt hlt] at hj
      rw [Nat.zero_add, getElem?_drop] at hx
      exact .inr ⟨hnone, c + j, hlt, hj, x, hset, hashAt_of_hashList hx⟩
    · exact .inl (hfiled.frame b hb)
  have hother : ∀ b, b ≠ null → ∀ id' (i' : ℕ), (m.table id')[i']? = some b → id' ≠ id ∨ f ≤ i' →
      p'.blockHash b = p.blockHash b := by
    intro b hn id' i' hi' hne
    refine (hcase b hn).resolve_right ?_
    rintro ⟨hnone, i, hi, hib, -⟩
    obtain ⟨hid, rfl, -⟩ := h.unique hn hnone hib hi'
    rcases hne with hne | hle
    · exact hne hid.symm
    · omega
  have hsize : p'.hashBlockSize = p.hashBlockSize := congrArg Config.hashBlockSize hcfg
  refine ⟨⟨hheld, h.tables.mem, fun id' i b key hi hkey ↦ ?_⟩, ?_,
    fun i b hi hb hn ↦ hother b hn id i hb (.inr hi)⟩
  · have hn : b ≠ null := by
      rintro rfl
      exact hheld.null_not_owned (hheld.hashed b (by simp [hkey]))
    rw [hsize]
    rcases hcase b hn with hsame | ⟨hnone, i', hi', hib, x, hset, hx⟩
    · exact h.tables.keyed id' i b key hi (hsame ▸ hkey)
    · obtain ⟨-, rfl, -⟩ := h.unique hn hnone hib hi
      refine ⟨request, x, hr, ?_, hx, Option.some.inj (hkey.symm.trans hset)⟩
      exact (Nat.mul_le_mul_right _ hi').trans hf
  · refine ⟨rfl, rfl, rfl, rfl, hcfg, fun _ _ ↦ rfl, fun _ _ ↦ Iff.rfl, fun id' hid b hb hn ↦ ?_,
      fun b hn hpos ↦ ?_⟩
    · obtain ⟨i, hi⟩ := mem_iff_getElem?.mp hb
      exact hother b hn id' i hi (.inl hid)
    refine (hcase b hn).resolve_right ?_
    rintro ⟨hnone, i, -, hib, -⟩
    have := (h.unique hn hnone hib hib).2.2
    omega

theorem Keeps.of_tables {m''} (h : Keeps R owned null rest id m p m' p')
    (hspec : m''.kvCacheSpec = m'.kvCacheSpec) (hgroup : m''.kvCacheGroupId = m'.kvCacheGroupId)
    (hcaching : m''.enableCaching = m'.enableCaching) (hsinks : m''.sinkBlocks = m'.sinkBlocks)
    (htables : m''.reqToBlocks = m'.reqToBlocks)
    (halloc : m''.allocatedBlockReqs = m'.allocatedBlockReqs) :
    Keeps R owned null rest id m p m'' p' := by
  have htable : ∀ id', m''.table id' = m'.table id' := fun id' ↦ by rw [table, htables, table]
  have hocc : m''.occurrences = m'.occurrences := by
    funext b
    rw [occurrences, htables, occurrences]
  refine ⟨⟨hocc ▸ h.1.held, fun id' ↦ htable id' ▸ h.1.tables.mem id', ?_⟩, hspec.trans h.2.spec,
    hgroup.trans h.2.group, hcaching.trans h.2.caching, hsinks.trans h.2.sinks, h.2.config,
    fun id' hid ↦ (htable id').trans (h.2.table id' hid),
    fun id' hid ↦ halloc ▸ h.2.allocated id' hid, h.2.hashes, h.2.rest⟩
  intro id' i b key hi hkey
  rw [blockSize, hspec, hgroup]
  exact h.1.tables.keyed id' i b key (htable id' ▸ hi) hkey

theorem cacheFull_keeps (h : Kept R owned null rest m p) (hc : p.enableCaching = true)
    (hr : R request) {n} (hn : n ≤ request.numTokens) (H) :
    Ensures (m.cacheFull H request n) p
      (fun m' p' ↦ Keeps R owned null rest request.requestId m p m' p' ∧
        m'.reqToBlocks = m.reqToBlocks ∧ m'.allocatedBlockReqs = m.allocatedBlockReqs ∧
        ∀ (i : ℕ) (b : Ref), n / m.blockSize ≤ i → (m.table request.requestId)[i]? = some b → b ≠ null →
          p'.blockHash b = p.blockHash b) := by
  unfold cacheFull
  dsimp only
  split
  · exact .pure ⟨⟨h, .refl m p⟩, rfl, rfl, fun _ _ _ _ _ ↦ rfl⟩
  next hlt =>
    have hf : n / m.blockSize * m.blockSize ≤ request.numTokens := (Nat.div_mul_le_self _ _).trans hn
    refine .seq (cacheFullBlocks_keeps h hc hr (by omega) hf H) fun _ p' hp' ↦ ?_
    have hkeeps : Keeps R owned null rest request.requestId m p m p' := ⟨hp'.1, hp'.2.1⟩
    exact .pure ⟨hkeeps.of_tables rfl rfl rfl rfl rfl rfl, rfl, rfl, hp'.2.2⟩

theorem cacheBlocks_keeps (h : Kept R owned null rest m p) (hc : p.enableCaching = true)
    (hr : R request) {n} (hn : n ≤ request.numTokens) (hs : Settled null m p request.requestId)
    (hbound : ∀ s, m.kind = .mamba .align s →
      n / m.blockSize + s ≤ (m.table request.requestId).length) (H) :
    Ensures (m.cacheBlocks H request n) p
      (fun m' p' ↦ Keeps R owned null rest request.requestId m p m' p' ∧
        Settled null m' p' request.requestId) := by
  have hfull := cacheFull_keeps h hc hr hn H
  have hsettled : ∀ m' p', Keeps R owned null rest request.requestId m p m' p' →
      m'.reqToBlocks = m.reqToBlocks → m'.allocatedBlockReqs = m.allocatedBlockReqs →
      (∀ (i : ℕ) (b : Ref), n / m.blockSize ≤ i → (m.table request.requestId)[i]? = some b → b ≠ null →
        p'.blockHash b = p.blockHash b) → Settled null m' p' request.requestId := by
    intro m' p' hkeeps htables halloc hhash s hkind
    rw [hkeeps.2.kind_eq] at hkind
    rw [table, htables, halloc]
    refine ⟨(hs s hkind).1, fun i b hi hb hb' ↦ ?_⟩
    have := hbound s hkind
    change (m.table request.requestId).length - s ≤ i at hi
    rw [hhash i b (by omega) hb hb']
    exact (hs s hkind).2 i b hi hb hb'
  unfold cacheBlocks
  split
  · exact .throw trivial
  · refine .seq hfull ?_
    rintro m' p' ⟨hkeeps, htables, halloc, hhash⟩
    refine .get_bind ?_
    split
    · exact .throw trivial
    next keys _ =>
      exact .pure ⟨hkeeps.of_tables rfl rfl rfl rfl rfl rfl,
        fun s hkind ↦ hsettled m' p' hkeeps htables halloc hhash s hkind⟩
  all_goals
    exact hfull.mono fun m' p' hp' ↦ ⟨hp'.1, hsettled m' p' hp'.1 hp'.2.1 hp'.2.2.1 hp'.2.2.2⟩

theorem occurrences_erase (m : SingleTypeKVCacheManager) (id : ReqId) (b : Ref) :
    (m.reqToBlocks.erase id).total (count b) + (m.table id).count b = m.occurrences b := by
  rw [← count_table_eq]
  exact m.reqToBlocks.total_erase _ id

theorem free_keeps [DecidablePred owned] (h : Kept R owned null rest m p)
    (hR : Distinct R p.hashBlockSize m.blockSize) (id : ReqId) :
    Succeeds (m.free id) p
      (fun m' p' ↦ Keeps R owned null rest id m p m' p' ∧ Settled null m' p' id ∧ m'.table id = []) := by
  have hm : Retabled id [] m { m with
      reqToBlocks := m.reqToBlocks.erase id
      numCachedBlock := m.numCachedBlock.erase id
      lastStateBlockIdx := m.lastStateBlockIdx.erase id
      allocatedBlockReqs := m.allocatedBlockReqs.filter (· ≠ id) } := by
    refine ⟨rfl, rfl, rfl, rfl, ?_, fun id' hid ↦ ?_, fun id' hid ↦ ?_, fun b ↦ ?_⟩
    · simp [table]
    · simp [table, Dict.get?_erase_ne _ hid]
    · simp [hid]
    · rw [count_nil, Nat.add_zero]
      exact m.occurrences_erase id b
  refine .seq (freeBlocks_keeps h hR hm (fun b _ ↦ by simp) (fun b hb ↦ by simpa using hb)
    (fun i b hi ↦ by simp at hi)) fun _ p' hp' ↦ ?_
  refine .pure ⟨hp'.1, fun s _ ↦ ⟨fun ha ↦ ?_, fun i b _ hb ↦ ?_⟩, hm.self⟩
  · simp at ha
  · rw [hm.self] at hb
    simp at hb

end VllmEngine.Core.SingleTypeKVCacheManager

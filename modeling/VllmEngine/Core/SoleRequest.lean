import VllmEngine.Core.KVCacheStart
import VllmEngine.Core.TableShapes

namespace VllmEngine.Core

open Lib BlockHash BlockPool List KVCacheManager

variable {owned : Ref → Prop} {null : Ref} {p p' : BlockPool} {L : Ledger Ref} {hs : List BlockHash}
  {bs : List Ref}

theorem cacheBlock_returns {g i b} (hb : p.blockHash b = none) (hi : i < hs.length) :
    Succeeds (cacheBlock hs g i b) p (fun _ p' ↦ ∀ r, r ≠ b → p'.blockHash r = p.blockHash r) := by
  refine .get_bind (.ite (fun _ ↦ .pure fun _ _ ↦ rfl) fun _ ↦ ?_)
  refine .ite (fun hne ↦ absurd hb hne) fun _ ↦ ?_
  rw [getElem?_eq_getElem hi]
  refine .modify_bind (.modify_bind (.pure fun r hr ↦ ?_))
  simp [setIndex, setBlockHash, hr]

theorem cacheLoop_returns {g i} (hd : bs.Nodup)
    (hbs : ∀ b ∈ bs, p.blockHash b = none) (hi : i + bs.length ≤ hs.length) :
    Succeeds (cacheLoop hs g i bs) p (fun _ _ ↦ True) := by
  induction bs generalizing p i with
  | nil => exact .pure trivial
  | cons b bs ih =>
    obtain ⟨hb, hd⟩ := nodup_cons.mp hd
    rw [length_cons] at hi
    refine .seq (cacheBlock_returns (hbs b (by simp)) (by omega)) fun _ p' hp' ↦ ?_
    refine .seq (ih hd (fun b' hb' ↦ ?_) (by omega)) fun _ _ _ ↦ ?_
    · rw [hp' b' (ne_of_mem_of_not_mem hb' hb)]
      exact hbs b' (by simp [hb'])
    · exact .pure trivial

theorem extraKeysLoop_returns {H r size idxs} (hidxs : ∀ i ∈ idxs, i < bs.length) (c) :
    Succeeds (extraKeysLoop H r bs size idxs c) p (fun _ _ ↦ True) := by
  induction idxs generalizing c p with
  | nil => exact .pure trivial
  | cons i idxs ih =>
    have ih := fun c p ↦ ih (p := p) (fun j hj ↦ hidxs j (by simp [hj])) c
    unfold extraKeysLoop
    rw [getElem?_eq_getElem (hidxs i (by simp))]
    refine .get_bind (.ite (fun _ ↦ ih _ _) fun _ ↦ ?_)
    exact .seq (ih _ _) fun _ _ _ ↦ .pure trivial

theorem cacheFullBlocks_returns {H r c f g}
    (hd : bs.Nodup) (hnone : ∀ i b, c ≤ i → bs[i]? = some b → p.blockHash b = none)
    (hf : f ≤ bs.length) (hhash : f ≤ r.blockHashes.length) :
    Succeeds (cacheFullBlocks H r bs c f p.hashBlockSize g) p (fun _ _ ↦ True) := by
  refine .ite (fun _ ↦ .pure trivial) fun hcf ↦ .get_bind ?_
  refine .ite (fun hlt ↦ absurd hlt (by omega)) fun _ ↦ ?_
  refine .ite (fun hne ↦ absurd rfl hne.1) fun _ ↦ ?_
  refine .seq (cacheLoop_returns (hd.sublist ((drop_sublist _ _).trans
    (take_sublist _ _))) (fun b hb ↦ ?_) ?_) fun _ p' _ ↦ ?_
  · obtain ⟨i, hi⟩ := mem_iff_getElem?.mp hb
    rw [getElem?_drop, getElem?_take] at hi
    split at hi
    · exact hnone _ b (Nat.le_add_right c i) hi
    · cases hi
  · simp only [hashList, if_true, length_drop, length_take]
    omega
  refine .ite (fun _ ↦ ?_) fun _ ↦ .pure trivial
  split
  next e he =>
    unfold parentBlockHash hashAt at he
    rw [if_pos rfl] at he
    split at he
    · cases he
    · rw [getElem?_eq_getElem (by omega)] at he
      cases he
  · refine .seq (extraKeysLoop_returns (fun i hi ↦ ?_) _) fun _ _ _ ↦ ?_
    · have := (mem_range'_1.mp hi).2
      omega
    · exact .modify trivial

namespace SingleTypeKVCacheManager

variable {m m' : SingleTypeKVCacheManager} {id : ReqId} {cap : ℕ}

def AttendsToAll (m : SingleTypeKVCacheManager) : Prop :=
  m.kind = .fullAttention ∨ ∃ sinkLen, m.kind = .sinkFullAttention sinkLen

/-- Of the blocks of the pool, `cap` are free or in the table of `id`. Uncached ones have no hash.
-/
structure Sole (owned : Ref → Prop) (null : Ref) (id : ReqId) (cap : ℕ) (m : SingleTypeKVCacheManager)
    (p : BlockPool) : Prop where
  kind : m.AttendsToAll
  blockSize : 0 < m.blockSize
  hashBlockSize : p.enableCaching = true → p.hashBlockSize = m.blockSize
  nodup : (m.table id).Nodup
  mem : ∀ b ∈ m.table id, b = null ∨ owned b
  cached : (m.numCachedBlock.get? id).getD 0 ≤ (m.table id).length
  unhashed : ∀ i b, (m.numCachedBlock.get? id).getD 0 ≤ i → (m.table id)[i]? = some b →
    p.blockHash b = none
  stock : ∃ L, Stock owned null p L ∧ L.free.length + (m.table id).length = cap ∧
    ∀ b ∈ m.table id, b ∉ L.free

theorem Sole.numFree (h : Sole owned null id cap m p) :
    p.getNumFreeBlocks = cap - (m.table id).length ∧ (m.table id).length ≤ cap := by
  obtain ⟨L, hL, hlen, -⟩ := h.stock
  have := hL.refines.queue.count
  rw [getNumFreeBlocks]
  omega

section

variable (h : m.AttendsToAll)

include h

theorem AttendsToAll.getNumSkippedTokens_eq (n) : m.getNumSkippedTokens n = 0 := by
  unfold getNumSkippedTokens
  rcases h with hk | ⟨s, hk⟩ <;> rw [hk]

theorem AttendsToAll.removeSkippedBlocks_eq (n) : m.removeSkippedBlocks id n = pure m := by
  unfold removeSkippedBlocks
  have hzero := h.getNumSkippedTokens_eq n
  rcases h with hk | ⟨s, hk⟩
  all_goals
    rw [hk]
    simp only [removeSkipped, hzero, if_true]

theorem AttendsToAll.allocateNewBlocks_eq (n main) :
    m.allocateNewBlocks id n main = m.allocateBlocks id n := by
  unfold allocateNewBlocks
  rcases h with hk | ⟨s, hk⟩ <;> rw [hk]

theorem AttendsToAll.cacheBlocks_eq (H) (r) (n) :
    m.cacheBlocks H r n = m.cacheFull H r n := by
  unfold cacheBlocks
  rcases h with hk | ⟨s, hk⟩ <;> rw [hk]

theorem AttendsToAll.getNumBlocksToAllocate_eq (n total main) :
    m.getNumBlocksToAllocate p id n [] total main false =
      .ok (cdiv n m.blockSize - (m.table id).length : ℕ) := by
  have hcount : m.numBlocksToAllocate p id n [] total false =
      .ok (cdiv n m.blockSize - (m.table id).length) := by
    unfold numBlocksToAllocate
    simp [h.getNumSkippedTokens_eq, getNumEvictableBlocks]
  unfold getNumBlocksToAllocate
  rcases h with hk | ⟨s, hk⟩
  all_goals
    rw [hk]
    simp only [hcount]
    rfl

theorem AttendsToAll.getNumBlocksToAllocate_le (p) (id) (n total main) :
    ∃ c, m.getNumBlocksToAllocate p id n [] total main true = .ok (c : ℕ) ∧
      c ≤ cdiv n m.blockSize - (m.table id).length := by
  have hcount : ∃ c, m.numBlocksToAllocate p id n [] total true = .ok c ∧
      c ≤ cdiv n m.blockSize - (m.table id).length := by
    unfold numBlocksToAllocate
    simp only [h.getNumSkippedTokens_eq, getNumEvictableBlocks, ne_eq, not_true_eq_false, if_false,
      length_nil, Nat.zero_div, drop_nil, filter_nil, Nat.zero_add, Nat.add_zero,
      Nat.zero_max]
    split
    · split
      · exact ⟨_, rfl, Nat.sub_le_sub_right (min_le_left _ _) _⟩
      · exact ⟨_, rfl, le_rfl⟩
    · split
      · exact ⟨_, rfl, Nat.sub_le_sub_right (min_le_left _ _) _⟩
      · exact ⟨_, rfl, le_rfl⟩
  obtain ⟨c, hc, hle⟩ := hcount
  refine ⟨c, ?_, hle⟩
  unfold getNumBlocksToAllocate
  rcases h with hk | ⟨s, hk⟩
  all_goals
    rw [hk]
    simp only [hc]
    rfl

end

theorem Sole.allocateBlocks (h : Sole owned null id cap m p) {n} (hn : cdiv n m.blockSize ≤ cap) :
    Succeeds (m.allocateBlocks id n) p
      (fun out p' ↦ Sole owned null id cap out.1 p' ∧ p'.config = p.config ∧
        out.1.enableCaching = m.enableCaching ∧ out.1.kvCacheSpec = m.kvCacheSpec ∧
        cdiv n m.blockSize ≤ (out.1.table id).length) := by
  obtain ⟨L, hL, hlen, hfree⟩ := h.stock
  refine .ite (fun hle ↦ ?_) fun hlt ↦ ?_
  · refine .pure ⟨⟨h.kind, h.blockSize, h.hashBlockSize, ?_, ?_, ?_, ?_, ?_⟩, rfl, rfl, rfl, ?_⟩
    all_goals dsimp only
    all_goals rw [table_setTable_self]
    · exact h.nodup
    · exact h.mem
    · exact h.cached
    · exact h.unhashed
    · exact h.stock
    · exact hle
  rw [show ((cdiv n m.blockSize : ℤ) - ((m.table id).length : ℤ)) =
    ((cdiv n m.blockSize - (m.table id).length : ℕ) : ℤ) by omega]
  have hnew := getNewBlocks_enough (n := cdiv n m.blockSize - (m.table id).length) hL (by omega)
  refine .seq (onPool_ensures (E := fun _ _ ↦ False) hnew fun _ _ he ↦ he) fun bs p' hbs ↦ .pure ?_
  obtain ⟨rfl, hL', hcfg, hhash⟩ := hbs
  have htake : (L.free.take (cdiv n m.blockSize - (m.table id).length)).length =
      cdiv n m.blockSize - (m.table id).length := length_take_of_le (by omega)
  have hcaching : p'.enableCaching = p.enableCaching := congrArg Config.enableCaching hcfg
  have hsize : p'.hashBlockSize = p.hashBlockSize := congrArg Config.hashBlockSize hcfg
  have hnodup := hL.refines.sound.nodup
  refine ⟨⟨h.kind, h.blockSize, fun hc ↦ hsize.trans (h.hashBlockSize (hcaching ▸ hc)),
    ?_, ?_, ?_, ?_, L.take _, hL', ?_, ?_⟩, hcfg, rfl, rfl, ?_⟩
  all_goals dsimp only
  all_goals rw [table_setTable_self]
  · refine nodup_append.mpr ⟨h.nodup, hnodup.sublist (take_sublist _ _), ?_⟩
    rintro b hb b' hb' rfl
    exact hfree b hb (mem_of_mem_take hb')
  · intro b hb
    rcases mem_append.mp hb with hb | hb
    · exact h.mem b hb
    · exact .inr ((hL.refines.sound.mem_free b).mp (mem_of_mem_take hb)).1
  · rw [length_append]
    exact h.cached.trans (Nat.le_add_right _ _)
  · intro i b hi hb
    rw [hhash b]
    split
    · rfl
    next hmem =>
      rw [getElem?_append] at hb
      split at hb
      · exact h.unhashed i b hi hb
      · exact absurd (mem_of_getElem? hb) hmem
  · rw [length_append, htake, Ledger.take, length_drop]
    omega
  · intro b hb hb'
    rcases mem_append.mp hb with hb | hb
    · exact hfree b hb (mem_of_mem_drop hb')
    · rw [← take_append_drop (cdiv n m.blockSize - (m.table id).length) L.free] at hnodup
      exact (nodup_append.mp hnodup).2.2 b hb b hb' rfl
  · rw [length_append, htake]
    omega

theorem Sole.cacheFull {request} (h : Sole owned null request.requestId cap m p)
    (hc : p.enableCaching = true) {n}
    (htable : n / m.blockSize ≤ (m.table request.requestId).length)
    (hhash : n / m.blockSize ≤ request.blockHashes.length) (H) :
    Succeeds (m.cacheFull H request n) p
      (fun m' p' ↦ Sole owned null request.requestId cap m' p' ∧ p'.config = p.config ∧
        m'.enableCaching = m.enableCaching ∧ m'.kvCacheSpec = m.kvCacheSpec ∧
        m'.table request.requestId = m.table request.requestId) := by
  refine .ite (fun _ ↦ .pure ⟨h, rfl, rfl, rfl, rfl⟩) fun hlt ↦ ?_
  obtain ⟨L, hL, hlen, hfree⟩ := h.stock
  have hreturns : Succeeds (cacheFullBlocks H request (m.table request.requestId)
      ((m.numCachedBlock.get? request.requestId).getD 0) (n / m.blockSize) m.blockSize
      m.kvCacheGroupId) p (fun _ _ ↦ True) := by
    rw [← h.hashBlockSize hc]
    refine cacheFullBlocks_returns h.nodup h.unhashed ?_ ?_
    all_goals rw [h.hashBlockSize hc]
    · exact htable
    · exact hhash
  have hcache := (cacheFullBlocks_stock hL h.mem hc H request
    ((m.numCachedBlock.get? request.requestId).getD 0) (n / m.blockSize) m.blockSize m.kvCacheGroupId
    (by omega)).and hreturns
  refine .seq (onPool_ensures (E := fun _ _ ↦ False) hcache fun _ _ he ↦ he.2) fun _ p' hp' ↦ .pure ?_
  obtain ⟨⟨hL', hcfg, hfiled⟩, -⟩ := hp'
  have hcaching : p'.enableCaching = p.enableCaching := congrArg Config.enableCaching hcfg
  have hsize : p'.hashBlockSize = p.hashBlockSize := congrArg Config.hashBlockSize hcfg
  have hget := Dict.get?_set_self m.numCachedBlock request.requestId (n / m.blockSize)
  refine ⟨⟨h.kind, h.blockSize, fun hc ↦ hsize.trans (h.hashBlockSize (hcaching ▸ hc)), h.nodup, h.mem,
    ?_, fun i b hi hb ↦ ?_, L, hL', hlen, hfree⟩, hcfg, rfl, rfl, rfl⟩
  · rw [hget]
    exact htable
  rw [hget, Option.getD_some] at hi
  have hb' : (m.table request.requestId)[i]? = some b := hb
  -- the block lies behind those that were cached, and occurs only once
  rw [hfiled.frame b fun hmem ↦ ?_]
  · exact h.unhashed i b (by omega) hb'
  obtain ⟨j, hj⟩ := mem_iff_getElem?.mp hmem
  rw [getElem?_drop, getElem?_take] at hj
  split at hj
  next hlt' =>
    obtain ⟨hi', hgi⟩ := List.getElem?_eq_some_iff.mp hb'
    obtain ⟨hj', hgj⟩ := List.getElem?_eq_some_iff.mp hj
    have := (List.Nodup.getElem_inj_iff h.nodup).mp (hgi.trans hgj.symm)
    omega
  · cases hj

end SingleTypeKVCacheManager

namespace KVCacheManager

open SingleTypeKVCacheManager

variable {k : KVCacheManager} {m : SingleTypeKVCacheManager} {request : Request} {a : SlotArgs}
  {cap : ℕ}

structure Serves (owned : Ref → Prop) (null : Ref) (id : ReqId) (size cap maxModelLen : ℕ)
    (k : KVCacheManager) (p : BlockPool) : Prop where
  maxModelLen : k.maxModelLen = maxModelLen
  caching : p.enableCaching = k.enableCaching
  group : ∃ m, k.singleTypeManagers = [m] ∧ m.Sole owned null id cap p ∧ m.blockSize = size

structure Plain (size maxModelLen : ℕ) (request : Request) (a : SlotArgs) : Prop where
  positive : 0 < a.numNewTokens
  noHits : a.newComputedBlocks = none ∧ a.numNewComputedTokens = 0
  noExternal : a.numExternalComputedTokens = 0
  fits : request.numTokens ≤ maxModelLen
  hashed : request.numTokens / size ≤ request.blockHashes.length

variable {size maxModelLen : ℕ}

theorem Plain.hits_eq (h : Plain size maxModelLen request a) (hk : k.singleTypeManagers = [m]) :
    a.hits k = [[]] := by
  rw [SlotArgs.hits, h.noHits.1, hk]
  rfl

theorem AttendsToAll.ne_crossAttention (h : m.AttendsToAll) : m.kind ≠ .crossAttention := by
  rcases h with hm | ⟨s, hm⟩ <;> rw [hm] <;> exact SpecKind.noConfusion

theorem sequenceFits_sole (ha : Plain size maxModelLen request a) (hk : k.singleTypeManagers = [m])
    (hm : m.AttendsToAll) (p) : ∃ fits, k.sequenceFits p request a = .ok fits ∧
      ((a.fullSequenceMustFit = true → ((cdiv (min request.numTokens k.maxModelLen) m.blockSize -
          (m.table request.requestId).length : ℕ) : ℤ) ≤ p.getNumFreeBlocks) → fits = true) := by
  unfold sequenceFits
  split
  next hfull =>
    obtain ⟨c, hc, hle⟩ := hm.getNumBlocksToAllocate_le p request.requestId
      (min request.numTokens k.maxModelLen) (a.totalComputedTokens k request)
      (min request.numTokens k.maxModelLen)
    simp only [hk, ha.hits_eq hk, getNumBlocksToAllocate, groupBlocksToAllocate,
      if_neg (AttendsToAll.ne_crossAttention hm), getElem?_cons_zero, hc]
    refine ⟨decide ((c : ℤ) + 0 ≤ p.getNumFreeBlocks), rfl, fun hfits ↦ decide_eq_true ?_⟩
    have := hfits hfull
    omega
  · exact ⟨true, rfl, fun _ ↦ rfl⟩

theorem removeSkippedBlocks_sole (hk : k.singleTypeManagers = [m]) (hm : m.AttendsToAll)
    (id) (n) : k.removeSkippedBlocks id n = pure k := by
  cases k with
  | mk maxModelLen caching coordinator managers =>
    obtain rfl : managers = [m] := hk
    simp only [removeSkippedBlocks, onEach, hm.removeSkippedBlocks_eq, pure_bind]

theorem getNumBlocksToAllocate_sole (ha : Plain size maxModelLen request a)
    (hk : k.singleTypeManagers = [m]) (hm : m.AttendsToAll) (n enc total main) :
    getNumBlocksToAllocate p request.requestId n (a.hits k) enc total main false 0
      k.singleTypeManagers = .ok (cdiv n m.blockSize - (m.table request.requestId).length : ℕ) := by
  rw [ha.hits_eq hk, hk]
  simp only [getNumBlocksToAllocate, groupBlocksToAllocate,
    if_neg (AttendsToAll.ne_crossAttention hm), getElem?_cons_zero,
    hm.getNumBlocksToAllocate_eq]
  change Except.ok (((cdiv n m.blockSize - (m.table request.requestId).length : ℕ) : ℤ) + 0) = _
  rw [Int.add_zero]

theorem Plain.enterHits_eq (ha : Plain size maxModelLen request a) :
    k.enterHits request a = pure k := by
  unfold enterHits
  rw [ha.noHits.1, ha.noExternal]
  exact if_neg (by simp)

section

variable (h : Serves owned null request.requestId size cap maxModelLen k p)
  (ha : Plain size maxModelLen request a)

include h ha

theorem Serves.takeSlots (hneed : cdiv (a.numTokensNeedSlot k request) size ≤ cap) (H) :
    Succeeds (k.takeSlots H request a) p
      (fun out p' ↦ Serves owned null request.requestId size cap maxModelLen out.1 p') := by
  obtain ⟨m, hk, hm, rfl⟩ := h.group
  unfold takeSlots
  rw [ha.enterHits_eq, pure_bind]
  simp only [allocateNewBlocks, hk, onEach, if_neg (AttendsToAll.ne_crossAttention hm.kind),
    hm.kind.allocateNewBlocks_eq, bind_assoc, pure_bind]
  refine .seq (hm.allocateBlocks hneed) fun out p1 ho ↦ ?_
  obtain ⟨hm1, hcfg1, hc1, hspec1, hlen⟩ := ho
  have hsize : out.1.blockSize = m.blockSize := congrArg KVCacheSpec.blockSize hspec1
  have hcaching : p1.enableCaching = k.enableCaching :=
    (congrArg Config.enableCaching hcfg1).trans h.caching
  refine .ite (fun _ ↦ .pure ⟨h.maxModelLen, hcaching, out.1, rfl, hm1, hsize⟩) fun hc ↦ ?_
  have hon : p1.enableCaching = true := by
    rw [hcaching]
    by_contra hoff
    exact hc (.inl hoff)
  simp only [cacheBlocks, onEach, hm1.kind.cacheBlocks_eq, bind_assoc, pure_bind]
  have hmin : min (a.totalComputedTokens k request + a.numNewTokens) request.numTokens ≤
      a.numTokensNeedSlot k request := by
    have := ha.fits
    have := h.maxModelLen
    simp only [SlotArgs.numTokensNeedSlot, SlotArgs.numTokensMainModel]
    omega
  refine .seq (hm1.cacheFull hon ?_ ?_ H) fun m2 p2 ho ↦ ?_
  · rw [hsize]
    exact (div_le_cdiv hmin _).trans hlen
  · rw [hsize]
    exact (Nat.div_le_div_right (min_le_right _ _)).trans ha.hashed
  obtain ⟨hm2, hcfg2, hc2, hspec2, -⟩ := ho
  refine .pure ⟨h.maxModelLen, ?_, m2, rfl, hm2, ?_⟩
  · exact (congrArg Config.enableCaching hcfg2).trans hcaching
  · exact (congrArg KVCacheSpec.blockSize hspec2).trans hsize

theorem Serves.allocateSlots (hneed : cdiv (a.numTokensNeedSlot k request) size ≤ cap)
    (hfull : a.fullSequenceMustFit = true →
      cdiv (min request.numTokens k.maxModelLen) size ≤ cap) (H) :
    Succeeds (k.allocateSlots H request a) p (fun out p' ↦ out.2.isSome = true ∧
        Serves owned null request.requestId size cap maxModelLen out.1 p') := by
  obtain ⟨m, hk, hm, rfl⟩ := h.group
  obtain ⟨hfree, hle⟩ := hm.numFree
  refine .ite (fun hno ↦ absurd hno.1 ha.positive.ne') fun _ ↦ .get_bind ?_
  obtain ⟨fits, hfits, hall⟩ := sequenceFits_sole ha hk hm.kind p
  obtain rfl := hall fun hmust ↦ by
    have := hfull hmust
    rw [hfree]
    omega
  rw [hfits]
  rw [removeSkippedBlocks_sole hk hm.kind, pure_bind]
  refine .get_bind ?_
  rw [getNumBlocksToAllocate_sole ha hk hm.kind]
  refine .ite (fun hgt ↦ absurd hgt (by rw [hfree]; omega)) fun _ ↦ ?_
  exact .seq (h.takeSlots ha hneed H) fun out p' ho ↦ .pure ⟨rfl, ho⟩

theorem Serves.allocateSlots_short (hneed : cap < cdiv (a.numTokensNeedSlot k request) size) (H) :
    Succeeds (k.allocateSlots H request a) p (fun out _ ↦ out.2 = none) := by
  obtain ⟨m, hk, hm, rfl⟩ := h.group
  obtain ⟨hfree, hle⟩ := hm.numFree
  obtain ⟨fits, hfits, -⟩ := sequenceFits_sole ha hk hm.kind p
  refine .ite (fun hno ↦ absurd hno.1 ha.positive.ne') fun _ ↦ .get_bind ?_
  rw [hfits]
  cases fits with
  | false => exact .pure rfl
  | true =>
    rw [removeSkippedBlocks_sole hk hm.kind, pure_bind]
    refine .get_bind ?_
    rw [getNumBlocksToAllocate_sole ha hk hm.kind]
    exact .ite (fun _ ↦ .pure rfl) fun hgt ↦ absurd hgt (by rw [hfree]; omega)

end

def reservedBlocks (spec : KVCacheSpec) : ℕ :=
  match spec.kind with
  | .sinkFullAttention sinkLen => sinkLen / spec.blockSize
  | .fullAttention | .slidingWindow _ | .chunkedLocalAttention _ | .mamba .. | .crossAttention => 0

theorem getManager_reserved (spec) (i) (caching) (tokens len) (p) :
    Ensures (getManagerForKvCacheSpec spec i caching tokens len) p
      (fun m _ ↦ m.numCachedBlock = .empty ∧ m.sinkBlocks.length = reservedBlocks spec) := by
  unfold getManagerForKvCacheSpec
  split
  next sinkLen hkind =>
    refine .ite (fun _ ↦ .throw trivial) fun _ ↦ ?_
    have hpop : Ensures (BlockPool.onQueue (FreeKVCacheBlockQueue.popleftN
        (sinkLen / spec.blockSize : ℕ))) p (fun bs _ ↦ bs.length = sinkLen / spec.blockSize) :=
          onQueue_length _ p
    refine .seq (onPool_returns hpop) fun _ _ hlen ↦ .pure ⟨rfl, ?_⟩
    rw [reservedBlocks, hkind]
    exact hlen
  all_goals next hkind =>
    refine .pure ⟨rfl, ?_⟩
    rw [reservedBlocks, hkind]
    rfl

variable {cfg : KVCacheManagerConfig} {g : KVCacheGroupSpec}

theorem init_serves (hg : cfg.kvCacheConfig.kvCacheGroups = [g])
    (hkind : g.kvCacheSpec.kind = .fullAttention ∨ ∃ s, g.kvCacheSpec.kind = .sinkFullAttention s)
    (hsize : 0 < g.kvCacheSpec.blockSize) (h : init cfg = .ok (k, p)) (id) :
    1 + reservedBlocks g.kvCacheSpec ≤ cfg.kvCacheConfig.numBlocks ∧
      ∃ owned, Serves owned (.blk 0) id g.kvCacheSpec.blockSize
        (cfg.kvCacheConfig.numBlocks - 1 - reservedBlocks g.kvCacheSpec) cfg.maxModelLen k p := by
  unfold init at h
  split at h
  · cases h
  next p0 hp0 =>
    obtain ⟨⟨free0, hstart0⟩, hcaching, hhash⟩ := init_start hp0
    split at h
    · cases h
    · cases h
    next ms p1 coordinator hms hcoord =>
      cases h
      rw [hg] at hms
      have hnew : Ensures (initManagers cfg 0 [g]) p0 (fun ms p' ↦ ∃ m, ms = [m] ∧
          New g 0 cfg.enableCaching m ∧ p'.config = p0.config ∧ (m.numCachedBlock = .empty ∧
          m.sinkBlocks.length = reservedBlocks g.kvCacheSpec) ∧
          ∃ free, Start cfg.kvCacheConfig.numBlocks m.sinkBlocks free p') := by
        refine .seq ((getManager_start hstart0 g 0 _ _ _).and
          (getManager_reserved g.kvCacheSpec 0 _ _ _ p0)) fun m p' hm ↦ ?_
        obtain ⟨⟨hm, hcfg, hstart⟩, hempty⟩ := hm
        rw [nil_append] at hstart
        exact .bind (.pure (.pure ⟨m, rfl, hm, hcfg, hempty, hstart⟩))
      obtain ⟨m, rfl, hm, hcfg, ⟨hempty, hlen⟩, free, hstart⟩ := hnew.ok hms
      have htable := hm.table_eq id
      obtain ⟨L, hL, hheld⟩ := hstart.held.stock
      have hfree : L.free.length = free.length := by
        have := hL.refines.queue.count
        have := hstart.queue.count
        omega
      have hcount := congrArg length hstart.split
      rw [length_append, length_map, length_range', hlen] at hcount
      have hpos := hstart.pos
      refine ⟨by omega, Usable cfg.kvCacheConfig.numBlocks m.sinkBlocks, rfl,
        (congrArg Config.enableCaching hcfg).trans hcaching, m, rfl, ?_,
        congrArg KVCacheSpec.blockSize hm.spec⟩
      refine ⟨?_, ?_, fun hc ↦ ?_, ?_, ?_, ?_, ?_, L, hL, ?_, ?_⟩
      · unfold AttendsToAll kind
        rwa [hm.spec]
      · rwa [blockSize, hm.spec]
      · have hon : cfg.enableCaching = true :=
          (hcaching.symm.trans (congrArg Config.enableCaching hcfg).symm).trans hc
        have hcache : g.kvCacheSpec.blockSize = cfg.hashBlockSize := by
          unfold getKvCacheCoordinator at hcoord
          simp only [hon, if_true, hg] at hcoord
          split at hcoord
          next heq => exact heq.1
          · cases hcoord
        rw [blockSize, hm.spec, hcache]
        exact (congrArg Config.hashBlockSize hcfg).trans hhash
      all_goals rw [htable]
      · exact nodup_nil
      · simp
      · simp [hempty]
      · simp
      · rw [length_nil]
        omega
      · simp

end KVCacheManager

end VllmEngine.Core

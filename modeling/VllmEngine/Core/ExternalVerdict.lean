import VllmEngine.Core.ExternalSurvival
import VllmEngine.Core.KVCacheCounts

namespace VllmEngine.Core.KVCacheManager

open Lib BlockHash BlockPool SingleTypeKVCacheManager List Option Order

variable {owned : Ref → Prop} {null : Ref} {p p' : BlockPool} {L : Ledger Ref}
  {k k' : KVCacheManager} {ms ms' : List SingleTypeKVCacheManager} {hits : List (List Ref)}
  {id : ReqId} {numLocal numExternal : ℕ}

/-- The hits that are not skipped are in the tables where they were found, carry the hash they were
found by, and are in no other place. -/
def Survive (null : Ref) (id : ReqId) (total : ℕ) (ms : List SingleTypeKVCacheManager)
    (hits : List (List Ref)) (p : BlockPool) (ms' : List SingleTypeKVCacheManager)
    (p' : BlockPool) : Prop :=
  ∀ (g : ℕ) m m' l (i : ℕ) b, ms[g]? = some m → ms'[g]? = some m' → hits[g]? = some l →
    m.skippedBlocks total ≤ i → l[i]? = some b →
    (m'.table id)[i]? = some b ∧ (b ≠ null → p'.blockHash b = p.blockHash b ∧
        ∀ (g1 : ℕ) m1 l1 (j : ℕ), ms'[g1]? = some m1 → hits[g1]? = some l1 →
          (m1.table id)[j]? = some b → l1[j]? = some b)

def Keyed (null : Ref) (p : BlockPool) (hits : List (List Ref)) : Prop :=
  ∀ (g : ℕ) l b, hits[g]? = some l → b ∈ l → b = null ∨
    ∃ x, p.blockHash b = some (makeBlockHashWithGroupId x g)

variable {l : List Ref} {b : Ref} {m : SingleTypeKVCacheManager} {c : HybridKVCacheCoordinator}
  {blockHashes : List BlockHash}

theorem Keyed.group_eq (h : Keyed null p hits) (hfits : hits.length < 2 ^ 32) {g g' : ℕ}
    {l'} (hb : b ≠ null) (hl : hits[g]? = some l) (hl' : hits[g']? = some l')
    (hmem : b ∈ l) (hmem' : b ∈ l') : g = g' := by
  obtain ⟨x, hx⟩ := (h g l b hl hmem).resolve_left hb
  obtain ⟨x', hx'⟩ := (h g' l' b hl' hmem').resolve_left hb
  have hlt := (List.getElem?_eq_some_iff.mp hl).1
  have hlt' := (List.getElem?_eq_some_iff.mp hl').1
  exact (make_inj (by omega) (by omega) (some.inj (hx.symm.trans hx'))).2

theorem orders_getElem? {j : ℕ} {o} (h : (orders null numLocal numExternal ms hits)[j]? = some o) :
    ∃ m l, ms[j]? = some m ∧ hits[j]? = some l ∧ o = m.order null l numLocal numExternal := by
  obtain ⟨m, l, hm, hl, rfl⟩ := getElem?_zipWith_eq_some.mp h
  exact ⟨m, l, hm, hl, rfl⟩

theorem mem_picks : b ∈ (m.order null l numLocal numExternal).picks ↔
      m.kind ≠ .crossAttention ∧ b ≠ null ∧ b ∈ l.drop (m.skippedBlocks (numLocal + numExternal)) := by
  unfold order
  split
  next hk => simp [hk]
  next hk => simp [hk, and_comm]

theorem orders_apart (h : Keyed null p hits) (hfits : hits.length < 2 ^ 32) :
    Order.Apart (orders null numLocal numExternal ms hits) := by
  apply apart_of_getElem?
  intro i j o o' hij ho ho' b hb hb'
  obtain ⟨m, l, -, hl, rfl⟩ := orders_getElem? ho
  obtain ⟨m', l', -, hl', rfl⟩ := orders_getElem? ho'
  obtain ⟨-, hn, hmem⟩ := mem_picks.mp hb
  obtain ⟨-, -, hmem'⟩ := mem_picks.mp hb'
  have := h.group_eq hfits hn hl hl' (mem_of_mem_drop hmem) (mem_of_mem_drop hmem')
  omega

theorem getElem?_tableOf {fresh} {j : ℕ} (hb : b ≠ null) (hfresh : b ∉ fresh)
    (h : (m.tableOf null l numLocal numExternal fresh)[j]? = some b) : l[j]? = some b := by
  unfold tableOf at h
  split at h
  · simp at h
  rw [getElem?_append] at h
  split at h
  · exact getElem?_padded h hb
  · exact absurd (mem_of_getElem? h) hfresh

theorem tableOf_getElem? (null) (fresh) {i} (hkind : m.kind ≠ .crossAttention)
    (hi : m.skippedBlocks (numLocal + numExternal) ≤ i)
    (hb : l[i]? = some b) : (m.tableOf null l numLocal numExternal fresh)[i]? = some b := by
  have hlt := (List.getElem?_eq_some_iff.mp hb).1
  rw [tableOf, if_neg hkind, append_assoc, getElem?_append_right
    (by simpa using hi), length_replicate, getElem?_append_left (by simp; omega),
    getElem?_drop, Nat.add_sub_cancel' hi, hb]

theorem Finished.entered {served}
    (hf : Finished null id numLocal numExternal ms hits served p ms' p')
    (hserved : served.length = (orders null numLocal numExternal ms hits).length) {g : ℕ}
    {m'} (hm' : ms'[g]? = some m') :
    ∃ m l fresh ext, ms[g]? = some m ∧ hits[g]? = some l ∧ served[g]? = some fresh ∧
      m'.table id = m.tableOf null l numLocal numExternal fresh ++ ext ∧
      ∀ b ∈ ext, b ≠ null → ∀ (j1 : ℕ) m1 l1 fresh1, ms[j1]? = some m1 → hits[j1]? = some l1 →
        served[j1]? = some fresh1 → b ∉ m1.tableOf null l1 numLocal numExternal fresh1 := by
  have hlt := (List.getElem?_eq_some_iff.mp hm').1
  rw [hf.length] at hlt
  have hlt' := hlt.trans_le hf.enough
  have hlt'' : g < served.length := by
    rw [hserved, orders, length_zipWith]
    omega
  obtain ⟨m'', ext, hm'', htable, hext⟩ := hf.tables g ms[g] hits[g] served[g]
    (getElem?_eq_getElem hlt) (getElem?_eq_getElem hlt') (getElem?_eq_getElem hlt'')
  obtain rfl := some.inj (hm'.symm.trans hm'')
  exact ⟨_, _, _, ext, getElem?_eq_getElem hlt, getElem?_eq_getElem hlt',
    getElem?_eq_getElem hlt'', htable, hext⟩

section

variable
  (hf : Finished null id numLocal numExternal ms hits
    (serve (orders null numLocal numExternal ms hits) L.free) p ms' p')
  (hkeys : Keyed null p hits)

include hf hkeys

theorem Finished.survive
    (hres : Order.Respected (orders null numLocal numExternal ms hits) L.free) :
    Survive null id (numLocal + numExternal) ms hits p ms' p' := by
  intro g m m' l i b hm hm' hl hi hb
  obtain ⟨m0, l0, fresh, ext, hm₀, hl0, hfresh, htable, -⟩ := hf.entered (serve_length _ _) hm'
  obtain rfl := some.inj (hm.symm.trans hm₀)
  obtain rfl := some.inj (hl.symm.trans hl0)
  have hkind : m.kind ≠ .crossAttention := by
    intro hk
    simp [hf.cross g m l hm hl hk] at hb
  have hat := tableOf_getElem? null fresh hkind hi hb
  refine ⟨?_, fun hn ↦ ?_⟩
  · rw [htable, List.getElem?_append_left (List.getElem?_eq_some_iff.mp hat).1, hat]
  have hpick : b ∈ picked (orders null numLocal numExternal ms hits) := by
    refine mem_flatMap.mpr ⟨m.order null l numLocal numExternal, ?_, mem_picks.mpr ⟨hkind, hn, ?_⟩⟩
    · exact mem_of_getElem? (getElem?_zipWith_eq_some.mpr ⟨m, l, hm, hl, rfl⟩)
    · apply mem_of_getElem?
      rw [getElem?_drop, Nat.add_sub_cancel' hi, hb]
  have hnot : ∀ fresh' ∈ serve (orders null numLocal numExternal ms hits) L.free, b ∉ fresh' :=
    fun fresh' hf' ↦ hres.not_mem_serve hpick hf'
  refine ⟨?_, fun g1 m1 l1 j hm1 hl1 hj ↦ ?_⟩
  · obtain ⟨x, hx⟩ := (hkeys g l b hl (mem_of_getElem? hb)).resolve_left hn
    rw [hx]
    exact hf.hashes g m l fresh hm hl hfresh b (mem_of_getElem? hat) hn hnot _ hx
  obtain ⟨m2, l2, fresh2, ext₂, hm2, hl2, hfresh2, htable2, hext2⟩ :=
    hf.entered (serve_length _ _) hm1
  obtain rfl := some.inj (hl1.symm.trans hl2)
  rw [htable2, getElem?_append] at hj
  split at hj
  · exact getElem?_tableOf hn (hnot fresh2 (mem_of_getElem? hfresh2)) hj
  · exact absurd (mem_of_getElem? hat) (hext2 b (mem_of_getElem? hj) hn g m l fresh hm hl hfresh)

theorem Finished.respected (hfits : hits.length < 2 ^ 32)
    (hsurv : Survive null id (numLocal + numExternal) ms hits p ms' p') :
    Order.Respected (orders null numLocal numExternal ms hits) L.free := by
  apply respected_of_not_mem
  intro i j o fresh hij ho hfresh b hb hmem
  obtain ⟨m, l, hm, hl, rfl⟩ := orders_getElem? ho
  obtain ⟨hkind, hn, hdrop⟩ := mem_picks.mp hb
  obtain ⟨n, hidx⟩ := mem_iff_getElem?.mp hdrop
  rw [getElem?_drop] at hidx
  have hexists : ∀ (i : ℕ) m, ms[i]? = some m → ∃ m', ms'[i]? = some m' := by
    intro i m hm
    have := (List.getElem?_eq_some_iff.mp hm).1
    exact ⟨_, getElem?_eq_getElem (hf.length ▸ this)⟩
  obtain ⟨m', hm'⟩ := hexists j m hm
  obtain ⟨-, hrest⟩ := hsurv j m m' l _ b hm hm' hl (Nat.le_add_right _ _) hidx
  -- the group that was served `b` lists it, though it is not among its hits
  have hi : i < (orders null numLocal numExternal ms hits).length := by
    have := (List.getElem?_eq_some_iff.mp hfresh).1
    rwa [serve_length] at this
  obtain ⟨m1, l1, hm1, hl1, ho1⟩ := orders_getElem? (getElem?_eq_getElem hi)
  obtain ⟨m1', hm1'⟩ := hexists i m1 hm1
  obtain ⟨m2, l2, fresh2, ext, hm2, hl2, hfresh2, htable, -⟩ :=
    hf.entered (serve_length _ _) hm1'
  obtain rfl := some.inj (hm1.symm.trans hm2)
  obtain rfl := some.inj (hl1.symm.trans hl2)
  obtain rfl := some.inj (hfresh.symm.trans hfresh2)
  have hkind1 : m1.kind ≠ .crossAttention := by
    intro hk
    have hle := length_le_fresh (getElem?_eq_getElem hi) hfresh
    rw [ho1, order, if_pos hk, Nat.le_zero, length_eq_zero_iff] at hle
    simp [hle] at hmem
  have hlisted : b ∈ m1'.table id := by
    rw [htable, tableOf, if_neg hkind1]
    simp [hmem]
  obtain ⟨n', hn'⟩ := mem_iff_getElem?.mp hlisted
  have hhit := (hrest hn).2 i m1' l1 n' hm1' hl1 hn'
  have := hkeys.group_eq hfits hn hl hl1 (mem_of_mem_drop hdrop) (mem_of_getElem? hhit)
  omega

end

theorem getComputedBlocks_find {request n}
    (hget : k.getComputedBlocks p request = .ok (some hits, n)) :
    k.enableCaching = true ∧
      k.findLongestCacheHit p request.blockHashes (request.numTokens - 1) = .ok (hits, n) := by
  unfold getComputedBlocks at hget
  split at hget
  · simp at hget
  next hon =>
    split at hget
    · cases hget
    next blocks n' hfind =>
      simp only [Except.ok.injEq, Prod.mk.injEq, createKvCacheBlocks] at hget
      split at hget
      · obtain ⟨hblocks, rfl⟩ := hget
        cases hblocks
        simp only [not_or, not_not] at hon
        exact ⟨hon.1, hfind⟩
      · simp at hget

theorem findLongestCacheHit_length
    {maxLen n} (h : c.findLongestCacheHit p blockHashes maxLen = .ok (hits, n)) :
    hits.length = c.kvCacheGroups.length := by
  unfold HybridKVCacheCoordinator.findLongestCacheHit at h
  split at h
  · cases h
  · cases h
    simp

theorem findLongestCacheHit_keyed
    {maxLen n} (hidx : Indexed p) (h : c.findLongestCacheHit p blockHashes maxLen = .ok (hits, n)) :
    Keyed p.nullBlock p hits := by
  intro g l b hl hb
  obtain ⟨i, hi⟩ := mem_iff_getElem?.mp hb
  have hlt := (List.getElem?_eq_some_iff.mp hl).1
  rw [findLongestCacheHit_length h] at hlt
  refine (HybridKVCacheCoordinator.findLongestCacheHit_fromCache h (getElem?_eq_getElem hlt) hl
    hi).imp_right fun hx ↦ ?_
  obtain ⟨x, -, -, hone⟩ := hx
  exact ⟨x, (hidx.stored _ b).mp (BlockHashToBlockMap.stored_of_getOneBlock hone)⟩

theorem getNumSkippedTokens_le (hwindow : m.kind ≠ .slidingWindow 0)
    (n) : m.getNumSkippedTokens n ≤ n := by
  unfold getNumSkippedTokens
  split
  · exact Nat.zero_le n
  · exact Nat.zero_le n
  · exact Nat.zero_le n
  next window hkind =>
    have : window ≠ 0 := by
      rintro rfl
      exact hwindow hkind
    omega
  · exact Nat.div_mul_le_self n _
  · exact Nat.sub_le n 1

/-- For a new request with local hits and external tokens, all hits survive `allocate_slots` exactly
when each has before it, in the free queue, as many blocks that are no hits as the groups before its
own take for external tokens. -/
theorem external_hits_survive_iff {c : HybridKVCacheCoordinator} (h : Stock owned null p L)
    (hcaching : p.enableCaching = k.enableCaching) (hm : Matches k) (hc : k.coordinator = .hybrid c)
    (hwindow : ∀ g ∈ c.kvCacheGroups, g.kvCacheSpec.kind ≠ .slidingWindow 0) {request : Request}
    (hnew : ∀ m ∈ k.singleTypeManagers, Absent m request.requestId) {a : SlotArgs}
    (hget : k.getComputedBlocks p request = .ok (a.newComputedBlocks, a.numNewComputedTokens))
    (hhits : a.newComputedBlocks = some hits)
    (hcoh : c.Coherent (request.numTokens - 1) (hits, a.numNewComputedTokens))
    (hext : 0 < a.numExternalComputedTokens) {H : Hashing} {blocks : KVCacheBlocks}
    (hrun : k.allocateSlots H request a p = .ok (k', some blocks) p') :
    Survive p.nullBlock request.requestId
        (a.numLocalComputedTokens request + a.numExternalComputedTokens) k.singleTypeManagers hits p
        k'.singleTypeManagers p' ↔
      let os := orders p.nullBlock (a.numLocalComputedTokens request) a.numExternalComputedTokens
        k.singleTypeManagers hits
      ∀ (g : ℕ) o, os[g]? = some o → ∀ b ∈ o.picks, b ∈ L.free →
        ((os.take g).map fresh).sum ≤ ahead os L.free b := by
  rw [hhits] at hget
  obtain ⟨hon, hfind⟩ := getComputedBlocks_find hget
  have hspec : ∀ (g : ℕ) m, k.singleTypeManagers[g]? = some m →
      ∃ s, c.kvCacheGroups[g]? = some s ∧ s.kvCacheSpec = m.kvCacheSpec := by
    intro g m hg
    have := hm.spec g m hg
    simpa only [hc] using this
  have hfind' : c.findLongestCacheHit p request.blockHashes (request.numTokens - 1) =
      .ok (hits, a.numNewComputedTokens) := by
    unfold findLongestCacheHit at hfind
    simpa only [hc] using hfind
  have hkeys := findLongestCacheHit_keyed h.indexed hfind'
  have hfits : hits.length < 2 ^ 32 := by
    rw [findLongestCacheHit_length hfind']
    exact c.group_ids_fit
  have howned : ∀ l ∈ hits, ∀ b ∈ l, b = p.nullBlock ∨ owned b := by
    intro l hl b hb
    obtain ⟨g, hg⟩ := mem_iff_getElem?.mp hl
    refine (hkeys g l b hg hb).imp_right fun hx ↦ h.hashed b ?_
    obtain ⟨x, hx⟩ := hx
    simp [hx]
  have hfit : ∀ (j : ℕ) m l, k.singleTypeManagers[j]? = some m → hits[j]? = some l →
      max (m.skippedBlocks (a.numLocalComputedTokens request + a.numExternalComputedTokens)) l.length ≤
        cdiv (a.numLocalComputedTokens request + a.numExternalComputedTokens) m.blockSize := by
    intro j m l hj hl
    obtain ⟨s, hs, heq⟩ := hspec j m hj
    have hpos : 0 < m.blockSize := by
      rw [blockSize, ← heq]
      exact c.blockSize_pos s (mem_of_getElem? hs)
    have hkind : m.kind ≠ .slidingWindow 0 := by
      rw [kind, ← heq]
      exact hwindow s (mem_of_getElem? hs)
    obtain ⟨l', hl', hlen⟩ := hcoh.blocks j s hs
    obtain rfl := some.inj (hl.symm.trans hl')
    rw [heq] at hlen
    refine max_le (div_le_cdiv (getNumSkippedTokens_le hkind _) _) ?_
    rw [← Nat.mul_div_cancel l.length hpos]
    apply div_le_cdiv
    simp only [SlotArgs.numLocalComputedTokens]
    change l.length * m.blockSize = a.numNewComputedTokens at hlen
    omega
  rw [← h.nullBlock] at h
  have hf := (allocateSlots_finished h (fun hc ↦ hcaching.trans hc) hnew hext hhits howned hfit H).ok hrun rfl
  rw [← respected_iff_ahead (orders_apart hkeys hfits)]
  exact ⟨hf.respected hkeys hfits, hf.survive hkeys⟩

def twoGroups (numBlocks : ℕ) : KVCacheManagerConfig where
  kvCacheConfig := ⟨numBlocks, [⟨⟨.fullAttention, 1, 0⟩, false⟩, ⟨⟨.slidingWindow 8, 1, 0⟩, false⟩]⟩
  maxModelLen := 16
  hashBlockSize := 1

def firstRequest : Request := { requestId := "a", allTokenIds := [5, 6], blockHashes := [[4], [5]] }

def otherRequest : Request := { requestId := "c", allTokenIds := [7, 8], blockHashes := [[8], [9]] }

def lateRequest : Request :=
  { requestId := "b", allTokenIds := [5, 6, 9, 10], blockHashes := [[4], [5], [6], [7]] }

def IsListed (r : Request) : Prop := r ∈ [firstRequest, otherRequest, lateRequest]

theorem isListed_distinct (numBlocks) : ∀ g ∈ (twoGroups numBlocks).kvCacheConfig.kvCacheGroups,
    Distinct IsListed (twoGroups numBlocks).hashBlockSize g.kvCacheSpec.blockSize := by
  have hlisted : ∀ r ∈ [firstRequest, otherRequest, lateRequest], ∀ x ∈ r.blockHashes.zipIdx,
      x.2 = (x.1.head?.getD 0).toNat % 4 := by
    decide
  intro g hg r r' i i' h hr hr' _ _ hi hi'
  have hsize : g.kvCacheSpec.blockSize = 1 := by
    rcases mem_pair.mp hg with rfl | rfl <;> rfl
  have hsame : (twoGroups numBlocks).hashBlockSize = 1 := rfl
  rw [hsize, hsame, hashAt, if_pos rfl] at hi hi'
  exact (hlisted r hr (h, i) (mem_zipIdx_iff_getElem?.mpr hi)).trans
    (hlisted r' hr' (h, i') (mem_zipIdx_iff_getElem?.mpr hi')).symm

def comeAndGo : List Call :=
  [.newRequest firstRequest ⟨2, 0, 0, false⟩, .newRequest otherRequest ⟨2, 0, 0, false⟩, .free "a",
    .free "c"]

def lateArgs (hits : List (List Ref)) : SlotArgs where
  numNewTokens := 1
  numNewComputedTokens := 2
  newComputedBlocks := some hits
  numExternalComputedTokens := 1

def lateRun (numBlocks : ℕ) :
    Option ((KVCacheManager × BlockPool) × List (List Ref) × (KVCacheManager × KVCacheBlocks) × BlockPool) := do
  let (k, p) ← runFrom byteHashing (twoGroups numBlocks) comeAndGo
  match k.getComputedBlocks p lateRequest with
  | .ok (some hits, 2) =>
    match k.allocateSlots byteHashing lateRequest (lateArgs hits) p with
    | .ok (k', some blocks) p' => some ((k, p), hits, (k', blocks), p')
    | _ => none
  | _ => none

theorem lateRun_eq {numBlocks k k' p p' hits blocks}
    (h : lateRun numBlocks = some ((k, p), hits, (k', blocks), p')) :
    Reached byteHashing IsListed (twoGroups numBlocks) k p ∧
      k.getComputedBlocks p lateRequest = .ok (some hits, 2) ∧
      k.allocateSlots byteHashing lateRequest (lateArgs hits) p = .ok (k', some blocks) p' := by
  obtain ⟨⟨k0, p0⟩, hrun, h⟩ := bind_eq_some_iff.mp h
  dsimp only at h
  split at h
  next hits0 hget =>
    split at h
    next k1 blocks1 p1 halloc =>
      obtain ⟨⟨rfl, rfl⟩, rfl, ⟨rfl, rfl⟩, rfl⟩ := h
      refine ⟨reached_of_runFrom (isListed_distinct numBlocks) ?_ ?_ hrun, hget, halloc⟩
      · simp [twoGroups]
      · simp [comeAndGo, Call.Of, IsListed]
    · cases h
  · cases h

/-- The block that the first group takes for the external token is a hit of the second. -/
theorem external_block_is_later_hit :
    ∃ k p hits k' blocks p', Reached byteHashing IsListed (twoGroups 9) k p ∧
      k.getComputedBlocks p lateRequest = .ok (some hits, 2) ∧
      k.allocateSlots byteHashing lateRequest (lateArgs hits) p = .ok (k', some blocks) p' ∧
      ¬ Survive p.nullBlock "b" 3 k.singleTypeManagers hits p k'.singleTypeManagers p' := by
  have hrun : ∃ out ∈ lateRun 9, out.2.1 = [[.blk 1, .blk 2], [.blk 3, .blk 4]] ∧
      out.1.1.singleTypeManagers[1]?.map (·.skippedBlocks 3) = some 0 ∧
      out.2.2.1.1.blockAt 0 "b" 2 = some (.blk 4) ∧ out.2.2.1.1.blockAt 1 "b" 1 = some (.blk 4) ∧
      out.1.2.nullBlock = .blk 0 := by
    decide +kernel
  obtain ⟨⟨⟨k, p⟩, hits, ⟨k', blocks⟩, p'⟩, hout, hhits, hskip, hfresh, hhit, hnull⟩ := hrun
  obtain ⟨hreached, hget, halloc⟩ := lateRun_eq hout
  refine ⟨k, p, hits, k', blocks, p', hreached, hget, halloc, fun hsurv ↦ ?_⟩
  obtain ⟨m, hm, hm0⟩ := map_eq_some_iff.mp hskip
  obtain ⟨m0, hm₀, hj⟩ := blockAt_eq_some.mp hfresh
  obtain ⟨m1, hm1, -⟩ := blockAt_eq_some.mp hhit
  subst hhits
  have hne : Ref.blk 4 ≠ p.nullBlock := by
    rw [hnull]
    decide
  have hlisted := ((hsurv 1 m m1 _ 1 (.blk 4) hm hm1 rfl (by omega) rfl).2 hne).2 0 m0 _ 2 hm₀ rfl hj
  cases hlisted

def twoGroupsCoordinator : HybridKVCacheCoordinator where
  kvCacheGroups := [⟨⟨.fullAttention, 1, 0⟩, false⟩, ⟨⟨.slidingWindow 8, 1, 0⟩, false⟩]
  useEagle := false
  hashBlockSize := 1
  hashBlockSize_pos := by decide
  blockSize_pos := by decide
  divisible := by decide
  two_attention_groups := by decide
  group_ids_fit := by decide

theorem twoGroups_hybrid {numBlocks} (h : Reached byteHashing IsListed (twoGroups numBlocks) k p) :
    k.coordinator = .hybrid twoGroupsCoordinator := by
  have hcoord : getKvCacheCoordinator (twoGroups numBlocks) = .ok (.hybrid twoGroupsCoordinator) := by
    exact dif_pos ⟨⟨twoGroupsCoordinator.hashBlockSize_pos, twoGroupsCoordinator.blockSize_pos⟩,
      twoGroupsCoordinator.divisible, twoGroupsCoordinator.two_attention_groups,
      twoGroupsCoordinator.group_ids_fit⟩
  exact Except.ok.inj ((h.coordinator_eq (isListed_distinct numBlocks)).symm.trans hcoord)

theorem external_hits_survive_in_larger_pool :
    ∃ k p hits k' blocks p', Reached byteHashing IsListed (twoGroups 20) k p ∧
      k.getComputedBlocks p lateRequest = .ok (some hits, 2) ∧
      k.allocateSlots byteHashing lateRequest (lateArgs hits) p = .ok (k', some blocks) p' ∧
      Survive p.nullBlock "b" 3 k.singleTypeManagers hits p k'.singleTypeManagers p' := by
  have hrun : ∃ out ∈ lateRun 20, out.2.1 = [[.blk 1, .blk 2], [.blk 3, .blk 4]] ∧
      (∀ m ∈ out.1.1.singleTypeManagers, m.table "b" = [] ∧ m.numCachedBlock.get? "b" = none ∧
        m.lastStateBlockIdx.get? "b" = none ∧ "b" ∉ m.allocatedBlockReqs) ∧
      orders out.1.2.nullBlock 2 1 out.1.1.singleTypeManagers out.2.1 =
        [⟨[.blk 1, .blk 2], 1⟩, ⟨[.blk 3, .blk 4], 1⟩] ∧
      out.1.2.freeBlockQueue.numFreeBlocks = 19 ∧
      out.1.2.freeBlockQueue.getAllFreeBlocks 20 = .ok ((range' 9 11).map .blk ++
        [.blk 2, .blk 1, .blk 4, .blk 3, .blk 6, .blk 5, .blk 8, .blk 7]) := by
    decide +kernel
  obtain ⟨⟨⟨k, p⟩, hits, ⟨k', blocks⟩, p'⟩, hout, hhits, habsent, horders, hcount, hread⟩ := hrun
  dsimp only at hhits habsent horders hcount hread
  obtain ⟨hreached, hget, halloc⟩ := lateRun_eq hout
  have hacc := hreached.accounted (isListed_distinct 20)
  obtain ⟨L, hL, -⟩ := hacc.sane.joint.held.stock
  have hlen : L.free.length < 20 := by
    have := hL.refines.queue.count
    omega
  have hfree : L.free = _ := Except.ok.inj
    ((hL.refines.queue.getAllFreeBlocks_eq 20 hlen).symm.trans hread)
  refine ⟨k, p, hits, k', blocks, p', hreached, hget, halloc, ?_⟩
  refine (external_hits_survive_iff hL hacc.sane.caching hacc.coordinated
    (twoGroups_hybrid hreached) (by decide) (fun m hm ↦ ?_) hget rfl ?_
    one_pos halloc).mpr ?_
  · obtain ⟨h1, h2, h3, h4⟩ := habsent m hm
    exact ⟨h1, h2, h3, h4⟩
  · subst hhits
    refine ⟨by decide, by decide, fun gid g hg ↦ ?_⟩
    match gid, hg with
    | 0, hg =>
      cases hg
      exact ⟨_, rfl, rfl⟩
    | 1, hg =>
      cases hg
      exact ⟨_, rfl, rfl⟩
    | n + 2, hg => cases hg
  · have horders : orders p.nullBlock ((lateArgs hits).numLocalComputedTokens lateRequest)
        (lateArgs hits).numExternalComputedTokens k.singleTypeManagers hits = _ := horders
    dsimp only
    rw [horders, hfree]
    intro g o ho b hb _
    match g, ho, hb with
    | 0, _, _ => exact Nat.zero_le _
    | 1, ho, hb =>
      cases ho
      revert b
      decide
    | n + 2, ho, _ => cases ho

end VllmEngine.Core.KVCacheManager

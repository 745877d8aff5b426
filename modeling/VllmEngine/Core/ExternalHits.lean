import VllmEngine.Core.KVCacheRun
import VllmEngine.Lib.Serve

namespace VllmEngine.Core

open Lib BlockHash BlockPool List Order

variable {owned : Ref → Prop} {null : Ref} {p p' : BlockPool} {L : Ledger Ref}

theorem BlockPool.Stock.touch_free (h : Stock owned null p L) (bs) (n) :
    (L.touch bs).free = left ⟨bs.filter (· ≠ null), n⟩ L.free := by
  refine filter_congr fun b hb ↦ ?_
  have hne : b ≠ null := h.refines.ne_null ((h.refines.sound.mem_free b).mp hb).1
  simp [hne]

namespace SingleTypeKVCacheManager

variable {m m' : SingleTypeKVCacheManager} {id : ReqId}

def skippedBlocks (m : SingleTypeKVCacheManager) (total : ℕ) : ℕ :=
  m.getNumSkippedTokens total / m.blockSize

def externalTokens (m : SingleTypeKVCacheManager) (numLocal numExternal : ℕ) : ℕ :=
  let total := numLocal + numExternal
  if 0 < m.skippedBlocks total then min (total - m.getNumSkippedTokens total) numExternal
  else numExternal

/-- What `allocate_new_computed_blocks` takes from the free queue: hits that are not skipped, and
blocks for the external tokens. -/
def order (m : SingleTypeKVCacheManager) (null : Ref) (hits : List Ref) (numLocal numExternal : ℕ) :
    Order Ref :=
  let total := numLocal + numExternal
  if m.kind = .crossAttention then ⟨[], 0⟩
  else
    { picks := (hits.drop (m.skippedBlocks total)).filter (· ≠ null)
      fresh :=
        if 0 < m.externalTokens numLocal numExternal then
          cdiv total m.blockSize - max (m.skippedBlocks total) hits.length
        else 0 }

/-- The table of a new request: null blocks, hits that are not skipped, and new blocks. -/
def tableOf (m : SingleTypeKVCacheManager) (null : Ref) (hits : List Ref) (numLocal numExternal : ℕ)
    (fresh : List Ref) : List Ref :=
  if m.kind = .crossAttention then []
  else replicate (m.skippedBlocks (numLocal + numExternal)) null ++
    hits.drop (m.skippedBlocks (numLocal + numExternal)) ++ fresh

variable {hits : List Ref} {numExternal numLocal : ℕ}

theorem mem_tableOf {fresh b}
    (h : b ∈ m.tableOf null hits numLocal numExternal fresh) : b = null ∨ b ∈ hits ∨ b ∈ fresh := by
  unfold tableOf at h
  split at h
  · simp at h
  simp only [mem_append] at h
  rcases h with (h | h) | h
  · exact .inl (eq_of_mem_replicate h)
  · exact .inr (.inl (mem_of_mem_drop h))
  · exact .inr (.inr h)

structure Absent (m : SingleTypeKVCacheManager) (id : ReqId) : Prop where
  table : m.table id = []
  cached : m.numCachedBlock.get? id = none
  lastState : m.lastStateBlockIdx.get? id = none
  allocated : id ∉ m.allocatedBlockReqs

theorem length_padded (skip) (hits : List Ref) :
    (replicate skip null ++ hits.drop skip).length = max skip hits.length := by
  rw [length_append, length_replicate, length_drop]
  omega

structure Served (owned : Ref → Prop) (null : Ref) (id : ReqId) (o : Order Ref) (L : Ledger Ref)
    (p : BlockPool) (m' : SingleTypeKVCacheManager) (L' : Ledger Ref) (p' : BlockPool) : Prop where
  stock : Stock owned null p' L'
  config : p'.config = p.config
  allocated : id ∉ m'.allocatedBlockReqs
  held : ∀ b, b ≠ null → L'.held b = L.held b + (m'.table id).count b
  free : L'.free = (o.left L.free).drop o.fresh
  hashes : ∀ b, p'.blockHash b = if b ∈ (o.left L.free).take o.fresh then none else p.blockHash b

theorem served_of_take (h : Stock owned null p L) (skip) {n kept}
    (hp' : Stock owned null p' ((L.touch kept).take n)) (hcfg : p'.config = p.config)
    (halloc : id ∉ m'.allocatedBlockReqs)
    (htable : m'.table id = replicate skip null ++ kept ++ (L.touch kept).free.take n)
    (hhash : ∀ b, p'.blockHash b = if b ∈ (L.touch kept).free.take n then none else p.blockHash b) :
    Served owned null id ⟨kept.filter (· ≠ null), n⟩ L p m' ((L.touch kept).take n) p' := by
  refine ⟨hp', hcfg, halloc, fun b hb ↦ ?_, ?_, ?_⟩
  · have hskip : (replicate skip null).count b = 0 :=
      count_eq_zero_of_not_mem fun hm ↦ hb (eq_of_mem_replicate hm)
    rw [htable, count_append, count_append, hskip]
    simp only [Ledger.take, Ledger.touch]
    omega
  · rw [← h.touch_free]
    rfl
  · rw [← h.touch_free]
    exact hhash

theorem left_nil (queue : List Ref) (n) : left ⟨[], n⟩ queue = queue :=
  filter_eq_self.mpr fun _ _ ↦ by simp

theorem served_nothing (h : Stock owned null p L) (hm : Absent m id) :
    Served owned null id ⟨[], 0⟩ L p m L p := by
  refine ⟨h, rfl, hm.allocated, fun b _ ↦ by simp [hm.table], ?_, fun b ↦ by simp⟩
  rw [left_nil, drop_zero]

def touchHits (m : SingleTypeKVCacheManager) (hits : List Ref) : ManagerM PUnit :=
  if m.enableCaching then onPool (BlockPool.touch hits)
  else if hits ≠ [] then throw .hitsWithoutCaching
  else pure ⟨⟩

def addNewBlocks (m : SingleTypeKVCacheManager) (id : ReqId) (blocks : List Ref)
    (numLocal numExternal : ℕ) : ManagerM SingleTypeKVCacheManager :=
  let m' := { m with numCachedBlock := m.numCachedBlock.set id blocks.length }
  if 0 < m.externalTokens numLocal numExternal then do
    let allocated ← onPool (getNewBlocks (cdiv (numLocal + numExternal) m.blockSize - blocks.length))
    pure (m'.setTable id (blocks ++ allocated))
  else pure (m'.setTable id blocks)

theorem addComputedBlocks_eq (m : SingleTypeKVCacheManager) (id : ReqId) (hits : List Ref)
    (numLocal numExternal) :
    m.addComputedBlocks id hits numLocal numExternal = (do
        m.touchHits (hits.drop (m.skippedBlocks (numLocal + numExternal)))
        let p ← get
        m.addNewBlocks id (replicate (m.skippedBlocks (numLocal + numExternal)) p.nullBlock ++
          hits.drop (m.skippedBlocks (numLocal + numExternal))) numLocal numExternal) := by
  unfold addComputedBlocks touchHits skippedBlocks
  by_cases hc : m.enableCaching = true
  · rw [if_pos hc, if_pos hc]
    rfl
  rw [if_neg hc, if_neg hc]
  by_cases hnil : hits.drop (m.getNumSkippedTokens (numLocal + numExternal) / m.blockSize) ≠ []
  · rw [if_pos hnil, if_pos hnil]
    rfl
  · rw [if_neg hnil, if_neg hnil]
    rfl

theorem touchHits_stock (h : Stock owned null p L) (hhits : ∀ b ∈ hits, b = null ∨ owned b) :
    Ensures (m.touchHits hits) p
      (fun _ p' ↦ Stock owned null p' (L.touch hits) ∧ SameHashes p p') := by
  apply Ensures.ite
  · intro _
    exact onPool_returns ((touch_stock h hhits).weaken (fun _ _ hp ↦ hp) (fun _ _ he ↦ he.elim))
  intro _
  refine .ite (fun _ ↦ .throw trivial) fun hnil ↦ .pure ?_
  rw [not_not.mp hnil, L.touch_nil]
  exact ⟨h, rfl, rfl⟩

theorem addComputedBlocks_serves (h : Stock owned null p L) (hm : Absent m id)
    (hkind : m.kind ≠ .crossAttention) (hhits : ∀ b ∈ hits, b = null ∨ owned b)
    (hfit : max (m.skippedBlocks (numLocal + numExternal)) hits.length ≤
      cdiv (numLocal + numExternal) m.blockSize) :
    Ensures (m.addComputedBlocks id hits numLocal numExternal) p (fun m' p' ↦ m'.fixed = m.fixed ∧
        ∃ L', Served owned null id (m.order null hits numLocal numExternal) L p m' L' p' ∧
          m'.table id = m.tableOf null hits numLocal numExternal
            (((m.order null hits numLocal numExternal).left L.free).take
              (m.order null hits numLocal numExternal).fresh)) := by
  have hkept : ∀ b ∈ hits.drop (m.skippedBlocks (numLocal + numExternal)), b = null ∨ owned b :=
    fun b hb ↦ hhits b (mem_of_mem_drop hb)
  rw [addComputedBlocks_eq, order, if_neg hkind, tableOf, if_neg hkind]
  refine .seq (touchHits_stock h hkept) ?_
  rintro - p1 ⟨hp1, hsame⟩
  refine .get_bind ?_
  rw [hp1.nullBlock]
  apply Ensures.ite
  · intro hpos
    rw [if_pos hpos, length_padded, ← Int.natCast_sub hfit]
    refine .bind (onPool_returns (getNewBlocks_stock hp1) |>.mono ?_)
    rintro fresh p2 ⟨rfl, hlen, hp2, hcfg, hhash⟩
    rw [hsame.blockHash] at hhash
    refine .pure ⟨rfl, _, served_of_take h _ hp2 (hcfg.trans hsame.2) hm.allocated
      (table_setTable_self _ _ _) hhash, ?_⟩
    rw [← h.touch_free]
    exact table_setTable_self _ _ _
  · intro hzero
    rw [if_neg hzero]
    rw [← Ledger.take_zero (L.touch _)] at hp1
    refine .pure ⟨rfl, _, served_of_take h (m.skippedBlocks (numLocal + numExternal)) hp1
      hsame.2 hm.allocated ?_ ?_, ?_⟩
    · rw [take_zero, append_nil]
      exact table_setTable_self _ _ _
    · simp [hsame.blockHash]
    · rw [take_zero, append_nil]
      exact table_setTable_self _ _ _

theorem allocateNewComputedBlocks_serves (h : Stock owned null p L) (hm : Absent m id)
    (hhits : ∀ b ∈ hits, b = null ∨ owned b)
    (hfit : max (m.skippedBlocks (numLocal + numExternal)) hits.length ≤
      cdiv (numLocal + numExternal) m.blockSize) :
    Ensures (m.allocateNewComputedBlocks id hits numLocal numExternal) p
      (fun m' p' ↦ (m.kind = .crossAttention → hits = []) ∧ m'.fixed = m.fixed ∧
        ∃ L', Served owned null id (m.order null hits numLocal numExternal) L p m' L' p' ∧
          m'.table id = m.tableOf null hits numLocal numExternal
            (((m.order null hits numLocal numExternal).left L.free).take
              (m.order null hits numLocal numExternal).fresh)) := by
  apply Ensures.ite
  · intro hkind
    refine .ite (fun _ ↦ .throw trivial) fun hnil ↦ .pure ?_
    rw [order, if_pos hkind, tableOf, if_pos hkind]
    exact ⟨fun _ ↦ not_not.mp hnil, rfl, L, served_nothing h hm, hm.table⟩
  · intro hkind
    rw [if_neg (by simp [hm.cached]), if_neg (by simp [hm.table])]
    exact (addComputedBlocks_serves h hm hkind hhits hfit).mono
      (fun _ _ hp' ↦ ⟨fun hk ↦ absurd hk hkind, hp'⟩)

end SingleTypeKVCacheManager

open SingleTypeKVCacheManager

namespace KVCacheManager

variable {ms ms' : List SingleTypeKVCacheManager} {hits : List (List Ref)} {id : ReqId}
  {numLocal numExternal : ℕ} {L' : Ledger Ref}

def orders (null : Ref) (numLocal numExternal : ℕ) :
    List SingleTypeKVCacheManager → List (List Ref) → List (Order Ref) :=
  zipWith fun m l ↦ m.order null l numLocal numExternal

structure Entered (owned : Ref → Prop) (null : Ref) (id : ReqId) (numLocal numExternal : ℕ)
    (ms : List SingleTypeKVCacheManager) (hits : List (List Ref)) (L : Ledger Ref) (p : BlockPool)
    (ms' : List SingleTypeKVCacheManager) (L' : Ledger Ref) (p' : BlockPool) : Prop where
  stock : Stock owned null p' L'
  config : p'.config = p.config
  fixed : ms'.map (·.fixed) = ms.map (·.fixed)
  enough : ms.length ≤ hits.length
  cross : ∀ (j : ℕ) m l, ms[j]? = some m → hits[j]? = some l → m.kind = .crossAttention → l = []
  allocated : ∀ m' ∈ ms', id ∉ m'.allocatedBlockReqs
  mono : ∀ b, b ≠ null → L.held b ≤ L'.held b
  held : ∀ m' ∈ ms', ∀ b ∈ m'.table id, b ≠ null → 0 < L'.held b
  mem : ∀ m' ∈ ms', ∀ b ∈ m'.table id, b = null ∨ owned b
  tables : ∀ (j : ℕ) m l fresh, ms[j]? = some m → hits[j]? = some l →
    (serve (orders null numLocal numExternal ms hits) L.free)[j]? = some fresh →
    ∃ m', ms'[j]? = some m' ∧ m'.table id = m.tableOf null l numLocal numExternal fresh
  hashes : ∀ b, (∀ fresh ∈ serve (orders null numLocal numExternal ms hits) L.free, b ∉ fresh) →
    p'.blockHash b = p.blockHash b

theorem Entered.cons {m m' l L1 p1} (h : Stock owned null p L) (hl : ∀ b ∈ l, b = null ∨ owned b)
    (hcross : m.kind = .crossAttention → l = []) (hfixed : m'.fixed = m.fixed)
    (hs : Served owned null id (m.order null l numLocal numExternal) L p m' L1 p1)
    (htable : m'.table id = m.tableOf null l numLocal numExternal
      (((m.order null l numLocal numExternal).left L.free).take
        (m.order null l numLocal numExternal).fresh))
    (he : Entered owned null id numLocal numExternal ms hits L1 p1 ms' L' p') :
    Entered owned null id numLocal numExternal (m :: ms) (l :: hits) L p (m' :: ms') L' p' := by
  have hserve : serve (orders null numLocal numExternal (m :: ms) (l :: hits)) L.free =
      ((m.order null l numLocal numExternal).left L.free).take
        (m.order null l numLocal numExternal).fresh ::
      serve (orders null numLocal numExternal ms hits) L1.free := by
    rw [hs.free]
    rfl
  refine ⟨he.stock, he.config.trans hs.config, by simp [hfixed, he.fixed], by simpa using he.enough,
    ?_, ?_, ?_, ?_, ?_, ?_, ?_⟩
  · intro j m0 l0 hm0 hl0
    cases j with
    | zero =>
      obtain ⟨rfl, rfl⟩ : m = m0 ∧ l = l0 := ⟨by simpa using hm0, by simpa using hl0⟩
      exact hcross
    | succ j => exact he.cross j m0 l0 hm0 hl0
  · exact forall_mem_cons.mpr ⟨hs.allocated, he.allocated⟩
  · intro b hb
    have := he.mono b hb
    rw [hs.held b hb] at this
    omega
  · refine forall_mem_cons.mpr ⟨fun b hmem hb ↦ ?_, he.held⟩
    have hpos := count_pos_iff.mpr hmem
    have := he.mono b hb
    rw [hs.held b hb] at this
    omega
  · refine forall_mem_cons.mpr ⟨fun b hmem ↦ ?_, he.mem⟩
    rw [htable] at hmem
    rcases mem_tableOf hmem with rfl | hmem | hmem
    · exact .inl rfl
    · exact hl b hmem
    · have hfree := mem_of_mem_filter (mem_of_mem_take hmem)
      exact .inr ((h.refines.sound.mem_free b).mp hfree).1
  · intro j m0 l0 fresh hm0 hl0 hfresh
    rw [hserve] at hfresh
    cases j with
    | zero =>
      obtain ⟨rfl, rfl, rfl⟩ : m = m0 ∧ l = l0 ∧ _ = fresh := ⟨by simpa using hm0, by simpa using hl0,
        Option.some.inj hfresh⟩
      exact ⟨m', rfl, htable⟩
    | succ j => exact he.tables j m0 l0 fresh hm0 hl0 hfresh
  · intro b hb
    rw [hserve, forall_mem_cons] at hb
    rw [he.hashes b hb.2, hs.hashes b, if_neg hb.1]

theorem onEach_enters (h : Stock owned null p L) {i} (hms : ∀ m ∈ ms, Absent m id)
    (hhits : ∀ l ∈ hits, ∀ b ∈ l, b = null ∨ owned b)
    (hfit : ∀ j m l, ms[j]? = some m → hits[i + j]? = some l →
      max (m.skippedBlocks (numLocal + numExternal)) l.length ≤
        cdiv (numLocal + numExternal) m.blockSize) :
    Ensures (onEach (fun i m ↦ do
        match hits[i]? with
        | none => throw .indexError
        | some l =>
          let m' ← m.allocateNewComputedBlocks id l numLocal numExternal
          pure (m', ())) i ms) p
      (fun out p' ↦ ∃ L', Entered owned null id numLocal numExternal ms (hits.drop i) L p out.1 L' p') := by
  induction ms generalizing i p L with
  | nil =>
    refine .pure ⟨L, h, rfl, rfl, by simp, by simp, by simp, fun _ _ ↦ le_rfl, by simp, by simp, by simp, ?_⟩
    intro b _
    rfl
  | cons m ms ih =>
    refine .bind ?_
    dsimp only
    split
    · exact .throw trivial
    next l hl =>
      have hdrop : hits.drop i = l :: hits.drop (i + 1) := by
        obtain ⟨hlt, rfl⟩ := List.getElem?_eq_some_iff.mp hl
        exact drop_eq_getElem_cons hlt
      refine .seq (allocateNewComputedBlocks_serves h (hms m mem_cons_self)
        (hhits l (mem_of_getElem? hl)) (hfit 0 m l rfl hl)) ?_
      rintro m' p1 ⟨hcross, hfixed, L1, hs, htable⟩
      refine .pure (.seq (ih hs.stock
        (fun m hm ↦ hms m (mem_cons_of_mem _ hm)) fun j m l hm hl ↦ ?_) ?_)
      · exact hfit (j + 1) m l hm (by rwa [show i + (j + 1) = i + 1 + j by omega])
      · rintro out p2 ⟨L2, he⟩
        rw [hdrop]
        exact .pure ⟨L2, he.cons h (hhits l (mem_of_getElem? hl)) hcross hfixed hs htable⟩

structure Guards (null : Ref) (p p' : BlockPool) : Prop where
  config : p'.config = p.config
  held : ∀ b, b ≠ null → 0 < p.refCnt b → 0 < p'.refCnt b
  hashes : ∀ b, b ≠ null → 0 < p.refCnt b → ∀ key, p.blockHash b = some key →
    p'.blockHash b = some key

theorem Guards.refl (p) : Guards null p p :=
  ⟨rfl, fun _ _ h ↦ h, fun _ _ _ _ h ↦ h⟩

theorem Guards.trans {p''} (h : Guards null p p') (h' : Guards null p' p'') : Guards null p p'' :=
  ⟨h'.config.trans h.config, fun b hb hp ↦ h'.held b hb (h.held b hb hp),
    fun b hb hp key hk ↦ h'.hashes b hb (h.held b hb hp) key (h.hashes b hb hp key hk)⟩

/-- The rule for a call of each manager in turn, when what it does to one is not undone by the
others. -/
theorem onEach_each (null) {α : Type}
    {f : ℕ → SingleTypeKVCacheManager → ManagerM (SingleTypeKVCacheManager × α)}
    {S : BlockPool → Prop} {P : SingleTypeKVCacheManager → Prop}
    {Q : BlockPool → SingleTypeKVCacheManager → SingleTypeKVCacheManager → Prop}
    (hpull : ∀ {p p' m m'}, Guards null p p' → Q p' m m' → Q p m m')
    (hstep : ∀ i m p, S p → P m → Ensures (f i m) p
      (fun out p' ↦ S p' ∧ Guards null p p' ∧ Q p m out.1)) (hS : S p) (hP : ∀ m ∈ ms, P m) (i) :
    Ensures (onEach f i ms) p
      (fun out p' ↦ S p' ∧ Guards null p p' ∧ List.Forall₂ (Q p) ms out.1) := by
  induction ms generalizing i p with
  | nil => exact .pure ⟨hS, .refl p, .nil⟩
  | cons m ms ih =>
    refine .seq (hstep i m p hS (hP m mem_cons_self)) ?_
    rintro out p1 ⟨hS1, hg, hQ⟩
    refine .seq (ih hS1 (fun m hm ↦ hP m (mem_cons_of_mem _ hm)) (i + 1)) ?_
    rintro rest p2 ⟨hS2, hg', hQs⟩
    exact .pure ⟨hS2, hg.trans hg', .cons hQ (hQs.imp fun _ _ h ↦ hpull hg h)⟩

end KVCacheManager

end VllmEngine.Core

import VllmEngine.Core.ExternalHits

namespace VllmEngine.Core

open Lib BlockHash BlockPool List

variable {owned : Ref → Prop} {null : Ref} {p p' : BlockPool} {L : Ledger Ref}

theorem BlockPool.Stock.held_pos (h : Stock owned null p L) {b} (hb : b ≠ null) :
    0 < p.refCnt b ↔ 0 < L.held b := by
  rw [h.refines.refCnt b hb]
  omega

theorem BlockPool.Stock.guards {L'} (h : Stock owned null p L) (h' : Stock owned null p' L')
    (hcfg : p'.config = p.config) (hheld : ∀ b, b ≠ null → L.held b ≤ L'.held b)
    (hhash : ∀ b, b ≠ null → 0 < L.held b → ∀ key, p.blockHash b = some key →
      p'.blockHash b = some key) : KVCacheManager.Guards null p p' := by
  refine ⟨hcfg, fun b hb hpos ↦ ?_, fun b hb hpos ↦ hhash b hb ((h.held_pos hb).mp hpos)⟩
  rw [h'.held_pos hb]
  rw [h.held_pos hb] at hpos
  exact hpos.trans_le (hheld b hb)

namespace SingleTypeKVCacheManager

variable {m m' : SingleTypeKVCacheManager} {id : ReqId}

def Appends (owned : Ref → Prop) (null : Ref) (id : ReqId) (p : BlockPool)
    (m m' : SingleTypeKVCacheManager) : Prop :=
  m'.fixed = m.fixed ∧ ∃ ext, m'.table id = m.table id ++ ext ∧
    ∀ b ∈ ext, b = null ∨ owned b ∧ ¬ 0 < p.refCnt b

abbrev Stocks {ε α : Type} (owned : Ref → Prop) (null : Ref) (x : EStateM ε BlockPool α)
    (p : BlockPool) (R : α → Prop) : Prop :=
  Ensures x p fun out p' ↦ (∃ L', Stock owned null p' L') ∧ KVCacheManager.Guards null p p' ∧ R out

theorem getNewBlocks_guards (h : Stock owned null p L) (n : ℕ) :
    Stocks owned null (getNewBlocks n) p fun bs ↦ ∀ b ∈ bs, owned b ∧ ¬ 0 < p.refCnt b := by
  refine (getNewBlocks_stock h).mono ?_
  rintro bs p' ⟨rfl, -, hp', hcfg, hhash⟩
  refine ⟨⟨_, hp'⟩, h.guards hp' hcfg (fun b _ ↦ Nat.le_add_right _ _) fun b hb hpos key hkey ↦ ?_,
    fun b hb ↦ ?_⟩
  · have hnot : b ∉ L.free.take n := fun hm ↦ h.not_free hpos (mem_of_mem_take hm)
    rw [hhash b, if_neg hnot, hkey]
  · obtain ⟨ho, hzero⟩ := (h.refines.sound.mem_free b).mp (mem_of_mem_take hb)
    rw [h.held_pos (h.refines.ne_null ho), hzero]
    exact ⟨ho, Nat.lt_irrefl 0⟩

theorem appends_refl (p) (hfixed : m'.fixed = m.fixed) (htable : m'.table id = m.table id) :
    Appends owned null id p m m' := ⟨hfixed, [], by simpa using htable, by simp⟩

section

variable (h : Stock owned null p L)

include h

theorem allocateBlocks_appends (n) :
    Stocks owned null (m.allocateBlocks id n) p fun out ↦ Appends owned null id p m out.1 := by
  apply Ensures.ite
  · intro _
    exact .pure ⟨⟨L, h⟩, .refl p, appends_refl p rfl (table_setTable_self _ _ _)⟩
  intro hlt
  rw [← Int.natCast_sub (Nat.le_of_not_le hlt)]
  refine .seq (onPool_returns (getNewBlocks_guards h _)) ?_
  rintro bs p' ⟨hp', hg, hbs⟩
  exact .pure ⟨hp', hg, rfl, bs, table_setTable_self _ _ _, fun b hb ↦ .inr (hbs b hb)⟩

theorem allocateBlocksAlign_appends (hm : id ∉ m.allocatedBlockReqs) (main s) :
    Stocks owned null (m.allocateBlocksAlign id main s) p fun out ↦
      Appends owned null id p m out.1 := by
  apply Ensures.ite
  · intro _
    exact .pure ⟨⟨L, h⟩, .refl p, appends_refl p rfl (table_setTable_self _ _ _)⟩
  intro _
  refine .ite (fun _ ↦ .throw trivial) fun hgt ↦ .get_bind ?_
  have hext : extendTable p.nullBlock (decide (id ∈ m.allocatedBlockReqs)) (m.table id)
      (cdiv main m.blockSize + s) s = .ok (m.table id ++ replicate
        (cdiv main m.blockSize + s - s - 1 - (m.table id).length) null) := by
    simp [extendTable, hm, h.nullBlock]
  rw [hext]
  refine .ite (fun _ ↦ .throw trivial) fun _ ↦ ?_
  rw [length_append, length_replicate, ← Int.natCast_sub (by omega)]
  refine .seq (onPool_returns (getNewBlocks_guards h _)) ?_
  rintro bs p' ⟨hp', hg, hbs⟩
  refine .pure ⟨hp', hg, rfl, _, (table_setTable_self m id _).trans (append_assoc _ _ _), ?_⟩
  intro b hb
  rcases mem_append.mp hb with hb | hb
  · exact .inl (eq_of_mem_replicate hb)
  · exact .inr (hbs b hb)

theorem allocateNewBlocks_appends (hm : id ∉ m.allocatedBlockReqs) (n main) :
    Stocks owned null (m.allocateNewBlocks id n main) p fun out ↦
      Appends owned null id p m out.1 := by
  unfold allocateNewBlocks
  split
  · exact allocateBlocksAlign_appends h hm main _
  all_goals exact allocateBlocks_appends h _

theorem cacheFull_guards {request} (hc : p.enableCaching = true)
    (hmem : ∀ b ∈ m.table request.requestId, b = null ∨ owned b) (H) (n) :
    Stocks owned null (m.cacheFull H request n) p fun m' ↦
      m'.fixed = m.fixed ∧ m'.reqToBlocks = m.reqToBlocks := by
  apply Ensures.ite
  · intro _
    exact .pure ⟨⟨L, h⟩, .refl p, rfl, rfl⟩
  intro hlt
  refine .seq (onPool_returns (cacheFullBlocks_stock h hmem hc H request _ _ _ _
    (Nat.lt_of_not_le hlt))) ?_
  rintro _ p' ⟨hp', hcfg, hfiled⟩
  exact .pure ⟨⟨L, hp'⟩, h.guards hp' hcfg (fun _ _ ↦ le_rfl)
    (fun b _ _ key hkey ↦ hfiled.kept b key hkey), rfl, rfl⟩

theorem cacheBlocks_guards {request} (hc : p.enableCaching = true)
    (hmem : ∀ b ∈ m.table request.requestId, b = null ∨ owned b) (H) (n) :
    Stocks owned null (m.cacheBlocks H request n) p fun m' ↦
      m'.fixed = m.fixed ∧ m'.reqToBlocks = m.reqToBlocks := by
  have hfull := cacheFull_guards h hc hmem H n
  unfold cacheBlocks
  split
  · exact .throw trivial
  · refine .seq hfull ?_
    rintro m' p' ⟨hp', hg, hfixed, htables⟩
    refine .get_bind ?_
    split
    · exact .throw trivial
    · exact .pure ⟨hp', hg, hfixed, htables⟩
  all_goals exact hfull

end

theorem spec_of_fixed (h : m'.fixed = m.fixed) : m'.kvCacheSpec = m.kvCacheSpec := congrArg (·.1) h

theorem order_congr (h : m'.fixed = m.fixed) (hits) (numLocal numExternal) :
    m'.order null hits numLocal numExternal = m.order null hits numLocal numExternal := by
  have hspec := spec_of_fixed h
  cases m
  cases m'
  subst hspec
  rfl

theorem tableOf_congr (h : m'.fixed = m.fixed) (hits fresh) (numLocal numExternal) :
    m'.tableOf null hits numLocal numExternal fresh = m.tableOf null hits numLocal numExternal fresh := by
  have hspec := spec_of_fixed h
  cases m
  cases m'
  subst hspec
  rfl

theorem removeSkipped_absent (hm : Absent m id) (n) :
    ∃ m', m.removeSkipped id n p = .ok m' p ∧ m'.fixed = m.fixed ∧ Absent m' id := by
  by_cases hzero : m.getNumSkippedTokens n = 0
  · exact ⟨m, by simp [removeSkipped, hzero], rfl, hm⟩
  refine ⟨m.setTable id [], ?_, rfl, table_setTable_self _ _ _, hm.cached, hm.lastState, hm.allocated⟩
  simp only [removeSkipped, if_neg hzero, EState.bind_apply, EState.get_apply, hm.table,
    length_nil, Nat.min_zero, removeLoop]
  rfl

theorem removeSkippedBlocks_absent (hm : Absent m id) (n) :
    ∃ m', m.removeSkippedBlocks id n p = .ok m' p ∧ m'.fixed = m.fixed ∧ Absent m' id := by
  cases hkind : m.kind with
  | mamba mode s =>
    obtain ⟨m', hrun, hfixed, hm'⟩ := removeSkipped_absent (p := p) hm (n - s)
    refine ⟨m', ?_, hfixed, hm'⟩
    simp only [removeSkippedBlocks, hkind, EState.bind_apply, hrun]
    cases mode with
    | align => simp [removeLastState, hm'.lastState]
    | none => rfl
    | all => rfl
  | fullAttention | sinkFullAttention | slidingWindow | chunkedLocalAttention | crossAttention =>
    obtain ⟨m', hrun, hm'⟩ := removeSkipped_absent (p := p) hm n
    exact ⟨m', by simp only [removeSkippedBlocks, hkind, hrun], hm'⟩

end SingleTypeKVCacheManager

open SingleTypeKVCacheManager

namespace KVCacheManager

variable {k k' : KVCacheManager} {hits : List (List Ref)} {id : ReqId} {numLocal numExternal : ℕ}

theorem removeSkippedBlocks_absent (null : Ref) (hk : ∀ m ∈ k.singleTypeManagers, Absent m id) (n) :
    Ensures (k.removeSkippedBlocks id n) p
      (fun k' p' ↦ p' = p ∧ k'.enableCaching = k.enableCaching ∧ k'.maxModelLen = k.maxModelLen ∧
        List.Forall₂ (fun m m' ↦ m'.fixed = m.fixed ∧ Absent m' id) k.singleTypeManagers
          k'.singleTypeManagers) := by
  refine .seq (onEach_each null (S := fun p' ↦ p' = p) (P := fun m ↦ Absent m id)
    (Q := fun _ m m' ↦ m'.fixed = m.fixed ∧ Absent m' id) (fun _ h ↦ h) ?_ rfl hk 0) ?_
  · rintro i m p1 rfl hm
    obtain ⟨m', hrun, hm'⟩ := removeSkippedBlocks_absent hm n
    exact .bind (.of_ok hrun (.pure ⟨rfl, .refl _, hm'⟩))
  · rintro out p' ⟨hp, -, hall⟩
    exact .pure ⟨hp, rfl, rfl, hall⟩

variable {ms ms1 ms2 ms3 : List SingleTypeKVCacheManager}

/-- What `allocate_slots` leaves behind: each table starts with what its group entered, and no hits
are behind that. -/
structure Finished (null : Ref) (id : ReqId) (numLocal numExternal : ℕ)
    (ms : List SingleTypeKVCacheManager) (hits : List (List Ref)) (served : List (List Ref))
    (p : BlockPool) (ms' : List SingleTypeKVCacheManager) (p' : BlockPool) : Prop where
  length : ms'.length = ms.length
  enough : ms.length ≤ hits.length
  cross : ∀ (j : ℕ) m l, ms[j]? = some m → hits[j]? = some l → m.kind = .crossAttention → l = []
  tables : ∀ (j : ℕ) m l fresh, ms[j]? = some m → hits[j]? = some l → served[j]? = some fresh →
    ∃ m' ext, ms'[j]? = some m' ∧ m'.table id = m.tableOf null l numLocal numExternal fresh ++ ext ∧
      ∀ b ∈ ext, b ≠ null → ∀ (j1 : ℕ) m1 l1 fresh1, ms[j1]? = some m1 → hits[j1]? = some l1 →
        served[j1]? = some fresh1 → b ∉ m1.tableOf null l1 numLocal numExternal fresh1
  hashes : ∀ (j : ℕ) m l fresh, ms[j]? = some m → hits[j]? = some l → served[j]? = some fresh →
    ∀ b ∈ m.tableOf null l numLocal numExternal fresh, b ≠ null → (∀ fresh' ∈ served, b ∉ fresh') →
      ∀ key, p.blockHash b = some key → p'.blockHash b = some key

theorem getElem?_of_forall₂ {α β : Type} {r : α → β → Prop} {l l'}
    (h : List.Forall₂ r l l') {i : ℕ} {a : α} (ha : l[i]? = some a) : ∃ b, l'[i]? = some b ∧ r a b := by
  induction h generalizing i with
  | nil => simp at ha
  | cons hr _ ih =>
    cases i with
    | zero =>
      cases ha
      exact ⟨_, rfl, hr⟩
    | succ i => exact ih ha

theorem Entered.finished {L' : Ledger Ref} {p1 p2}
    (he : Entered owned null id numLocal numExternal ms hits L p ms1 L' p1)
    (hext : List.Forall₂ (Appends owned null id p1) ms1 ms2)
    (hsame : List.Forall₂ (fun m m' ↦ m'.fixed = m.fixed ∧ m'.table id = m.table id) ms2 ms3)
    (hg : Guards null p1 p2) :
    Finished null id numLocal numExternal ms hits
      (Order.serve (orders null numLocal numExternal ms hits) L.free) p ms3 p2 := by
  have hheld : ∀ (j : ℕ) m l fresh, ms[j]? = some m → hits[j]? = some l →
      (Order.serve (orders null numLocal numExternal ms hits) L.free)[j]? = some fresh →
      ∀ b ∈ m.tableOf null l numLocal numExternal fresh, b ≠ null → 0 < p1.refCnt b := by
    intro j m l fresh hm hl hfresh b hb hn
    obtain ⟨m', hm', htable⟩ := he.tables j m l fresh hm hl hfresh
    rw [he.stock.held_pos hn]
    exact he.held m' (mem_of_getElem? hm') b (htable ▸ hb) hn
  refine ⟨?_, he.enough, he.cross, fun j m l fresh hm hl hfresh ↦ ?_,
    fun j m l fresh hm hl hfresh b hb hn hnot key hkey ↦ ?_⟩
  · rw [← hsame.length_eq, ← hext.length_eq, ← length_map, he.fixed, length_map]
  · obtain ⟨m1, hm1, htable1⟩ := he.tables j m l fresh hm hl hfresh
    obtain ⟨m2, hm2, -, ext, htable2, hfree⟩ := getElem?_of_forall₂ hext hm1
    obtain ⟨m3, hm3, -, htable3⟩ := getElem?_of_forall₂ hsame hm2
    refine ⟨m3, ext, hm3, by rw [htable3, htable2, htable1],
      fun b hb hn j' m' l' fresh' hm' hl' hfresh' hmem ↦ ?_⟩
    exact ((hfree b hb).resolve_left hn).2 (hheld j' m' l' fresh' hm' hl' hfresh' b hmem hn)
  · apply hg.hashes b hn (hheld j m l fresh hm hl hfresh b hb hn)
    rw [he.hashes b hnot, hkey]

theorem allocateNewBlocks_forall (h : Stock owned null p L)
    (hk : ∀ m ∈ k.singleTypeManagers, id ∉ m.allocatedBlockReqs) (n main enc) :
    Stocks owned null (k.allocateNewBlocks id n main enc) p fun out ↦
      List.Forall₂ (Appends owned null id p) k.singleTypeManagers out.1.singleTypeManagers := by
  refine .seq (onEach_each null ?_ ?_ ⟨L, h⟩ hk 0) fun out p' ho ↦ .pure ho
  · rintro p p' m m' hg ⟨hfixed, ext, htable, hext⟩
    refine ⟨hfixed, ext, htable, fun b hb ↦ ?_⟩
    by_cases hn : b = null
    · exact .inl hn
    · obtain ⟨ho, hzero⟩ := (hext b hb).resolve_left hn
      exact .inr ⟨ho, fun hpos ↦ hzero (hg.held b hn hpos)⟩
  · rintro i m p ⟨L, h⟩ hm
    exact allocateNewBlocks_appends h hm _ _

variable {request : Request}

theorem cacheBlocks_forall (h : Stock owned null p L) (hc : p.enableCaching = true)
    (hk : ∀ m ∈ k.singleTypeManagers, ∀ b ∈ m.table request.requestId, b = null ∨ owned b) (H) (n) :
    Ensures (k.cacheBlocks H request n) p
      (fun k' p' ↦ Guards null p p' ∧ List.Forall₂ (fun m m' ↦ m'.fixed = m.fixed ∧
        m'.table request.requestId = m.table request.requestId) k.singleTypeManagers
          k'.singleTypeManagers) := by
  refine .seq (onEach_each null (S := fun p ↦ (∃ L, Stock owned null p L) ∧ p.enableCaching = true)
    (Q := fun _ m m' ↦ m'.fixed = m.fixed ∧ m'.table request.requestId = m.table request.requestId)
    (fun _ h ↦ h) ?_ ⟨⟨L, h⟩, hc⟩ hk 0) fun out p' ho ↦ .pure ho.2
  rintro i m p ⟨⟨L, h⟩, hc⟩ hm
  refine .seq (cacheBlocks_guards h hc hm H n) ?_
  rintro m' p' ⟨hp', hg, hfixed, htables⟩
  refine .pure ⟨⟨hp', ?_⟩, hg, hfixed, ?_⟩
  · exact (congrArg Config.enableCaching hg.config).trans hc
  · rw [table, table, htables]

theorem takeSlots_finished {a} (h : Stock owned null p L)
    (hcaching : k.enableCaching = true → p.enableCaching = true)
    (hk : ∀ m ∈ k.singleTypeManagers, Absent m request.requestId)
    (hext : 0 < a.numExternalComputedTokens) (hhits : ∀ l ∈ a.hits k, ∀ b ∈ l, b = null ∨ owned b)
    (hfit : ∀ (j : ℕ) m l, k.singleTypeManagers[j]? = some m → (a.hits k)[j]? = some l →
      max (m.skippedBlocks (a.numLocalComputedTokens request + a.numExternalComputedTokens)) l.length ≤
        cdiv (a.numLocalComputedTokens request + a.numExternalComputedTokens) m.blockSize) (H) :
    Ensures (k.takeSlots H request a) p
      (fun out p' ↦ Finished null request.requestId (a.numLocalComputedTokens request)
        a.numExternalComputedTokens k.singleTypeManagers (a.hits k)
        (Order.serve (orders null (a.numLocalComputedTokens request) a.numExternalComputedTokens
          k.singleTypeManagers (a.hits k)) L.free) p out.1.singleTypeManagers p') := by
  refine .bind ?_
  rw [enterHits, if_pos (.inr hext)]
  refine .seq (onEach_enters h hk hhits (by simpa using hfit)) ?_
  rintro out p1 ⟨L1, he⟩
  rw [drop_zero] at he
  refine .pure (.seq (allocateNewBlocks_forall he.stock he.allocated _ _ _) ?_)
  rintro ⟨k2, blocks⟩ p2 ⟨⟨L2, h2⟩, hg, happ⟩
  have hmem : ∀ m ∈ k2.singleTypeManagers, ∀ b ∈ m.table request.requestId, b = null ∨ owned b := by
    intro m2 hm2 b hb
    obtain ⟨i, hi⟩ := mem_iff_getElem?.mp hm2
    obtain ⟨m1, hm1, -, ext, htable, hfree⟩ := getElem?_of_forall₂ happ.flip hi
    rw [htable] at hb
    rcases mem_append.mp hb with hb | hb
    · exact he.mem m1 (mem_of_getElem? hm1) b hb
    · exact (hfree b hb).imp_right And.left
  apply Ensures.ite
  · intro _
    refine .pure (he.finished happ ?_ hg)
    exact forall₂_same.mpr fun m _ ↦ ⟨rfl, rfl⟩
  intro hon
  have hon : k.enableCaching = true := by
    simp only [not_or, not_not] at hon
    exact hon.1
  have hc2 : p2.enableCaching = true :=
    (congrArg Config.enableCaching (hg.config.trans he.config)).trans (hcaching hon)
  refine .seq (cacheBlocks_forall h2 hc2 hmem H _) ?_
  rintro k3 p3 ⟨hg', hsame⟩
  exact .pure (he.finished happ hsame (hg.trans hg'))

section

variable (h : List.Forall₂ (fun m m' ↦ m'.fixed = m.fixed ∧ Absent m' id) ms ms1)

include h

theorem orders_congr (hits : List (List Ref)) :
    orders null numLocal numExternal ms1 hits = orders null numLocal numExternal ms hits := by
  induction h generalizing hits with
  | nil => rfl
  | cons hm _ ih =>
    cases hits with
    | nil => rfl
    | cons l hits =>
      rw [orders, zipWith_cons_cons, zipWith_cons_cons, order_congr hm.1]
      exact congrArg _ (ih hits)

theorem Finished.congr {served : List (List Ref)} {ms'}
    (hf : Finished null id numLocal numExternal ms1 hits served p ms' p') :
    Finished null id numLocal numExternal ms hits served p ms' p' := by
  refine ⟨hf.length.trans h.length_eq.symm, h.length_eq ▸ hf.enough, fun j m l hm hl hkind ↦ ?_,
    fun j m l fresh hm hl hfresh ↦ ?_, fun j m l fresh hm hl hfresh b hb ↦ ?_⟩
  · obtain ⟨m1, hm1, hfixed, -⟩ := getElem?_of_forall₂ h hm
    apply hf.cross j m1 l hm1 hl
    rwa [kind, spec_of_fixed hfixed]
  · obtain ⟨m1, hm1, hfixed, -⟩ := getElem?_of_forall₂ h hm
    obtain ⟨m', ext, hm', htable, hext⟩ := hf.tables j m1 l fresh hm1 hl hfresh
    refine ⟨m', ext, hm', by rw [htable, tableOf_congr hfixed],
      fun b hb hn j2 m2 l2 fresh2 hm2 hl2 hfresh2 ↦ ?_⟩
    obtain ⟨m3, hm3, hfixed3, -⟩ := getElem?_of_forall₂ h hm2
    rw [← tableOf_congr hfixed3]
    exact hext b hb hn j2 m3 l2 fresh2 hm3 hl2 hfresh2
  · obtain ⟨m1, hm1, hfixed, -⟩ := getElem?_of_forall₂ h hm
    rw [← tableOf_congr hfixed] at hb
    exact hf.hashes j m1 l fresh hm1 hl hfresh b hb

end

theorem allocateSlots_finished {a : SlotArgs} (h : Stock owned null p L)
    (hcaching : k.enableCaching = true → p.enableCaching = true)
    (hk : ∀ m ∈ k.singleTypeManagers, Absent m request.requestId)
    (hext : 0 < a.numExternalComputedTokens) (hblocks : a.newComputedBlocks = some hits)
    (hhits : ∀ l ∈ hits, ∀ b ∈ l, b = null ∨ owned b)
    (hfit : ∀ (j : ℕ) m l, k.singleTypeManagers[j]? = some m → hits[j]? = some l →
      max (m.skippedBlocks (a.numLocalComputedTokens request + a.numExternalComputedTokens)) l.length ≤
        cdiv (a.numLocalComputedTokens request + a.numExternalComputedTokens) m.blockSize) (H) :
    Ensures (k.allocateSlots H request a) p
      (fun out p' ↦ out.2.isSome → Finished null request.requestId (a.numLocalComputedTokens request)
        a.numExternalComputedTokens k.singleTypeManagers hits
        (Order.serve (orders null (a.numLocalComputedTokens request) a.numExternalComputedTokens
          k.singleTypeManagers hits) L.free) p out.1.singleTypeManagers p') := by
  refine .ite (fun _ ↦ .throw trivial) fun _ ↦ .get_bind ?_
  split
  · exact .throw trivial
  · exact .pure (by simp)
  refine .seq (removeSkippedBlocks_absent null hk _) ?_
  rintro k1 _ ⟨rfl, hcaching1, hmax, hall⟩
  refine .get_bind ?_
  split
  · exact .throw trivial
  refine .ite (fun _ ↦ .pure (by simp)) fun _ ↦ ?_
  have hhits1 : a.hits k1 = hits := by simp [SlotArgs.hits, hblocks]
  have hk1 : ∀ m ∈ k1.singleTypeManagers, Absent m request.requestId := by
    intro m hm
    obtain ⟨i, hi⟩ := mem_iff_getElem?.mp hm
    obtain ⟨m0, -, -, habs⟩ := getElem?_of_forall₂ hall.flip hi
    exact habs
  have hfit1 : ∀ (j : ℕ) m l, k1.singleTypeManagers[j]? = some m → (a.hits k1)[j]? = some l →
      max (m.skippedBlocks (a.numLocalComputedTokens request + a.numExternalComputedTokens)) l.length ≤
        cdiv (a.numLocalComputedTokens request + a.numExternalComputedTokens) m.blockSize := by
    intro j m l hm hl
    obtain ⟨m0, hm0, hfixed, -⟩ := getElem?_of_forall₂ hall.flip hm
    rw [hhits1] at hl
    have := hfit j m0 l hm0 hl
    rwa [skippedBlocks, getNumSkippedTokens, kind,
      blockSize, spec_of_fixed hfixed]
  refine .seq (takeSlots_finished h (fun hc ↦ hcaching (hcaching1 ▸ hc)) hk1 hext
    (hhits1.symm ▸ hhits) hfit1 H) ?_
  intro out p' hf
  rw [hhits1, orders_congr hall] at hf
  exact .pure fun _ ↦ hf.congr hall

end KVCacheManager

end VllmEngine.Core

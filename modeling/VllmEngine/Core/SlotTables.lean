import VllmEngine.Core.JointTables

namespace VllmEngine.Core

open Lib BlockHash BlockPool SingleTypeKVCacheManager List

namespace KVCacheManager

variable {R : Request → Prop} {owned : Ref → Prop} {null : Ref} {k k' : KVCacheManager}
  {p p' : BlockPool} {id : ReqId}

structure Sane (R : Request → Prop) (owned : Ref → Prop) (null : Ref) (k : KVCacheManager)
    (p : BlockPool) : Prop where
  joint : Joint R owned null k.singleTypeManagers p
  settled : ∀ m ∈ k.singleTypeManagers, ∀ id, Settled null m p id
  caching : p.enableCaching = k.enableCaching

structure SameShape (k k' : KVCacheManager) : Prop where
  maxModelLen : k'.maxModelLen = k.maxModelLen
  caching : k'.enableCaching = k.enableCaching
  coordinator : k'.coordinator = k.coordinator
  fixed : k'.singleTypeManagers.map (·.fixed) = k.singleTypeManagers.map (·.fixed)

theorem SameShape.refl (k) : SameShape k k := ⟨rfl, rfl, rfl, rfl⟩

theorem SameShape.trans {k''} (h : SameShape k k') (h' : SameShape k' k'') : SameShape k k'' :=
  ⟨h'.maxModelLen.trans h.maxModelLen, h'.caching.trans h.caching,
    h'.coordinator.trans h.coordinator, h'.fixed.trans h.fixed⟩

theorem SameHashes.trans {p''} (h : SameHashes p p') (h' : SameHashes p' p'') :
    SameHashes p p'' := ⟨h'.1.trans h.1, h'.2.trans h.2⟩

theorem settled_of_frame {m m' rest}
    (h : Frame rest null id m p m' p') (hs : ∀ id, Settled null m p id)
    (hid : Settled null m' p' id) (id') : Settled null m' p' id' := by
  by_cases he : id' = id
  · exact he ▸ hid
  · exact h.settled he (hs id')

section

variable {α : Type} {f : ℕ → SingleTypeKVCacheManager → ManagerM (SingleTypeKVCacheManager × α)}
  {T : BlockPool → BlockPool → Prop} {P : ℕ → SingleTypeKVCacheManager → BlockPool → Prop}
  {Q : SingleTypeKVCacheManager → BlockPool → Prop} (id : ReqId)
  (hrefl : ∀ p, T p p) (htrans : ∀ {p p' p''}, T p p' → T p' p'' → T p p'')
  (hpre : ∀ {i m p p'}, Unnoticed null m p p' → T p p' → P i m p → P i m p')
  (hpost : ∀ {m p p'}, Unnoticed null m p p' → T p p' → Q m p → Q m p')
  (hstep : ∀ i m p rest, Kept R owned null rest m p → Distinct R p.hashBlockSize m.blockSize →
    P i m p → Ensures (f i m) p (fun out p' ↦
      Keeps R owned null rest id m p out.1 p' ∧ T p p' ∧ Q out.1 p'))

include hrefl htrans hpre hpost hstep

/-- The rule for a call of each manager in turn. `P` holds of the managers before it, `Q` of those
after it, and `T` is what it does to the pool. -/
theorem onEach_keeps {todo} (done) (h : Joint R owned null (done ++ todo) p)
    (htodo : ∀ j m, todo[j]? = some m → P (done.length + j) m p) (hdone : ∀ m ∈ done, Q m p) :
    Ensures (onEach f done.length todo) p
      (fun out p' ↦ Joint R owned null (done ++ out.1) p' ∧ T p p' ∧
        (done ++ out.1).map (·.fixed) = (done ++ todo).map (·.fixed) ∧ p'.config = p.config ∧
        ∀ m ∈ done ++ out.1, Q m p') := by
  induction todo generalizing done p with
  | nil => exact .pure ⟨h, hrefl p, rfl, rfl, by simpa using hdone⟩
  | cons m todo ih =>
    refine .seq (hstep _ m p _ h.kept (h.distinct m (by simp)) (htodo 0 m rfl)) ?_
    rintro ⟨m', a⟩ p' ⟨hkeeps, hT, hm'⟩
    have hjoint := h.step hkeeps
    have hun : ∀ m'' ∈ done ++ todo, Unnoticed null m'' p p' := fun _ hm'' ↦ hkeeps.2.unnoticed hm''
    rw [append_cons] at hjoint
    have hrest := ih (done ++ [m']) hjoint (fun j m'' hj ↦ ?_) (fun m'' hm'' ↦ ?_)
    · rw [length_append, length_singleton] at hrest
      refine .seq hrest ?_
      rintro out p'' ⟨hj, hT', hfixed, hcfg, hall⟩
      rw [append_assoc] at hj hfixed hall
      refine .pure ⟨hj, htrans hT hT', hfixed.trans ?_, hcfg.trans hkeeps.2.config, hall⟩
      simp [hkeeps.2.fixed]
    · have hmem : m'' ∈ todo := mem_of_getElem? hj
      have := hpre (hun m'' (by simp [hmem])) hT (htodo (j + 1) m'' (by simpa using hj))
      rwa [length_append, length_singleton, Nat.add_assoc, Nat.add_comm 1 j]
    · rcases mem_append.mp hm'' with hm'' | hm''
      · exact hpost (hun m'' (by simp [hm''])) hT (hdone m'' hm'')
      · exact mem_singleton.mp hm'' ▸ hm'

theorem onEach_sane (h : Joint R owned null k.singleTypeManagers p)
    (htodo : ∀ i m, k.singleTypeManagers[i]? = some m → P i m p) :
    Ensures (onEach f 0 k.singleTypeManagers) p (fun out p' ↦ Joint R owned null out.1 p' ∧ T p p' ∧
        SameShape k { k with singleTypeManagers := out.1 } ∧ p'.config = p.config ∧
        ∀ m ∈ out.1, Q m p') := by
  have hrule := onEach_keeps (P := P) id hrefl htrans hpre hpost hstep [] h
    (by simpa using htodo) (by simp)
  exact hrule.mono fun _ _ ho ↦ ⟨ho.1, ho.2.1, ⟨rfl, rfl, rfl, ho.2.2.1⟩, ho.2.2.2⟩

end

theorem removeSkippedBlocks_sane [DecidablePred owned] (h : Sane R owned null k p) (id) (n) :
    Ensures (k.removeSkippedBlocks id n) p
      (fun k' p' ↦ Sane R owned null k' p' ∧ SameShape k k' ∧ SameHashes p p') := by
  refine .seq (onEach_sane (T := SameHashes) id
    (P := fun _ m p ↦ ∀ id, Settled null m p id) (Q := fun m p ↦ ∀ id, Settled null m p id)
    (fun _ ↦ ⟨rfl, rfl⟩) SameHashes.trans (fun hu _ hs id ↦ hu.settled (hs id))
    (fun hu _ hs id ↦ hu.settled (hs id)) ?_ h.joint ?_) ?_
  · intro i m p rest hk hR hs
    refine .seq (removeSkippedBlocks_trims hk hR n) fun m' p' ht ↦ ?_
    exact .pure ⟨ht.keeps, ht.hashes, settled_of_frame ht.keeps.2 hs (ht.settled (hs id))⟩
  · exact fun i m hi ↦ h.settled m (mem_of_getElem? hi)
  rintro out p' ⟨hj, hT, hshape, hcfg, hs⟩
  exact .pure ⟨⟨hj, hs, (congrArg Config.enableCaching hcfg).trans h.caching⟩, hshape, hT⟩

/-- The tables while `allocate_slots` works on those of `id`, before new blocks. -/
structure Opened (R : Request → Prop) (owned : Ref → Prop) (null : Ref) (id : ReqId) (main : ℕ)
    (k : KVCacheManager) (p : BlockPool) : Prop where
  joint : Joint R owned null k.singleTypeManagers p
  settled : ∀ m ∈ k.singleTypeManagers, ∀ id', id' ≠ id → Settled null m p id'
  ready : ∀ m ∈ k.singleTypeManagers, Ready null m p id main

structure Grown (R : Request → Prop) (owned : Ref → Prop) (null : Ref) (id : ReqId) (main : ℕ)
    (k : KVCacheManager) (p : BlockPool) : Prop where
  joint : Joint R owned null k.singleTypeManagers p
  settled : ∀ m ∈ k.singleTypeManagers, ∀ id', Settled null m p id'
  length : ∀ m ∈ k.singleTypeManagers, ∀ s, m.kind = .mamba .align s →
    (m.table id).length = cdiv main m.blockSize + s

theorem Sane.opened (h : Sane R owned null k p) (id) (main) :
    Opened R owned null id main k p :=
  ⟨h.joint, fun m hm id' _ ↦ h.settled m hm id', fun m hm ↦ (h.settled m hm id).ready main⟩

/-- The hits of a new request for each group: each block stands where its hash puts it, and those of
`align` mode leave a block to compute into. -/
def HitsOf (R : Request → Prop) (null : Ref) (main : ℕ) (hits : List (List Ref))
    (k : KVCacheManager) (p : BlockPool) : Prop :=
  ∀ (i : ℕ) m l, k.singleTypeManagers[i]? = some m → hits[i]? = some l →
    Hits R null m p l ∧ ∀ s, m.kind = .mamba .align s → l.length ≤ cdiv main m.blockSize

theorem hits_congr {m l} (h : Hits R null m p l) (hp : SameHashes p p') : Hits R null m p' l := by
  intro i b hb
  rw [hp.blockHash, show p'.hashBlockSize = p.hashBlockSize from congrArg Config.hashBlockSize hp.2]
  exact h i b hb

variable {main : ℕ}

theorem allocateNewComputedBlocks_opened (h : Sane R owned null k p) {hits}
    (hhits : HitsOf R null main hits k p) (id) (n) :
    Ensures (k.allocateNewComputedBlocks id hits n 0) p
      (fun k' p' ↦ Opened R owned null id main k' p' ∧ SameShape k k' ∧ p'.config = p.config) := by
  refine .seq (onEach_sane (T := SameHashes)
    (P := fun i m p ↦ (∀ id, Settled null m p id) ∧ ∀ l, hits[i]? = some l → Hits R null m p l ∧
      ∀ s, m.kind = .mamba .align s → l.length ≤ cdiv main m.blockSize)
    (Q := fun m p ↦ (∀ id', id' ≠ id → Settled null m p id') ∧ Ready null m p id main)
    id (fun _ ↦ ⟨rfl, rfl⟩) SameHashes.trans ?_ ?_ ?_ h.joint ?_) ?_
  · rintro i m p p' hu hT ⟨hs, hl⟩
    exact ⟨fun id ↦ hu.settled (hs id), fun l hi ↦ ⟨hits_congr (hl l hi).1 hT, (hl l hi).2⟩⟩
  · rintro m p p' hu hT ⟨hs, hr⟩
    exact ⟨fun id' hid ↦ hu.settled (hs id' hid), hu.ready hr⟩
  · rintro i m p rest hk hR ⟨hs, hl⟩
    split
    · exact .throw trivial
    next l hi =>
      obtain ⟨hl, hcover⟩ := hl l hi
      refine .seq (allocateNewComputedBlocks_keeps hk hl (hs id)
        hcover) fun m' p' hm' ↦ ?_
      exact .pure ⟨hm'.1, hm'.2.1, fun id' hid ↦ hm'.1.2.settled hid (hs id'), hm'.2.2⟩
  · exact fun i m hi ↦ ⟨h.settled m (mem_of_getElem? hi), fun l hl ↦ hhits i m l hi hl⟩
  · rintro out p' ⟨hj, -, hshape, hcfg, hs⟩
    exact .pure ⟨⟨hj, fun m hm ↦ (hs m hm).1, fun m hm ↦ (hs m hm).2⟩, hshape, hcfg⟩

theorem allocateNewBlocks_grown (h : Opened R owned null id main k p) (n enc) :
    Ensures (k.allocateNewBlocks id n main enc) p
      (fun out p' ↦ Grown R owned null id main out.1 p' ∧ SameShape k out.1 ∧ p'.config = p.config) := by
  refine .seq (onEach_sane
    (P := fun _ m p ↦ (∀ id', id' ≠ id → Settled null m p id') ∧ Ready null m p id main)
    (Q := fun m p ↦ (∀ id', Settled null m p id') ∧ ∀ s, m.kind = .mamba .align s →
      (m.table id).length = cdiv main m.blockSize + s)
    id (fun _ ↦ trivial) (fun _ _ ↦ trivial) ?_ ?_ ?_ h.joint ?_) ?_
  · rintro i m p p' hu - ⟨hs, hr⟩
    exact ⟨fun id' hid ↦ hu.settled (hs id' hid), hu.ready hr⟩
  · rintro m p p' hu - ⟨hs, hl⟩
    exact ⟨fun id' ↦ hu.settled (hs id'), hl⟩
  · rintro i m p rest hk hR ⟨hs, hr⟩
    refine (allocateNewBlocks_keeps hk hr _).mono fun out p' ho ↦ ⟨ho.1, trivial, fun id' ↦ ?_,
      fun s hkind ↦ ?_⟩
    · by_cases hid : id' = id
      · exact hid ▸ ho.2.1
      · exact ho.1.2.settled hid (hs id' hid)
    · rw [ho.1.2.kind_eq] at hkind
      rw [ho.2.2 s hkind, blockSize, blockSize,
        ho.1.2.spec]
  · exact fun i m hi ↦ ⟨h.settled m (mem_of_getElem? hi), h.ready m (mem_of_getElem? hi)⟩
  · rintro out p' ⟨hj, -, hshape, hcfg, hs⟩
    exact .pure ⟨⟨hj, fun m hm ↦ (hs m hm).1, fun m hm ↦ (hs m hm).2⟩, hshape, hcfg⟩

theorem div_le_cdiv {n} (hn : n ≤ main) (size) : n / size ≤ cdiv main size := by
  rcases Nat.eq_zero_or_pos size with rfl | hpos
  · simp
  · exact Nat.div_le_div_right (by omega)

variable {request : Request}

theorem cacheBlocks_sane {n} (hr : R request)
    (h : Grown R owned null request.requestId main k p) (hc : p.enableCaching = true)
    (hk : k.enableCaching = true) (hn : n ≤ min main request.numTokens) (H) :
    Ensures (k.cacheBlocks H request n) p
      (fun k' p' ↦ Sane R owned null k' p' ∧ SameShape k k' ∧ p'.config = p.config) := by
  refine .seq (onEach_sane
    (P := fun _ m p ↦ p.enableCaching = true ∧ (∀ id', Settled null m p id') ∧
      ∀ s, m.kind = .mamba .align s → (m.table request.requestId).length = cdiv main m.blockSize + s)
    (Q := fun m p ↦ ∀ id', Settled null m p id')
    request.requestId (fun _ ↦ trivial) (fun _ _ ↦ trivial) ?_ ?_ ?_ h.joint ?_) ?_
  · rintro i m p p' hu - ⟨hc, hs, hl⟩
    exact ⟨(congrArg Config.enableCaching hu.config).trans hc, fun id' ↦ hu.settled (hs id'), hl⟩
  · exact fun hu _ hs id' ↦ hu.settled (hs id')
  · rintro i m p rest hk hR ⟨hc, hs, hl⟩
    have hbound : ∀ s, m.kind = .mamba .align s →
        n / m.blockSize + s ≤ (m.table request.requestId).length := by
      intro s hkind
      have := div_le_cdiv (hn.trans (min_le_left _ _)) m.blockSize
      rw [hl s hkind]
      omega
    refine .seq (cacheBlocks_keeps hk hc hr (hn.trans (min_le_right _ _))
      (hs request.requestId) hbound H) fun m' p' hm' ↦ ?_
    exact .pure ⟨hm'.1, trivial, settled_of_frame hm'.1.2 hs hm'.2⟩
  · exact fun i m hi ↦ ⟨hc, h.settled m (mem_of_getElem? hi), h.length m (mem_of_getElem? hi)⟩
  · rintro out p' ⟨hj, -, hshape, hcfg, hs⟩
    exact .pure ⟨⟨hj, hs, (congrArg Config.enableCaching hcfg).trans (hc.trans hk.symm)⟩,
      hshape, hcfg⟩

theorem SameShape.hits (h : SameShape k k') (a : SlotArgs) : a.hits k' = a.hits k := by
  have hlen := congrArg length h.fixed
  rw [length_map, length_map] at hlen
  rw [SlotArgs.hits, SlotArgs.hits, hlen]

theorem SameShape.numTokensMainModel (h : SameShape k k') (a : SlotArgs) (request : Request) :
    a.numTokensMainModel k' request = a.numTokensMainModel k request := by
  rw [SlotArgs.numTokensMainModel, SlotArgs.numTokensMainModel, SlotArgs.totalComputedTokens,
    SlotArgs.totalComputedTokens, h.maxModelLen]

theorem HitsOf.congr {hits} (h : HitsOf R null main hits k p)
    (hshape : SameShape k k') (hp : SameHashes p p') : HitsOf R null main hits k' p' := by
  intro i m' l hm' hl
  have hfixed := congrArg (·[i]?) hshape.fixed
  simp only [getElem?_map, hm', Option.map_some] at hfixed
  obtain ⟨m, hm, hmm'⟩ := Option.map_eq_some_iff.mp hfixed.symm
  simp only [fixed, Prod.mk.injEq] at hmm'
  obtain ⟨hspec, hgroup, -⟩ := hmm'
  obtain ⟨hhits, hcover⟩ := h i m l hm hl
  refine ⟨fun j b hb ↦ ?_, fun s hkind ↦ ?_⟩
  · rw [blockSize, ← hspec, ← hgroup]
    exact hits_congr hhits hp j b hb
  · rw [blockSize, ← hspec]
    exact hcover s (by rw [kind, hspec]; exact hkind)

theorem takeSlots_sane {a} (h : Sane R owned null k p)
    (hr : R request) (hext : a.numExternalComputedTokens = 0)
    (hhits : HitsOf R null (a.numTokensMainModel k request) (a.hits k) k p) (H) :
    Ensures (k.takeSlots H request a) p
      (fun out p' ↦ Sane R owned null out.1 p' ∧ SameShape k out.1 ∧ p'.config = p.config) := by
  have hopen : Ensures (k.enterHits request a) p
      (fun k' p' ↦ Opened R owned null request.requestId (a.numTokensMainModel k request) k' p' ∧
        SameShape k k' ∧ p'.config = p.config) := by
    unfold enterHits
    rw [hext]
    split
    · exact allocateNewComputedBlocks_opened h hhits request.requestId _
    · exact .pure ⟨h.opened _ _, .refl k, rfl⟩
  refine .seq hopen ?_
  rintro k1 p1 ⟨ho, hshape, hcfg⟩
  refine .seq (allocateNewBlocks_grown ho _ _) ?_
  rintro ⟨k2, blocks⟩ p2 ⟨hg, hshape', hcfg'⟩
  have hcaching : p2.enableCaching = k.enableCaching :=
    (congrArg Config.enableCaching (hcfg'.trans hcfg)).trans h.caching
  have hsame := hshape.trans hshape'
  split
  · refine .pure ⟨⟨hg.joint, hg.settled, hcaching.trans hsame.caching.symm⟩, hsame,
      hcfg'.trans hcfg⟩
  next hc =>
    have hk : k.enableCaching = true := by
      simp only [not_or, not_not] at hc
      exact hc.1
    refine .seq (cacheBlocks_sane hr hg (hcaching.trans hk) (hsame.caching.trans hk) le_rfl H) ?_
    rintro k3 p3 ⟨hs, hshape'', hcfg''⟩
    exact .pure ⟨hs, hsame.trans hshape'', hcfg''.trans (hcfg'.trans hcfg)⟩

/-- `allocate_slots` without external tokens leaves the tables in order, whatever it returns. -/
theorem allocateSlots_sane [DecidablePred owned] {a}
    (h : Sane R owned null k p) (hr : R request) (hext : a.numExternalComputedTokens = 0)
    (hhits : HitsOf R null (a.numTokensMainModel k request) (a.hits k) k p) (H : Hashing) :
    Ensures (k.allocateSlots H request a) p
      (fun out p' ↦ Sane R owned null out.1 p' ∧ SameShape k out.1 ∧ p'.config = p.config) := by
  refine .ite (fun _ ↦ .throw trivial) fun _ ↦ .get_bind ?_
  split
  · exact .throw trivial
  · exact .pure ⟨h, .refl k, rfl⟩
  refine .seq (removeSkippedBlocks_sane h request.requestId _) ?_
  rintro k' p' ⟨hs, hshape, hp⟩
  refine .get_bind ?_
  split
  · exact .throw trivial
  refine .ite (fun _ ↦ .pure ⟨hs, hshape, hp.2⟩) fun _ ↦ ?_
  have hhits' : HitsOf R null (a.numTokensMainModel k' request) (a.hits k') k' p' := by
    rw [hshape.hits, hshape.numTokensMainModel]
    exact hhits.congr hshape hp
  refine .seq (takeSlots_sane hs hr hext hhits' H) ?_
  rintro out p'' ⟨hs', hshape', hcfg⟩
  exact .pure ⟨hs', hshape.trans hshape', hcfg.trans hp.2⟩

theorem free_sane [DecidablePred owned] (h : Sane R owned null k p) (id) :
    Ensures (k.free id) p
      (fun k' p' ↦ Sane R owned null k' p' ∧ SameShape k k' ∧ p'.config = p.config) := by
  refine .seq (onEach_sane
    (P := fun _ m p ↦ ∀ id, Settled null m p id) (Q := fun m p ↦ ∀ id, Settled null m p id)
    id (fun _ ↦ trivial) (fun _ _ ↦ trivial) (fun hu _ hs id ↦ hu.settled (hs id))
    (fun hu _ hs id ↦ hu.settled (hs id)) ?_ h.joint ?_) ?_
  · intro i m p rest hk hR hs
    refine .seq (free_keeps hk hR id) (fun m' p' hm' ↦ ?_)
    exact .pure ⟨hm'.1, trivial, settled_of_frame hm'.1.2 hs hm'.2.1⟩
  · exact fun i m hi ↦ h.settled m (mem_of_getElem? hi)
  rintro out p' ⟨hj, -, hshape, hcfg, hs⟩
  exact .pure ⟨⟨hj, hs, (congrArg Config.enableCaching hcfg).trans h.caching⟩, hshape, hcfg⟩

end KVCacheManager

end VllmEngine.Core

import VllmEngine.Core.AlignTables
import VllmEngine.Core.ExternalHits
import VllmEngine.Core.NullBlock

namespace VllmEngine.Core

open Lib BlockHash BlockPool List SingleTypeKVCacheManager

def Retains (null : Ref) (lo : ℕ) (t : List Ref) : Prop := ∀ i b, lo ≤ i → t[i]? = some b → b ≠ null

section

variable {null : Ref} {lo lo' : ℕ} {t t' : List Ref}

theorem Retains.mono (h : Retains null lo t) (hlo : lo ≤ lo') : Retains null lo' t :=
  fun i b hi hb ↦ h i b (hlo.trans hi) hb

theorem retains_nil (null) (lo) : Retains null lo [] := by
  intro i b _ hb
  simp at hb

theorem Retains.append (h : Retains null lo t) (h' : null ∉ t') : Retains null lo (t ++ t') := by
  intro i b hi hb
  rw [getElem?_append] at hb
  split at hb
  · exact h i b hi hb
  · exact fun heq ↦ h' (heq ▸ mem_of_getElem? hb)

theorem Retains.padded {n} (h : Retains null lo t) (hn : n ≤ lo) :
    Retains null lo (replicate n null ++ t.drop n) := by
  intro i b hi hb
  rw [getElem?_append_right (by rw [length_replicate]; omega), length_replicate,
    getElem?_drop, show n + (i - n) = i by omega] at hb
  exact h i b hi hb

theorem getElem?_removeLoop (null) {n i} (hi : n ≤ i) (t) :
    (removeLoop null n t).2[i]? = t[i]? := by
  induction n generalizing t with
  | zero => rfl
  | succ n ih =>
    unfold removeLoop
    split
    · rfl
    split
    · rfl
    · rw [ih (by omega), getElem?_set_ne (by omega)]

theorem Retains.removeLoop {n} (h : Retains null lo t) (hn : n ≤ lo) :
    Retains null lo (removeLoop null n t).2 := by
  intro i b hi hb
  rw [getElem?_removeLoop null (hn.trans hi)] at hb
  exact h i b hi hb

end

namespace SingleTypeKVCacheManager

variable {m m' : SingleTypeKVCacheManager} {id : ReqId} {p : BlockPool} {null : Ref} {N : ℕ}

/-- The block up to which the window may have moved past the table, for `N` computed tokens. -/
def windowStart (m : SingleTypeKVCacheManager) (window N : ℕ) : ℕ := (N + 1 - window) / m.blockSize

/-- In a group with a sliding window, the table holds all blocks from the window of position `N` on.
-/
def Windowed (null : Ref) (id : ReqId) (N : ℕ) (m : SingleTypeKVCacheManager) : Prop :=
  ∀ W, m.kind = .slidingWindow W → Retains null (m.windowStart W N) (m.table id)

variable {n size : ℕ} {t t' : List Ref}

theorem windowStart_mono (hn : n ≤ N) (W) : m.windowStart W n ≤ m.windowStart W N :=
  Nat.div_le_div_right (by omega)

theorem Windowed.retables (hr : Retables id t m m')
    (ht : ∀ W, m.kind = .slidingWindow W → Retains null (m.windowStart W N) t) :
    Windowed null id N m' := by
  intro W hW
  rw [hr.kind_eq] at hW
  rw [hr.self, windowStart, hr.blockSize_eq]
  exact ht W hW

theorem Windowed.mono {N'} (h : Windowed null id N m) (hN : N ≤ N') : Windowed null id N' m :=
  fun W hW ↦ (h W hW).mono (windowStart_mono hN W)

/-- What `remove_skipped_blocks` does to the table of a request in a window group. -/
structure Swept (null : Ref) (id : ReqId) (n : ℕ) (m m' : SingleTypeKVCacheManager) : Prop
    extends Trimmed id m m' where
  cached : ∀ W, m.kind = .slidingWindow W → m'.numCachedBlock = m.numCachedBlock
  self : ∀ W, m.kind = .slidingWindow W → m'.table id =
    (removeLoop null (min (m.windowStart W n) (m.table id).length) (m.table id)).2

section

variable (hp : NullApart null p)

include hp

theorem removeSkipped_swept (n) :
    Ensures (m.removeSkipped id n) p (fun m' p' ↦ NullApart null p' ∧ Swept null id n m m') := by
  refine .ite (fun hzero ↦ .pure ⟨hp, .refl id m, fun _ _ ↦ rfl, fun W hW ↦ ?_⟩)
    fun _ ↦ .get_bind ?_
  · simp only [getNumSkippedTokens, hW] at hzero
    rw [windowStart, hzero, Nat.zero_div, Nat.zero_min]
    rfl
  refine .seq (onPool_returns (freeBlocks_nullApart hp _)) fun _ p' hp' ↦ ?_
  refine .pure ⟨hp', .setTable (removeLoop_pruned _ _ _).length, fun _ _ ↦ rfl, fun W hW ↦ ?_⟩
  simp only [table_setTable_self, hp.nullBlock, getNumSkippedTokens, hW, windowStart]

theorem removeLastState_nullApart (n) :
    Ensures (m.removeLastState id n) p (fun _ p' ↦ NullApart null p') := by
  unfold removeLastState
  split
  · exact .pure hp
  refine .ite (fun _ ↦ .get_bind ?_) fun _ ↦ .pure hp
  dsimp only
  split
  · exact .throw trivial
  refine .ite (fun _ ↦ .pure hp) fun _ ↦ ?_
  exact .seq (onPool_returns (freeBlocks_nullApart hp _)) fun _ _ hp' ↦ .pure hp'

theorem removeSkippedBlocks_swept (n) :
    Ensures (m.removeSkippedBlocks id n) p (fun m' p' ↦ NullApart null p' ∧ Swept null id n m m') := by
  unfold removeSkippedBlocks
  split
  next mode s hkind =>
    have hswept : ∀ m', Trimmed id m m' → Swept null id n m m' := fun m' h ↦
      ⟨h, fun W hW ↦ by simp [hkind] at hW, fun W hW ↦ by simp [hkind] at hW⟩
    refine .seq (removeSkipped_swept hp _) fun m' p' h ↦ ?_
    split
    · exact ((removeLastState_nullApart h.1 _).and (removeLastState_trimmed _)).mono
        (fun _ _ h' ↦ ⟨h'.1, hswept _ (h.2.toTrimmed.trans h'.2)⟩)
    all_goals exact .pure ⟨h.1, hswept _ h.2.toTrimmed⟩
  all_goals exact removeSkipped_swept hp n

theorem touchHits_nullApart (hits) :
    Ensures (m.touchHits hits) p (fun _ p' ↦ NullApart null p') := by
  refine .ite (fun _ ↦ onPool_returns (touch_nullApart hp hits)) fun _ ↦ ?_
  exact .ite (fun _ ↦ .throw trivial) fun _ ↦ .pure hp

end

def AppendsUpTo (null : Ref) (n size : ℕ) (t t' : List Ref) : Prop :=
  ∃ new, null ∉ new ∧ t' = t ++ new ∧ t'.length ≤ max t.length (cdiv n size)

/-- What `allocate_new_computed_blocks` does to the table of a request in a window group: nothing,
if its blocks have been cached before. -/
structure HitsAdded (null : Ref) (id : ReqId) (hits : List Ref) (total : ℕ)
    (m m' : SingleTypeKVCacheManager) : Prop extends OnlyFor id m m' where
  self : ∀ W, m.kind = .slidingWindow W →
    (m.numCachedBlock.get? id).isSome ∧ m'.table id = m.table id ∨
      AppendsUpTo null total m.blockSize (m.hitTable null hits total) (m'.table id)

section

variable (hp : NullApart null p)

include hp

theorem addNewBlocks_added (hits) (numLocal numExternal) :
    Ensures (m.addNewBlocks id (m.hitTable null hits (numLocal + numExternal)) numLocal numExternal) p
      (fun m' p' ↦ NullApart null p' ∧ HitsAdded null id hits (numLocal + numExternal) m m') := by
  generalize hblocks : m.hitTable null hits (numLocal + numExternal) = blocks
  have hset : ∀ t, Retables id t m
      ({ m with numCachedBlock := m.numCachedBlock.set id blocks.length }.setTable id t) := fun t ↦
    have h := Retabled.setTable { m with numCachedBlock := m.numCachedBlock.set id blocks.length } id t
    ⟨⟨h.spec, h.table, h.allocated⟩, h.self, Iff.rfl⟩
  refine .ite (fun _ ↦ ?_) fun _ ↦ .pure ⟨hp, (hset _).toOnlyFor, fun _ _ ↦ .inr ?_⟩
  · have hnew := (getNewBlocks_nullApart hp
      (cdiv (numLocal + numExternal) m.blockSize - blocks.length)).and (getNewBlocks_length _ p)
    refine .seq (onPool_returns (hnew.mono fun _ _ h ↦ h)) fun bs p' h ↦ ?_
    obtain ⟨⟨hp', hnull⟩, hlen⟩ := h
    refine .pure ⟨hp', (hset _).toOnlyFor, fun _ _ ↦ .inr ⟨bs, hnull, ?_, ?_⟩⟩
    · rw [(hset _).self, hblocks]
    · rw [(hset _).self, hblocks, length_append]
      omega
  · exact ⟨[], not_mem_nil, by rw [(hset _).self, hblocks, append_nil],
      by rw [(hset _).self, hblocks]; exact le_max_left _ _⟩

theorem allocateNewComputedBlocks_added (hits) (numLocal numExternal) :
    Ensures (m.allocateNewComputedBlocks id hits numLocal numExternal) p
      (fun m' p' ↦ NullApart null p' ∧ HitsAdded null id hits (numLocal + numExternal) m m') := by
  refine .ite (fun hcross ↦ ?_) fun _ ↦ .ite (fun hcached ↦ ?_) fun _ ↦ ?_
  · refine .ite (fun _ ↦ .throw trivial) fun _ ↦ .pure ⟨hp, .refl id m, ?_⟩
    intro W hW
    simp [hcross] at hW
  · exact .ite (fun _ ↦ .throw trivial) fun _ ↦
      .pure ⟨hp, .refl id m, fun _ _ ↦ .inl ⟨hcached, rfl⟩⟩
  refine .ite (fun _ ↦ .throw trivial) fun _ ↦ ?_
  rw [addComputedBlocks_eq]
  refine .seq (touchHits_nullApart hp _) fun _ p' hp' ↦ .get_bind ?_
  rw [hp'.nullBlock]
  exact addNewBlocks_added hp' hits numLocal numExternal

theorem allocateBlocks_nullApart (n) :
    Ensures (m.allocateBlocks id n) p (fun out p' ↦ NullApart null p' ∧ null ∉ out.2) := by
  refine .ite (fun _ ↦ .pure ⟨hp, not_mem_nil⟩) fun _ ↦ ?_
  exact .seq (onPool_returns (getNewBlocks_nullApart hp _)) fun _ _ h ↦ .pure h

theorem allocateBlocksAlign_nullApart (main s) : Ensures (m.allocateBlocksAlign id main s) p
      (fun out p' ↦ NullApart null p' ∧ OnlyFor id m out.1) := by
  refine .ite (fun _ ↦ .pure ⟨hp, (Retables.setTable m id _).toOnlyFor⟩) fun _ ↦ ?_
  refine .ite (fun _ ↦ .throw trivial) fun _ ↦ .get_bind ?_
  split
  · exact .throw trivial
  refine .ite (fun _ ↦ .throw trivial) fun _ ↦ ?_
  refine .seq (onPool_returns (getNewBlocks_nullApart hp _)) fun bs p' hbs ↦ ?_
  exact .pure ⟨hbs.1, (Retabled.withBlocks m id _ _).onlyFor⟩

end

/-- What `allocate_new_blocks` does to the table of a request in a window group. -/
structure Lengthened (null : Ref) (id : ReqId) (n : ℕ) (m m' : SingleTypeKVCacheManager) : Prop
    extends OnlyFor id m m' where
  self : ∀ W, m.kind = .slidingWindow W → cdiv n m.blockSize ≤ (m'.table id).length ∧
    AppendsUpTo null n m.blockSize (m.table id) (m'.table id)

theorem allocateNewBlocks_lengthened (hp : NullApart null p) (n main) :
    Ensures (m.allocateNewBlocks id n main) p
      (fun out p' ↦ NullApart null p' ∧ Lengthened null id n m out.1) := by
  have hblocks : ∀ n', Ensures (m.allocateBlocks id n') p
      (fun out p' ↦ NullApart null p' ∧ Lengthened null id n' m out.1) := fun n' ↦ by
    refine ((allocateBlocks_nullApart hp n').and (allocateBlocks_retables n')).mono
      (fun out p' h ↦ ⟨h.1.1, h.2.1.toOnlyFor, fun _ _ ↦ ?_⟩)
    obtain ⟨⟨-, hnull⟩, hset, hlen⟩ := h
    have hlength : (out.1.table id).length = (m.table id).length + out.2.length := by
      rw [hset.self, length_append]
    exact ⟨by omega, out.2, hnull, hset.self, by omega⟩
  have hother : (∀ W, m.kind ≠ .slidingWindow W) → ∀ m', OnlyFor id m m' → Lengthened null id n m m' :=
    fun hkind m' h ↦ ⟨h, fun W hW ↦ absurd hW (hkind W)⟩
  unfold allocateNewBlocks
  split
  next s hs =>
    exact (allocateBlocksAlign_nullApart hp _ _).mono
      (fun _ _ h ↦ ⟨h.1, hother (fun W hW ↦ by simp [hs] at hW) _ h.2⟩)
  iterate 2
    next s hs =>
      exact (hblocks _).mono
        (fun _ _ h ↦ ⟨h.1, hother (fun W hW ↦ by simp [hs] at hW) _ h.2.toOnlyFor⟩)
  all_goals exact hblocks n

/-- What the last part of `allocate_slots` does to the table of a request in a window group: new
blocks follow those it had, or the hits. -/
structure Supplied (null : Ref) (id : ReqId) (total need : ℕ) (enters : Prop)
    (hit : SingleTypeKVCacheManager → List Ref → Prop) (m m' : SingleTypeKVCacheManager) : Prop
    extends OnlyFor id m m' where
  reaches : ∀ W, m.kind = .slidingWindow W → cdiv need m.blockSize ≤ (m'.table id).length
  self : ∀ W, m.kind = .slidingWindow W → ∃ t,
    AppendsUpTo null (max total need) m.blockSize t (m'.table id) ∧
      (t = m.table id ∧ (enters → (m.numCachedBlock.get? id).isSome) ∨
        ∃ hits, hit m hits ∧ t = m.hitTable null hits total)

section

variable (h : AppendsUpTo null n size t t')

include h

theorem AppendsUpTo.trans {n' t''}
    (h' : AppendsUpTo null n' size t' t'') : AppendsUpTo null (max n n') size t t'' := by
  obtain ⟨new, hnew, rfl, hlen⟩ := h
  obtain ⟨new', hnew', rfl, hlen'⟩ := h'
  refine ⟨new ++ new', by simp [hnew, hnew'], append_assoc _ _ _, ?_⟩
  have := cdiv_mono (le_max_left n n') size
  have := cdiv_mono (le_max_right n n') size
  omega

theorem AppendsUpTo.mono {n'} (hn : n ≤ n') : AppendsUpTo null n' size t t' := by
  obtain ⟨new, hnew, heq, hlen⟩ := h
  exact ⟨new, hnew, heq, hlen.trans (max_le_max_left _ (cdiv_mono hn size))⟩

theorem AppendsUpTo.retains {lo} (ht : Retains null lo t) : Retains null lo t' := by
  obtain ⟨new, hnew, rfl, -⟩ := h
  exact ht.append hnew

end

theorem Swept.windowed (h : Swept null id n m m') (hw : Windowed null id N m) (hn : n ≤ N) :
    Windowed null id N m' := by
  intro W hW
  rw [h.kind_eq] at hW
  rw [h.self W hW, windowStart, h.blockSize_eq]
  exact (hw W hW).removeLoop ((min_le_left _ _).trans (windowStart_mono hn W))

theorem Supplied.windowed {total need enters hit}
    (h : Supplied null id total need enters hit m m') (hw : Windowed null id N m) (htotal : total ≤ N)
    (hhits : ∀ l W, hit m l → m.kind = .slidingWindow W → Retains null (m.windowStart W N) l) :
    Windowed null id N m' := by
  intro W hW
  rw [h.kind_eq] at hW
  obtain ⟨t, happ, hbase⟩ := h.self W hW
  rw [windowStart, h.blockSize_eq]
  apply happ.retains
  rcases hbase with ⟨rfl, -⟩ | ⟨hits, hhit, rfl⟩
  · exact hw W hW
  · refine (hhits hits W hhit hW).padded ?_
    simp only [getNumSkippedTokens, hW]
    exact windowStart_mono htotal W

theorem cacheFull_nullApart (hp : NullApart null p) (H) (request) (n) :
    Ensures (m.cacheFull H request n) p (fun _ p' ↦ NullApart null p') := by
  refine .ite (fun _ ↦ .pure hp) fun _ ↦ ?_
  exact .seq (onPool_returns (cacheFullBlocks_nullApart hp H request _ _ _ _ _)) fun _ _ hp' ↦ .pure hp'

theorem cacheBlocks_nullApart (hp : NullApart null p) (H) (request) (n) :
    Ensures (m.cacheBlocks H request n) p (fun _ p' ↦ NullApart null p') := by
  unfold cacheBlocks
  split
  · exact .throw trivial
  · refine .seq (cacheFull_nullApart hp H request n) fun _ p' hp' ↦ ?_
    refine .get_bind ?_
    split
    · exact .throw trivial
    · exact .pure hp'
  all_goals exact cacheFull_nullApart hp H request n

theorem free_nullApart (hp : NullApart null p) (id) :
    Ensures (m.free id) p (fun _ p' ↦ NullApart null p') :=
  .seq (onPool_returns (freeBlocks_nullApart hp _)) fun _ _ hp' ↦ .pure hp'

end SingleTypeKVCacheManager

namespace KVCacheManager

open SingleTypeKVCacheManager

variable {k k' : KVCacheManager} {id id' : ReqId} {p : BlockPool} {null : Ref} {N : ℕ}

def Windowed (null : Ref) (id : ReqId) (N : ℕ) (k : KVCacheManager) : Prop :=
  ∀ m ∈ k.singleTypeManagers, m.Windowed null id N

theorem Windowed.mono {N'} (h : Windowed null id N k) (hN : N ≤ N') : Windowed null id N' k :=
  fun m hm ↦ (h m hm).mono hN

theorem Windowed.other (h : Windowed null id' N k) (ho : Each (OnlyFor id) k k') (hid : id' ≠ id) :
    Windowed null id' N k' := by
  intro m' hm' W hW
  obtain ⟨m, hm, hQ⟩ := ho.mem hm'
  rw [hQ.table id' hid, windowStart, hQ.blockSize_eq]
  exact h m hm W (hQ.kind_eq ▸ hW)

theorem Windowed.same (h : Windowed null id N k)
    (hr : Each (fun m m' ↦ Retables id (m.table id) m m') k k') : Windowed null id N k' := by
  intro m' hm'
  obtain ⟨m, hm, hQ⟩ := hr.mem hm'
  exact .retables hQ (h m hm)

theorem Windowed.of_empty (h : ∀ m ∈ k.singleTypeManagers, m.table id = []) :
    Windowed null id N k := by
  intro m hm W _
  rw [h m hm]
  exact retains_nil null _

theorem removeSkippedBlocks_swept (hp : NullApart null p) (n) :
    Ensures (k.removeSkippedBlocks id n) p
      (fun k' p' ↦ NullApart null p' ∧ Each (Swept null id n) k k') := by
  refine .andThen (onEach_invariant 0 hp
    fun j m p _ hp ↦ ?_) fun out p' ho ↦ .pure ⟨ho.1, .of_managers ho.2⟩
  exact .seq (SingleTypeKVCacheManager.removeSkippedBlocks_swept hp n) fun _ _ h ↦ .pure h

variable {request : Request} {a : SlotArgs}

/-- The hits of a new request cover the window of position `N`. -/
def HitsCover (null : Ref) (k : KVCacheManager) (a : SlotArgs) (N : ℕ) : Prop :=
  ∀ (i : ℕ) m l W, k.singleTypeManagers[i]? = some m → (a.hits k)[i]? = some l →
    m.kind = .slidingWindow W → Retains null (m.windowStart W N) l

theorem HitsCover.mono {N'} (h : HitsCover null k a N) (hN : N ≤ N') : HitsCover null k a N' :=
  fun i m l W hm hl hW ↦ (h i m l W hm hl hW).mono (windowStart_mono hN W)

variable {Q : SingleTypeKVCacheManager → SingleTypeKVCacheManager → Prop}

theorem HitsCover.congr (h : HitsCover null k a N) (he : Each Q k k')
    (hQ : ∀ m m', Q m m' → m'.kvCacheSpec = m.kvCacheSpec) : HitsCover null k' a N := by
  intro i m' l W hm' hl hW
  obtain ⟨m, hm, hmm'⟩ := he.source hm'
  have hspec := hQ m m' hmm'
  have hhits : a.hits k' = a.hits k := by rw [SlotArgs.hits, SlotArgs.hits, he.length]
  rw [windowStart, blockSize, hspec]
  exact h i m l W hm (hhits ▸ hl) (by rw [kind, ← hspec]; exact hW)

def SlotArgs.HitsOf (a : SlotArgs) (k : KVCacheManager) (m : SingleTypeKVCacheManager)
    (l : List Ref) : Prop :=
  ∃ i : ℕ, k.singleTypeManagers[i]? = some m ∧ (a.hits k)[i]? = some l

def SlotArgs.Enters (a : SlotArgs) : Prop :=
  a.newComputedBlocks.isSome ∨ 0 < a.numExternalComputedTokens

theorem enterHits_added (hp : NullApart null p) : Ensures (k.enterHits request a) p
      (fun k' p' ↦ NullApart null p' ∧ Each (fun m m' ↦ ¬ a.Enters ∧ m' = m ∨
        ∃ l, a.HitsOf k m l ∧ HitsAdded null request.requestId l
          (a.numLocalComputedTokens request + a.numExternalComputedTokens) m m') k k') := by
  refine .ite (fun _ ↦ ?_) fun hno ↦ .pure ⟨hp, .refl (fun _ ↦ .inl ⟨hno, rfl⟩) k⟩
  refine .andThen (onEach_invariant 0 hp fun j m p hj hp ↦ ?_) fun out p' ho ↦ .pure ⟨ho.1, .of_managers ho.2⟩
  rw [Nat.zero_add]
  split
  · exact .throw trivial
  next l hl =>
    exact .seq (allocateNewComputedBlocks_added hp l _ _) fun _ _ h ↦ .pure ⟨h.1, .inr ⟨l, ⟨j, hj, hl⟩, h.2⟩⟩

theorem allocateNewBlocks_lengthened (hp : NullApart null p) (n main enc) :
    Ensures (k.allocateNewBlocks id n main enc) p
      (fun out p' ↦ NullApart null p' ∧ Each (Lengthened null id n) k out.1) := by
  refine .andThen (onEach_invariant 0 hp
    fun j m p _ hp ↦ ?_) fun out p' ho ↦ .pure ⟨ho.1, .of_managers ho.2⟩
  by_cases hcross : m.kind = .crossAttention
  · refine (SingleTypeKVCacheManager.allocateNewBlocks_lengthened hp _ main).mono fun out p' ho ↦
      ⟨ho.1, ho.2.toOnlyFor, fun W hW ↦ ?_⟩
    simp [hcross] at hW
  · rw [if_neg hcross]
    exact SingleTypeKVCacheManager.allocateNewBlocks_lengthened hp n main

theorem Each.comp {Q' R k''} (h : Each Q k k') (h' : Each Q' k' k'')
    (hR : ∀ m m' m'', Q m m' → Q' m' m'' → R m m'') : Each R k k'' := by
  refine ⟨h'.maxModelLen.trans h.maxModelLen, h'.caching.trans h.caching, ?_⟩
  refine forall₂_iff_get.mpr ⟨(h'.length.trans h.length).symm, fun i hi hi'' ↦ ?_⟩
  have hi' : i < k'.singleTypeManagers.length := h.length ▸ hi
  exact hR _ _ _ (h.managers.get hi hi') (h'.managers.get hi' hi'')

theorem cacheBlocks_nullApart (hp : NullApart null p) (H) (request) (n) :
    Ensures (k.cacheBlocks H request n) p (fun _ p' ↦ NullApart null p') := by
  refine .andThen (onEach_invariant (Q := fun _ _ ↦ True) 0 hp
    fun j m p hj hp ↦ ?_) fun out p' ho ↦ .pure ho.1
  exact .seq (SingleTypeKVCacheManager.cacheBlocks_nullApart hp H request n) fun _ _ hp' ↦ .pure ⟨hp', trivial⟩

theorem Each.numTokensNeedSlot (h : Each Q k k') (a : SlotArgs) (request : Request) :
    a.numTokensNeedSlot k' request = a.numTokensNeedSlot k request := by
  rw [SlotArgs.numTokensNeedSlot, SlotArgs.numTokensNeedSlot, h.numTokensMainModel, h.maxModelLen]

theorem takeSlots_supplied (hp : NullApart null p) (H) :
    Ensures (k.takeSlots H request a) p
      (fun out p' ↦ NullApart null p' ∧ Each (Supplied null request.requestId
        (a.numLocalComputedTokens request + a.numExternalComputedTokens)
        (a.numTokensNeedSlot k request) a.Enters (a.HitsOf k)) k out.1) := by
  refine .seq (enterHits_added hp) fun k1 p1 h1 ↦ ?_
  refine .seq (allocateNewBlocks_lengthened h1.1 _ _ _) fun out p2 h2 ↦ ?_
  have hsup := h1.2.comp h2.2 (R := Supplied null request.requestId
      (a.numLocalComputedTokens request + a.numExternalComputedTokens)
      (a.numTokensNeedSlot k request) a.Enters (a.HitsOf k)) fun m m1 m' hm1 hm' ↦ by
    rcases hm1 with ⟨hno, rfl⟩ | ⟨l, hl, hent⟩
    · exact ⟨hm'.toOnlyFor, fun W hW ↦ (hm'.self W hW).1, fun W hW ↦
        ⟨_, (hm'.self W hW).2.mono (le_max_right _ _), .inl ⟨rfl, fun h ↦ absurd h hno⟩⟩⟩
    have hkind := hent.kind_eq
    refine ⟨hent.toOnlyFor.trans hm'.toOnlyFor, fun W hW ↦ ?_, fun W hW ↦ ?_⟩
    all_goals obtain ⟨hreach, happ⟩ := hm'.self W (hkind.trans hW)
    all_goals rw [hent.blockSize_eq] at hreach happ
    · exact hreach
    rcases hent.self W hW with ⟨hcached, heq⟩ | hhits
    · rw [heq] at happ
      exact ⟨_, happ.mono (le_max_right _ _), .inl ⟨rfl, fun _ ↦ hcached⟩⟩
    · exact ⟨_, hhits.trans happ, .inr ⟨l, hl, rfl⟩⟩
  refine .ite (fun _ ↦ .pure ⟨h2.1, hsup⟩) fun _ ↦ ?_
  have hcache := (cacheBlocks_nullApart h2.1 H request
    (min (a.totalComputedTokens k request + a.numNewTokens) request.numTokens)).and
    (cacheBlocks_retables (k := out.1) (p := p2) H request _ request.requestId)
  refine .seq hcache fun k3 p3 h3 ↦ .pure ⟨h3.1, ?_⟩
  refine hsup.comp h3.2 fun m m2 m' h hr ↦ ⟨h.toOnlyFor.trans hr.toOnlyFor, ?_, ?_⟩
  all_goals rw [hr.self]
  · exact h.reaches
  · exact h.self

theorem allocateSlots_supplied (hp : NullApart null p) (H : Hashing) :
    Ensures (k.allocateSlots H request a) p
      (fun out p' ↦ NullApart null p' ∧ (out.1 = k ∧ out.2 = none ∨
        ∃ k1, Each (Swept null request.requestId (a.totalComputedTokens k request)) k k1 ∧
          if out.2.isSome then Each (Supplied null request.requestId
            (a.numLocalComputedTokens request + a.numExternalComputedTokens)
            (a.numTokensNeedSlot k request) a.Enters (a.HitsOf k1)) k1 out.1
          else out.1 = k1)) := by
  refine .ite (fun _ ↦ .throw trivial) fun _ ↦ .get_bind ?_
  split
  · exact .throw trivial
  · exact .pure ⟨hp, .inl ⟨rfl, rfl⟩⟩
  refine .seq (removeSkippedBlocks_swept hp _) fun k1 p1 h1 ↦ ?_
  refine .get_bind ?_
  split
  · exact .throw trivial
  refine .ite (fun _ ↦ .pure ⟨h1.1, .inr ⟨k1, h1.2, rfl⟩⟩) fun _ ↦ ?_
  refine .seq (takeSlots_supplied h1.1 H) fun out p2 ho ↦ .pure ?_
  rw [h1.2.numTokensNeedSlot] at ho
  exact ⟨ho.1, .inr ⟨k1, h1.2, ho.2⟩⟩

/-- The tables of a request in the window groups have a block for each of the first `n` tokens. -/
def Reaches (id : ReqId) (n : ℕ) (k : KVCacheManager) : Prop :=
  ∀ m ∈ k.singleTypeManagers, ∀ W, m.kind = .slidingWindow W →
    cdiv n m.blockSize ≤ (m.table id).length

section

variable (hp : NullApart null p)

include hp

theorem free_empties (id) : Ensures (k.free id) p
      (fun k' p' ↦ NullApart null p' ∧ Each (OnlyFor id) k k' ∧
        ∀ m ∈ k'.singleTypeManagers, m.table id = []) := by
  refine .andThen (onEach_invariant (Q := fun m m' ↦ OnlyFor id m m' ∧
    m'.table id = []) 0 hp fun j m p hj hp ↦ ?_) fun out p' ho ↦ .pure ?_
  · have hfree := ((free_nullApart hp id).and (free_onlyFor (m := m) (p := p) id))
    exact .seq hfree fun _ _ h ↦ .pure ⟨h.1, h.2.1, h.2.2.1⟩
  have heach := Each.of_managers ho.2
  refine ⟨ho.1, heach.mono fun _ _ h ↦ h.1, fun m' hm' ↦ ?_⟩
  obtain ⟨m, _, hQ⟩ := heach.mem hm'
  exact hQ.2

theorem free_windowed (id) : Ensures (k.free id) p
      (fun k' p' ↦ NullApart null p' ∧ Each (OnlyFor id) k k' ∧ Windowed null id 0 k') :=
  (free_empties hp id).mono fun _ _ h ↦ ⟨h.1, h.2.1, .of_empty h.2.2⟩

/-- `allocate_slots` keeps the blocks in the window of position `N`, even if it returns `None`, and
has a block for each token in its last case. -/
theorem allocateSlots_windowed (h : Windowed null request.requestId N k)
    (hN : a.numLocalComputedTokens request + a.numExternalComputedTokens ≤ N)
    (hhits : HitsCover null k a N) (H) :
    Ensures (k.allocateSlots H request a) p
      (fun out p' ↦ NullApart null p' ∧ Each (OnlyFor request.requestId) k out.1 ∧
        Windowed null request.requestId N out.1 ∧
        if out.2.isSome then Reaches request.requestId (a.numTokensNeedSlot k request) out.1
        else Each (Trimmed request.requestId) k out.1) := by
  refine (allocateSlots_supplied hp H).mono fun out p' ho ↦ ⟨ho.1, ?_⟩
  rcases ho.2 with ⟨hk, hnone⟩ | ⟨k1, hswept, hcase⟩
  · rw [hk, hnone]
    exact ⟨.refl (OnlyFor.refl _) k, h, .refl (Trimmed.refl _) k⟩
  have honly : Each (OnlyFor request.requestId) k k1 := hswept.mono fun _ _ h ↦ h.toOnlyFor
  have hwin : Windowed null request.requestId N k1 := fun m1 hm1 ↦ by
    obtain ⟨m, hm, hQ⟩ := hswept.mem hm1
    exact hQ.windowed (h m hm) ((min_le_left _ _).trans hN)
  split at hcase
  next hsome =>
    rw [if_pos hsome]
    refine ⟨honly.comp hcase fun _ _ _ h h' ↦ h.trans h'.toOnlyFor, fun m' hm' ↦ ?_, fun m' hm' W hW ↦ ?_⟩
    all_goals obtain ⟨m1, hm1, hQ⟩ := hcase.mem hm'
    · refine hQ.windowed (hwin m1 hm1) hN fun l W hl hW ↦ ?_
      obtain ⟨i, hi, hl⟩ := hl
      exact hhits.congr hswept (fun _ _ h ↦ h.spec) i m1 l W hi hl hW
    · rw [hQ.blockSize_eq]
      exact hQ.reaches W (hQ.kind_eq ▸ hW)
  next hnone =>
    rw [if_neg hnone, hcase]
    exact ⟨honly, hwin, hswept.mono fun _ _ h ↦ h.toTrimmed⟩

theorem getManager_nullApart (spec) (i) (caching) (tokens len) :
    Ensures (getManagerForKvCacheSpec spec i caching tokens len) p (fun _ p' ↦ NullApart null p') := by
  unfold getManagerForKvCacheSpec
  split
  · refine .ite (fun _ ↦ .throw trivial) fun _ ↦ ?_
    refine .seq (onPool_returns (hp.onQueue
      (FreeKVCacheBlockQueue.popleftN_skips _ hp.queue hp.block.1))) fun _ _ ho ↦ ?_
    exact .pure ho.1
  all_goals exact .pure hp

theorem initManagers_nullApart (cfg : KVCacheManagerConfig) (i) (gs) :
    Ensures (initManagers cfg i gs) p (fun _ p' ↦ NullApart null p') := by
  induction gs generalizing i p with
  | nil => exact .pure hp
  | cons g gs ih =>
    refine .seq (getManager_nullApart hp _ _ _ _ _) fun m p1 hp1 ↦ ?_
    exact .seq (ih hp1 (i + 1)) fun _ _ hp2 ↦ .pure hp2

end

theorem init_nullApart {cfg} (h : KVCacheManager.init cfg = .ok (k, p)) : NullApart (.blk 0) p := by
  unfold KVCacheManager.init at h
  split at h
  · cases h
  next p0 hp0 =>
    split at h
    · cases h
    · cases h
    next ms p1 coordinator hms hcoord =>
      cases h
      exact (initManagers_nullApart (BlockPool.init_nullApart hp0) cfg 0 _).ok hms

end KVCacheManager

end VllmEngine.Core

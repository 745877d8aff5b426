import VllmEngine.Core.KVCacheCounts
import Mathlib.Algebra.Order.BigOperators.Group.List

namespace VllmEngine.Core

open Lib BlockHash BlockPool List

namespace BlockPool

variable {null : Ref} {refs refs' refs'' : Ref → ℕ} {queue queue' : List Ref} {p p' p'' : BlockPool}

structure Backed (null : Ref) (refs : Ref → ℕ) (queue : List Ref) (p : BlockPool) : Prop where
  holds : p.freeBlockQueue.Holds queue
  nullBlock : p.nullBlock = null
  isNull : ∀ b, p.isNull b = decide (b = null)
  null_not_mem : null ∉ queue
  idle : ∀ b ∈ queue, p.refCnt b = 0
  counted : ∀ b, b ≠ null → (refs b : ℤ) ≤ p.refCnt b

/-- References have been given back: only their counts and the free queue have changed. -/
structure Drops (null : Ref) (refs refs' : Ref → ℕ) (p p' : BlockPool) : Prop where
  same : p' = { p with refCnt := p'.refCnt, freeBlockQueue := p'.freeBlockQueue }
  nullRefs : p'.refCnt null = p.refCnt null
  refCnt : ∀ b, b ≠ null → p'.refCnt b + refs b = p.refCnt b + refs' b
  le : ∀ b, b ≠ null → refs' b ≤ refs b

theorem Drops.refl (null : Ref) (refs : Ref → ℕ) (p : BlockPool) : Drops null refs refs p p :=
  ⟨rfl, rfl, fun _ _ ↦ rfl, fun _ _ ↦ le_rfl⟩

theorem Drops.trans (h : Drops null refs refs' p p') (h' : Drops null refs' refs'' p' p'') :
    Drops null refs refs'' p p'' := by
  refine ⟨?_, h'.nullRefs.trans h.nullRefs, fun b hb ↦ ?_, fun b hb ↦ (h'.le b hb).trans (h.le b hb)⟩
  · have hsame := h'.same
    rw [h.same] at hsame
    exact hsame
  · have := h.refCnt b hb
    have := h'.refCnt b hb
    omega

theorem Drops.nullBlock (h : Drops null refs refs' p p') : p'.nullBlock = p.nullBlock := by
  rw [h.same]

def Requeues (null : Ref) (refs refs' : Ref → ℕ) (queue : List Ref) (p' : BlockPool) : Prop :=
  ∃ freed, Backed null refs' (queue ++ freed) p' ∧ ∀ b ∈ freed, refs' b < refs b

theorem Requeues.refl (h : Backed null refs queue p) : Requeues null refs refs queue p :=
  ⟨[], by rwa [append_nil], fun _ hb ↦ absurd hb not_mem_nil⟩

theorem Requeues.trans (hle : ∀ b, b ≠ null → refs' b ≤ refs b)
    (hle' : ∀ b, b ≠ null → refs'' b ≤ refs' b) (h : Requeues null refs refs' queue p')
    (h' : ∀ queue', Backed null refs' queue' p' → Requeues null refs' refs'' queue' p'') :
    Requeues null refs refs'' queue p'' := by
  obtain ⟨freed, hbacked, hgiven⟩ := h
  obtain ⟨freed', hbacked', hgiven'⟩ := h' _ hbacked
  rw [append_assoc] at hbacked'
  refine ⟨freed ++ freed', hbacked', fun b hb ↦ ?_⟩
  have hne : b ≠ null := by
    rintro rfl
    exact hbacked'.null_not_mem (mem_append_right _ hb)
  rcases mem_append.mp hb with hb | hb
  · exact (hle' b hne).trans_lt (hgiven b hb)
  · exact (hgiven' b hb).trans_le (hle b hne)

theorem freeBlocks_drops {removed} (hnull : null ∉ removed)
    (hrefs : ∀ b, b ≠ null → refs' b + removed.count b = refs b) :
    Ensures (freeBlocks removed) p (fun _ p' ↦ Drops null refs refs' p p') := by
  refine .intro fun _ p' hrun ↦ ?_
  simp only [freeBlocks, EState.bind_apply, dropRefs_eq, EState.get_apply, onQueue] at hrun
  split at hrun
  next q _ =>
    obtain ⟨-, rfl⟩ := EStateM.Result.ok.inj hrun
    refine ⟨rfl, ?_, fun b hb ↦ ?_, fun b hb ↦ ?_⟩
    · simp [count_eq_zero_of_not_mem hnull]
    · have := hrefs b hb
      dsimp only
      omega
    · have := hrefs b hb
      omega
  · cases hrun

theorem freeBlocks_requeues (h : Backed null refs queue p) {removed}
    (hnodup : removed.Nodup) (hmem : ∀ b ∈ removed, b ≠ null ∧ ∃ i, b = .blk i)
    (hrefs : ∀ b, b ≠ null → refs' b + removed.count b = refs b) :
    Succeeds (freeBlocks removed) p (fun _ p' ↦ Requeues null refs refs' queue p') := by
  set freed := removed.filter fun b ↦ p.refCnt b - removed.count b = 0 ∧ ¬ p.isNull b = true
  have hfreed : ∀ b ∈ freed, b ∈ removed ∧ p.refCnt b - removed.count b = 0 := by
    intro b hb
    have := mem_filter.mp hb
    simp only [decide_eq_true_eq] at this
    exact ⟨this.1, this.2.1⟩
  have hpos : ∀ b ∈ removed, refs' b < refs b := by
    intro b hb
    have := hrefs b (hmem b hb).1
    have := count_pos_iff.mpr hb
    omega
  have hbusy : ∀ b ∈ queue, b ∉ removed := by
    intro b hb hr
    have := h.idle b hb
    have := h.counted b (hmem b hr).1
    have := hpos b hr
    omega
  have hd : (queue ++ freed).Nodup := by
    refine nodup_append.mpr ⟨h.holds.nodup_blocks, hnodup.filter _, ?_⟩
    rintro a ha b hb rfl
    exact hbusy a ha (hfreed a hb).1
  obtain ⟨q, hrun, hq⟩ := FreeKVCacheBlockQueue.appendN_holds h.holds hd
    (fun hm ↦ by simpa using (hmem _ (hfreed _ hm).1).2)
    (fun hm ↦ by simpa using (hmem _ (hfreed _ hm).1).2)
  have hcount : ∀ b ∉ removed, p.refCnt b - removed.count b = p.refCnt b := fun b hb ↦ by
    simp [count_eq_zero_of_not_mem hb]
  have hnull : null ∉ removed := fun hb ↦ (hmem _ hb).1 rfl
  have hres : Backed null refs' (queue ++ freed)
      { p with freeBlockQueue := q, refCnt := fun r ↦ p.refCnt r - removed.count r } := by
    refine ⟨hq, h.nullBlock, h.isNull, ?_, fun b hb ↦ ?_, fun b hb ↦ ?_⟩
    · rw [mem_append, not_or]
      exact ⟨h.null_not_mem, fun hb ↦ hnull (hfreed _ hb).1⟩
    · rcases mem_append.mp hb with hb | hb
      · exact (hcount b (hbusy b hb)).trans (h.idle b hb)
      · exact (hfreed b hb).2
    have := hrefs b hb
    have := h.counted b hb
    dsimp only
    omega
  refine .of_ok (a := ()) ?_ ⟨freed, hres, fun b hb ↦ hpos b (hfreed b hb).1⟩
  simp only [freeBlocks, EState.bind_apply, dropRefs_eq, EState.get_apply, onQueue]
  rw [hrun]

end BlockPool

namespace SingleTypeKVCacheManager

variable {null : Ref} {m m' m'' : SingleTypeKVCacheManager} {id : ReqId} {p p' : BlockPool}
  {queue : List Ref} {extra : Ref → ℕ} {n : ℕ}

/-- The null block has taken places of the table of `id` outside of the attention window; nothing
else has changed. -/
structure Vacates (null : Ref) (id : ReqId) (n : ℕ) (m m' : SingleTypeKVCacheManager) : Prop where
  same : m' = { m with reqToBlocks := m'.reqToBlocks }
  others : ∀ id', id' ≠ id → m'.table id' = m.table id'
  length : (m'.table id).length = (m.table id).length
  kept : ∀ i : ℕ, (m'.table id)[i]? = (m.table id)[i]? ∨
    (m'.table id)[i]? = some null ∧ (i + 1) * m.blockSize ≤ m.getNumSkippedTokens n

theorem Vacates.refl (null : Ref) (id : ReqId) (n : ℕ) (m : SingleTypeKVCacheManager) :
    Vacates null id n m m := ⟨rfl, fun _ _ ↦ rfl, rfl, fun _ ↦ .inl rfl⟩

theorem Vacates.spec_eq (h : Vacates null id n m m') : m'.kvCacheSpec = m.kvCacheSpec := by
  rw [h.same]

theorem Vacates.trans (h : Vacates null id n m m') (h' : Vacates null id n m' m'') :
    Vacates null id n m m'' := by
  refine ⟨?_, fun id' hid ↦ (h'.others id' hid).trans (h.others id' hid), h'.length.trans h.length,
    fun i ↦ ?_⟩
  · have hsame := h'.same
    rw [h.same] at hsame
    exact hsame
  rcases h'.kept i with hi | ⟨hi, hle⟩
  · rw [hi]
    exact h.kept i
  · refine .inr ⟨hi, ?_⟩
    rwa [blockSize, getNumSkippedTokens, kind, h.spec_eq] at hle

structure ProperTable (null : Ref) (t : List Ref) : Prop where
  pooled : ∀ b ∈ t, b ≠ null → ∃ i, b = .blk i
  once : ∀ b, b ≠ null → t.count b ≤ 1

theorem ProperTable.pruned {t removed t'} (h : ProperTable null t)
    (hpruned : Pruned null t removed t') : ProperTable null t' := by
  refine ⟨fun b hb hn ↦ ?_, fun b hn ↦ ?_⟩
  · obtain ⟨i, hi⟩ := mem_iff_getElem?.mp hb
    exact h.pooled b (mem_of_getElem? ((hpruned.get i b hi).resolve_left hn)) hn
  · have := hpruned.count b hn
    have := h.once b hn
    omega

theorem ProperTable.removed {t removed t'} (h : ProperTable null t)
    (hpruned : Pruned null t removed t') :
    removed.Nodup ∧ ∀ b ∈ removed, b ≠ null ∧ ∃ i, b = .blk i := by
  refine ⟨nodup_iff_count_le_one.mpr fun b ↦ ?_, fun b hb ↦ ?_⟩
  · by_cases hb : b ∈ removed
    · have hn := (hpruned.mem b hb).1
      have := hpruned.count b hn
      have := h.once b hn
      omega
    · rw [count_eq_zero_of_not_mem hb]
      exact Nat.zero_le 1
  · obtain ⟨hn, hmem⟩ := hpruned.mem b hb
    exact ⟨hn, h.pooled b hmem hn⟩

def refs (id : ReqId) (extra : Ref → ℕ) (m : SingleTypeKVCacheManager) (b : Ref) : ℕ :=
  (m.table id).count b + extra b

structure Yields (null : Ref) (id : ReqId) (n : ℕ) (m : SingleTypeKVCacheManager) (p : BlockPool)
    (m' : SingleTypeKVCacheManager) (p' : BlockPool) : Prop where
  vacates : Vacates null id n m m'
  drops : ∀ extra, Drops null (m.refs id extra) (m'.refs id extra) p p'
  proper : ProperTable null (m.table id) → ProperTable null (m'.table id)
  queue : ProperTable null (m.table id) → ∀ extra queue, Backed null (m.refs id extra) queue p →
    Requeues null (m.refs id extra) (m'.refs id extra) queue p'

theorem Yields.refl (null : Ref) (id : ReqId) (n : ℕ) (m : SingleTypeKVCacheManager) (p : BlockPool) :
    Yields null id n m p m p :=
  ⟨.refl null id n m, fun _ ↦ .refl null _ p, fun ht ↦ ht, fun _ _ _ h ↦ .refl h⟩

theorem Yields.trans {p''} (h : Yields null id n m p m' p')
    (h' : Yields null id n m' p' m'' p'') : Yields null id n m p m'' p'' :=
  ⟨h.vacates.trans h'.vacates, fun extra ↦ (h.drops extra).trans (h'.drops extra),
    fun ht ↦ h'.proper (h.proper ht), fun ht extra queue hq ↦
      (h.queue ht extra queue hq).trans (h.drops extra).le (h'.drops extra).le
        (h'.queue (h.proper ht) extra)⟩

theorem freeBlocks_yields {removed t} (hpruned : Pruned null (m.table id) removed t)
    (hkept : ∀ i : ℕ, t[i]? = (m.table id)[i]? ∨
      t[i]? = some null ∧ (i + 1) * m.blockSize ≤ m.getNumSkippedTokens n) :
    Ensures (onPool (freeBlocks removed)) p
      (fun _ p' ↦ Yields null id n m p (m.setTable id t) p') := by
  have hrefs : ∀ extra b, b ≠ null →
      (m.setTable id t).refs id extra b + removed.count b = m.refs id extra b := by
    intro extra b hb
    have := hpruned.count b hb
    rw [refs, refs, table_setTable_self]
    omega
  have hnull : null ∉ removed := fun hb ↦ (hpruned.mem _ hb).1 rfl
  refine onPool_returns (.intro fun _ p' hrun ↦ ⟨⟨rfl, fun id' hid ↦ table_setTable_ne m hid t,
    ?_, ?_⟩, fun extra ↦ (freeBlocks_drops hnull (hrefs extra)).ok hrun, ?_, ?_⟩)
  · rw [table_setTable_self]
    exact hpruned.length
  · rw [table_setTable_self]
    exact hkept
  · rw [table_setTable_self]
    exact fun ht ↦ ht.pruned hpruned
  · intro ht extra queue hq
    obtain ⟨hnodup, hmem⟩ := ht.removed hpruned
    exact (freeBlocks_requeues hq hnodup hmem (hrefs extra)).ok hrun

theorem removeLoop_kept (null : Ref) (n : ℕ) (t : List Ref) (i : ℕ) :
    (removeLoop null n t).2[i]? = t[i]? ∨ (removeLoop null n t).2[i]? = some null ∧ i < n := by
  induction n generalizing t with
  | zero => exact .inl rfl
  | succ n ih =>
    unfold removeLoop
    split
    · exact .inl rfl
    next b hb =>
      split
      · exact .inl rfl
      rcases ih (t.set n null) with h | ⟨h, hi⟩
      · by_cases hin : i = n
        · subst hin
          have hlt := (List.getElem?_eq_some_iff.mp hb).1
          exact .inr ⟨h.trans (getElem?_set_self hlt), Nat.lt_succ_self i⟩
        · exact .inl (h.trans (getElem?_set_ne (Ne.symm hin)))
      · exact .inr ⟨h, Nat.lt_succ_of_lt hi⟩

theorem removeSkipped_yields (hnull : p.nullBlock = null) (n : ℕ) :
    Ensures (m.removeSkipped id n) p (fun m' p' ↦ Yields null id n m p m' p') := by
  refine .ite (fun _ ↦ .pure (.refl null id n m p)) fun _ ↦ .get_bind ?_
  rw [hnull]
  refine .seq (freeBlocks_yields (removeLoop_pruned null _ _) fun i ↦ ?_) fun _ _ hp' ↦ .pure hp'
  refine (removeLoop_kept null _ _ i).imp_right fun hi ↦ ⟨hi.1, ?_⟩
  have hlt := hi.2.trans_le (min_le_left _ _)
  exact (Nat.mul_le_mul_right _ hlt).trans (Nat.div_mul_le_self _ _)

theorem removeLastState_yields (hnull : p.nullBlock = null) {mode s}
    (hkind : m.kind = .mamba mode s) (n : ℕ) :
    Ensures (m.removeLastState id n) p (fun m' p' ↦ Yields null id n m p m' p') := by
  have hsame : Yields null id n m p m p := .refl null id n m p
  unfold removeLastState
  split
  · exact .pure hsame
  next idx _ =>
    refine .ite (fun hidx ↦ .get_bind ?_) fun _ ↦ .pure hsame
    rw [hnull]
    dsimp only
    split
    · exact .throw trivial
    next b hb =>
      refine .ite (fun _ ↦ .pure hsame) fun hne ↦ ?_
      refine .seq (freeBlocks_yields (.set hb hne) fun i ↦ ?_) fun _ _ hp' ↦ .pure hp'
      by_cases hi : i = idx
      · subst hi
        refine .inr ⟨List.getElem?_set_self (List.getElem?_eq_some_iff.mp hb).1, ?_⟩
        -- the state two blocks further on has been computed
        have hmul : (i + 2) * m.blockSize ≤ n + m.blockSize - 1 :=
          (Nat.mul_le_mul_right _ hidx).trans (Nat.div_mul_le_self _ _)
        rw [getNumSkippedTokens, hkind]
        rw [add_mul] at hmul ⊢
        dsimp only
        omega
      · exact .inl (getElem?_set_ne (Ne.symm hi))

theorem Yields.mono {n'} (h : Yields null id n m p m' p')
    (hle : m.getNumSkippedTokens n ≤ m.getNumSkippedTokens n') : Yields null id n' m p m' p' :=
  ⟨⟨h.vacates.same, h.vacates.others, h.vacates.length, fun i ↦ (h.vacates.kept i).imp_right fun hi ↦
    ⟨hi.1, hi.2.trans hle⟩⟩, h.drops, h.proper, h.queue⟩

theorem removeSkippedBlocks_yields (hnull : p.nullBlock = null) (n : ℕ) :
    Ensures (m.removeSkippedBlocks id n) p (fun m' p' ↦ Yields null id n m p m' p') := by
  unfold removeSkippedBlocks
  split
  next mode s hkind =>
    have hle : m.getNumSkippedTokens (n - s) ≤ m.getNumSkippedTokens n := by
      rw [getNumSkippedTokens, getNumSkippedTokens, hkind]
      dsimp only
      omega
    refine .seq (removeSkipped_yields hnull (n - s)) fun m' p' hy ↦ ?_
    have hkind' : m'.kind = .mamba mode s := by rw [kind, hy.vacates.spec_eq, ← kind, hkind]
    have hnull' : p'.nullBlock = null := (hy.drops 0).nullBlock.trans hnull
    split
    · exact (removeLastState_yields hnull' hkind' (n - s)).mono fun m'' p'' hy' ↦
        (hy.trans hy').mono hle
    all_goals exact .pure (hy.mono hle)
  all_goals exact removeSkipped_yields hnull n

end SingleTypeKVCacheManager

namespace KVCacheManager

open SingleTypeKVCacheManager

variable {id : ReqId} {p' : BlockPool}
  {ms : List SingleTypeKVCacheManager}

def tableRefs (id : ReqId) (ms : List SingleTypeKVCacheManager) (b : Ref) : ℕ :=
  (ms.map fun m ↦ (m.table id).count b).sum

theorem tableRefs_cons (id : ReqId) (m : SingleTypeKVCacheManager) (ms : List SingleTypeKVCacheManager)
    (extra : Ref → ℕ) :
    (fun b ↦ tableRefs id (m :: ms) b + extra b) = m.refs id fun b ↦ tableRefs id ms b + extra b := by
  funext b
  simp only [refs, tableRefs, map_cons, sum_cons]
  omega

theorem refs_comm (id : ReqId) (m : SingleTypeKVCacheManager) (ms : List SingleTypeKVCacheManager)
    (extra : Ref → ℕ) :
    (m.refs id fun b ↦ tableRefs id ms b + extra b) =
      fun b ↦ tableRefs id ms b + m.refs id extra b := by
  funext b
  simp only [refs]
  omega

/-- Only blocks of `id` outside of its attention window went to the end of the free queue. -/
structure OnlyVacates (null : Ref) (id : ReqId) (n : ℕ) (ms : List SingleTypeKVCacheManager)
    (p : BlockPool) (ms' : List SingleTypeKVCacheManager) (p' : BlockPool) : Prop where
  managers : List.Forall₂ (Vacates null id n) ms ms'
  drops : ∀ extra : Ref → ℕ, Drops null (fun b ↦ tableRefs id ms b + extra b)
    (fun b ↦ tableRefs id ms' b + extra b) p p'
  queue : (∀ m ∈ ms, ProperTable null (m.table id)) → ∀ (extra : Ref → ℕ) queue,
    Backed null (fun b ↦ tableRefs id ms b + extra b) queue p →
      Requeues null (fun b ↦ tableRefs id ms b + extra b) (fun b ↦ tableRefs id ms' b + extra b) queue p'

theorem OnlyVacates.refl (null : Ref) (id : ReqId) (n : ℕ) (ms : List SingleTypeKVCacheManager)
    (p : BlockPool) : OnlyVacates null id n ms p ms p :=
  ⟨forall₂_same.mpr fun m _ ↦ .refl null id n m, fun _ ↦ .refl null _ p, fun _ _ _ h ↦ .refl h⟩

theorem OnlyVacates.cons {m m' ms' p'' n} (h : Yields null id n m p m' p')
    (h' : OnlyVacates null id n ms p' ms' p'') :
    OnlyVacates null id n (m :: ms) p (m' :: ms') p'' := by
  refine ⟨.cons h.vacates h'.managers, fun extra ↦ ?_, fun ht extra queue hq ↦ ?_⟩
  · have hrest := h'.drops (m'.refs id extra)
    rw [← refs_comm, ← refs_comm] at hrest
    rw [tableRefs_cons, tableRefs_cons]
    exact (h.drops _).trans hrest
  · have hrest := h'.queue (fun m hm ↦ ht m (mem_cons_of_mem _ hm)) (m'.refs id extra)
    have hdrops := h'.drops (m'.refs id extra)
    rw [← refs_comm, ← refs_comm] at hrest hdrops
    rw [tableRefs_cons] at hq ⊢
    rw [tableRefs_cons]
    exact (h.queue (ht m mem_cons_self) _ queue hq).trans (h.drops _).le hdrops.le hrest

theorem onEach_onlyVacates (hnull : p.nullBlock = null) (ms : List SingleTypeKVCacheManager)
    (n i : ℕ) :
    Ensures (onEach (fun _ m ↦ do
        let m' ← m.removeSkippedBlocks id n
        pure (m', ())) i ms) p (fun out p' ↦ OnlyVacates null id n ms p out.1 p') := by
  induction ms generalizing i p with
  | nil => exact .pure (.refl null id n [] p)
  | cons m ms ih =>
    refine .bind (.seq (removeSkippedBlocks_yields hnull n) fun m' p1 hy ↦ .pure ?_)
    have hnull' : p1.nullBlock = null := (hy.drops 0).nullBlock.trans hnull
    exact .seq (ih hnull' (i + 1)) fun out p2 hout ↦ .pure (.cons hy hout)

theorem allocateSlots_refused (H : Hashing) (request : Request) (a : SlotArgs) :
    Ensures (k.allocateSlots H request a) p
      (fun out p' ↦ out.2 = none → ∃ ms', out.1 = { k with singleTypeManagers := ms' } ∧
        OnlyVacates p.nullBlock request.requestId (a.totalComputedTokens k request)
          k.singleTypeManagers p ms' p') := by
  refine .ite (fun _ ↦ .throw trivial) fun _ ↦ .get_bind ?_
  split
  · exact .throw trivial
  · exact .pure fun _ ↦ ⟨_, rfl, .refl ..⟩
  refine .bind (.seq (onEach_onlyVacates rfl _ _ 0) fun out p' hout ↦ .pure ?_)
  refine .get_bind ?_
  split
  · exact .throw trivial
  refine .ite (fun _ ↦ .pure fun _ ↦ ⟨_, rfl, hout⟩) fun _ ↦ ?_
  exact .seq (.any _ _) fun _ _ _ ↦ .pure nofun

/-- The free queue lists unreferenced blocks, each table entry accounts for a reference, and no
table lists a block twice. -/
structure Ordered (k : KVCacheManager) (p : BlockPool) (queue : List Ref) : Prop where
  backed : ∀ id, Backed p.nullBlock (tableRefs id k.singleTypeManagers) queue p
  proper : ∀ m ∈ k.singleTypeManagers, ∀ id, ProperTable p.nullBlock (m.table id)

theorem Sane.ordered {R owned} (h : Sane R owned p.nullBlock k p) : ∃ queue, Ordered k p queue := by
  obtain ⟨L, hL, -⟩ := h.joint.held.counted
  refine ⟨L.free, fun id ↦ ⟨hL.queue, rfl, hL.isNull, fun hnull ↦ ?_, fun b hb ↦ ?_, fun b hb ↦ ?_⟩,
    fun m hm id ↦ ⟨fun b hb hn ↦ ?_, fun b hn ↦ ?_⟩⟩
  · exact hL.null_not_owned ((hL.sound.mem_free _).mp hnull).1
  · obtain ⟨howned, hzero⟩ := (hL.sound.mem_free b).mp hb
    rw [hL.refCnt b fun hn ↦ hL.null_not_owned (hn ▸ howned), hzero]
    rfl
  · rw [h.joint.held.refCnt hb]
    exact_mod_cast sum_le_sum fun m _ ↦ count_table_le m id b
  · exact hL.pooled b ((h.joint.tables m hm).mem id b hb |>.resolve_left hn)
  · obtain ⟨g, hg⟩ := mem_iff_getElem?.mp hm
    obtain ⟨rest, hkept, -⟩ := h.joint.kept_at hg
    exact hkept.count_le_one (h.joint.distinct m hm) id hn

/-- When `allocate_slots` returns `None`, nothing has changed but that blocks of the request outside
of its attention window may have gone to the end of the free queue. -/
theorem refused_allocation_changes_nothing {H : Hashing} {request : Request} {a : SlotArgs}
    (hrun : k.allocateSlots H request a p = .ok (k', none) p') :
    k' = { k with singleTypeManagers := k'.singleTypeManagers } ∧
      List.Forall₂ (Vacates p.nullBlock request.requestId (a.totalComputedTokens k request))
        k.singleTypeManagers k'.singleTypeManagers ∧
      p' = { p with refCnt := p'.refCnt, freeBlockQueue := p'.freeBlockQueue } ∧
      p'.refCnt p.nullBlock = p.refCnt p.nullBlock ∧
      (∀ b, b ≠ p.nullBlock → p'.refCnt b + tableRefs request.requestId k.singleTypeManagers b =
          p.refCnt b + tableRefs request.requestId k'.singleTypeManagers b) ∧
      ∀ queue, Ordered k p queue → ∃ freed, p'.freeBlockQueue.Holds (queue ++ freed) ∧
        ∀ b ∈ freed, p'.refCnt b = 0 ∧ tableRefs request.requestId k'.singleTypeManagers b <
          tableRefs request.requestId k.singleTypeManagers b := by
  obtain ⟨ms', rfl, h⟩ := (allocateSlots_refused H request a).ok hrun rfl
  have hdrops := h.drops 0
  refine ⟨rfl, h.managers, hdrops.same, hdrops.nullRefs, hdrops.refCnt, fun queue hq ↦ ?_⟩
  obtain ⟨freed, hbacked, hgiven⟩ := h.queue (fun m hm ↦ hq.proper m hm _) 0 queue (hq.backed _)
  exact ⟨freed, hbacked.holds, fun b hb ↦
    ⟨hbacked.idle b (mem_append_right _ hb), hgiven b hb⟩⟩

def narrowConfig : KVCacheManagerConfig where
  kvCacheConfig := ⟨3, [⟨⟨.slidingWindow 2, 1, 0⟩, false⟩]⟩
  maxModelLen := 16
  hashBlockSize := 1
  enableCaching := false

def longRequest : Request := { requestId := "r", allTokenIds := [5, 6, 7, 8, 9] }

def refusedRun : Option ((KVCacheManager × BlockPool) × KVCacheManager × BlockPool) :=
  (runFrom byteHashing narrowConfig [.newRequest longRequest ⟨2, 0, 0, false⟩]).bind fun s ↦
    match s.1.allocateSlots byteHashing { longRequest with numComputedTokens := 2 }
        { numNewTokens := 3 } s.2 with
    | .ok (k', none) p' => some (s, k', p')
    | .ok (_, some _) _ => none
    | .error .. => none

theorem refused_allocation_of_narrow_window :
    ∃ (k : KVCacheManager) (p : BlockPool) (k' : KVCacheManager) (p' : BlockPool) (queue freed : List Ref),
      k.allocateSlots byteHashing { longRequest with numComputedTokens := 2 } { numNewTokens := 3 } p =
        .ok (k', none) p' ∧
      p.refCnt (.blk 1) = 1 ∧ p'.refCnt (.blk 1) = 0 ∧
      p'.cachedBlockHashToBlock = p.cachedBlockHashToBlock ∧ Ordered k p queue ∧
      p'.freeBlockQueue.Holds (queue ++ freed) := by
  have hR : ∀ g ∈ narrowConfig.kvCacheConfig.kvCacheGroups,
      Distinct (· = longRequest) narrowConfig.hashBlockSize g.kvCacheSpec.blockSize := by
    rintro g hg r r' i i' h rfl - - - hi -
    obtain rfl := mem_singleton.mp hg
    cases hi
  have hrun : ∃ out ∈ refusedRun, out.1.2.refCnt (.blk 1) = 1 ∧ out.2.2.refCnt (.blk 1) = 0 := by
    decide +kernel
  obtain ⟨out, hout, hbefore, hafter⟩ := hrun
  obtain ⟨⟨k, p⟩, hstart, hs⟩ := Option.bind_eq_some_iff.mp hout
  have hsane := ((reached_of_runFrom hR (by simp [narrowConfig]) (by simp [Call.Of])
    hstart).accounted hR).sane
  rw [← hsane.joint.held.nullBlock] at hsane
  obtain ⟨queue, hqueue⟩ := hsane.ordered
  split at hs
  next k' p' hslots =>
    cases hs
    obtain ⟨-, -, hpool, -, -, hrefused⟩ := refused_allocation_changes_nothing hslots
    obtain ⟨freed, hholds, -⟩ := hrefused queue hqueue
    exact ⟨_, _, _, _, _, _, hslots, hbefore, hafter, by rw [hpool], hqueue, hholds⟩
  · cases hs
  · cases hs

end KVCacheManager

end VllmEngine.Core

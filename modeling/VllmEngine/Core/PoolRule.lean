import VllmEngine.Core.PoolRun

namespace VllmEngine.Core.BlockPool

open Lib BlockHash List

/-- The pool but for its references and its free queue. -/
def unreferenced (p : BlockPool) : BlockPool :=
  { p with freeBlockQueue := .init 0, refCnt := fun _ ↦ 0 }

theorem unreferenced_ignoresCounts : IgnoresCounts unreferenced :=
  ⟨fun _ _ _ ↦ rfl, fun _ _ ↦ rfl⟩

theorem eq_of_unreferenced {p p' : BlockPool} (h : p'.unreferenced = p.unreferenced) :
    p' = { p with freeBlockQueue := p'.freeBlockQueue, refCnt := p'.refCnt } := by
  cases p
  cases p'
  simpa [unreferenced] using h

section

variable {H : Hashing} {p : BlockPool} {I : BlockPool → Prop} {E : PoolError → BlockPool → Prop}

/-- What ignores references, and is kept by caching, evicting and resetting, holds after any
operation. -/
theorem run_rule (hframe : ∀ t q f, I t → I { t with freeBlockQueue := q, refCnt := f })
    (hevict : ∀ b t, I t → Succeeds (maybeEvictCachedBlock b) t (fun _ ↦ I))
    (hreset : ∀ t, I t → Succeeds resetPrefixCache t (fun _ ↦ I)) {op : PoolOp}
    (hcache : ∀ r bs c f size g, op = .cacheFullBlocks r bs c f size g →
      Ensures (cacheFullBlocks H r bs c f size g) p (fun _ ↦ I) E)
    (hraise : ∀ e t, I t → E e t) (h : I p) : Ensures (op.run H) p (fun _ ↦ I) E := by
  have hcounts : ∀ {α : Type} {m : PoolM α} {t : BlockPool},
      Preserves (fun _ ↦ True) unreferenced m → I t → Ensures m t (fun _ ↦ I) E :=
    fun hm ht ↦ (hm _).weaken (fun _ _ hu ↦ eq_of_unreferenced hu ▸ hframe _ _ _ ht) fun e _ hu ↦
      hraise e _ (eq_of_unreferenced hu.1 ▸ hframe _ _ _ ht)
  have hclaim : ∀ b t, I t → Ensures (do
      let p ← get
      if p.refCnt b ≠ 0 then throw .refCntNotZero else modify (addRef b 1) : PoolM Unit) t
      (fun _ ↦ I) E := fun b t ht ↦
    .get_bind (.ite (fun _ ↦ .throw (hraise _ _ ht)) fun _ ↦
      .modify (hframe t _ _ ht))
  cases op with
  | getNewBlocks n =>
    refine .get_bind (.ite (fun _ ↦ .throw (hraise _ _ h)) fun _ ↦ ?_)
    refine .andThen (hcounts (onQueue_preserves unreferenced_ignoresCounts _) h) fun bs t ht ↦ ?_
    refine .andThen (.forM (fun _ ↦ I) (fun b _ t ht ↦ ?_) bs ht) fun _ _ hu ↦
      .pure hu
    refine .get_bind (.ite (fun _ ↦ ?_) fun _ ↦ hclaim b t ht)
    exact .seq (hevict b t ht) fun _ _ hu ↦ hclaim b _ hu
  | touch bs =>
    exact .andThen (hcounts (touch_preserves unreferenced_ignoresCounts bs) h) fun _ _ ht ↦
      .pure ht
  | freeBlocks bs =>
    exact .andThen (hcounts (freeBlocks_preserves unreferenced_ignoresCounts bs) h) fun _ _ ht ↦
      .pure ht
  | cacheFullBlocks r bs c f size g =>
    exact .andThen (hcache r bs c f size g rfl) fun _ _ ht ↦ .pure ht
  | evictBlocks ids =>
    refine .andThen (.forM (fun _ ↦ I) (fun id _ t ht ↦ .get_bind ?_) ids h) fun _ _ ht ↦ .pure ht
    refine .ite (fun _ ↦ .throw (hraise _ _ ht)) fun _ ↦ ?_
    split
    · exact .throw (hraise _ _ ht)
    · exact .seq (hevict _ t ht) fun _ _ hu ↦ .pure hu
  | resetPrefixCache => exact .seq (hreset p h) fun _ _ ht ↦ .pure ht

/-- A rule for `cache_full_blocks`: `R` holds of the hashes of the blocks cached so far. -/
theorem cacheFullBlocks_rule {R : List BlockHash → BlockPool → Prop} {bs g}
    (r) (c f size) (h : I p) (hstart : R [] p)
    (hstep : ∀ hs t b hash, b ∈ bs → R hs t → t.isNull b = false → t.blockHash b = none →
      R (hs ++ [hash]) (setIndex (t.cachedBlockHashToBlock.insert
        (makeBlockHashWithGroupId hash g) b)
        (setBlockHash b (some (makeBlockHashWithGroupId hash g)) t)))
    (hsilent : ∀ hs t, p.enableKvCacheEvents = false → R hs t → I t)
    (hevent : ∀ hs t parent ids size lora name keys, R hs t → I (pushEvent (.blockStored
      (hs.map (maybeConvertBlockHash p.useIntBlockHashes)) parent ids size lora name keys g) t)) :
    Ensures (cacheFullBlocks H r bs c f size g) p (fun _ ↦ I) fun _ t ↦ ∃ hs, R hs t := by
  have hloop : ∀ (blks : List Ref) (i : ℕ) (hs : List BlockHash) (t : BlockPool) (new : List BlockHash),
      blks ⊆ bs → R hs t → Ensures (cacheLoop new g i blks) t (fun hs' t' ↦ R (hs ++ hs') t')
        fun _ t ↦ ∃ hs, R hs t := by
    intro blks
    induction blks with
    | nil =>
      intro i hs t new _ ht
      exact .pure (by rwa [append_nil])
    | cons b blks ih =>
      intro i hs t new hsub ht
      refine .andThen (R := fun hash t' ↦ R (hs ++ hash.toList) t') ?_ fun hash u hu ↦ ?_
      · refine .get_bind (.ite (fun _ ↦ .pure (by simpa using ht)) fun hnull ↦ ?_)
        refine .ite (fun _ ↦ .throw ⟨hs, ht⟩) fun hnone ↦ ?_
        split
        · exact .throw ⟨hs, ht⟩
        · exact .modify_bind (.modify_bind (.pure
            (hstep hs t b _ (hsub mem_cons_self) ht (by simpa using hnull) (by simpa using hnone))))
      · refine .andThen (ih (i + 1) _ u new (fun x hx ↦ hsub (mem_cons_of_mem b hx)) hu)
          fun hs' v hv ↦ .pure ?_
        rwa [← append_assoc]
  refine .ite (fun _ ↦ .pure h) fun _ ↦ .get_bind ?_
  refine .ite (fun _ ↦ .throw ⟨_, hstart⟩) fun _ ↦ ?_
  refine .ite (fun _ ↦ .throw ⟨_, hstart⟩) fun _ ↦ ?_
  refine .andThen (hloop _ 0 [] p _ (fun x hx ↦ mem_of_mem_take (mem_of_mem_drop hx))
    hstart) fun hs t ht ↦ ?_
  rw [nil_append] at ht
  refine .ite (fun _ ↦ ?_) fun hoff ↦ .pure (hsilent hs t (by simpa using hoff) ht)
  split
  · exact .throw ⟨hs, ht⟩
  refine .bind ((extraKeysLoop_preserves (fun p ↦ p) H r bs size _ _ t).weaken ?_ ?_)
  · rintro keys _ rfl
    exact .modify (hevent hs _ _ _ _ _ _ _ ht)
  · rintro e _ ⟨rfl, -⟩
    exact ⟨hs, ht⟩

end

/-- The null block carries no hash. -/
structure NullUnhashed (null : Ref) (p : BlockPool) : Prop where
  isNull : p.isNull null = true
  blockHash : p.blockHash null = none

section

variable {H : Hashing} {p : BlockPool} {null : Ref}

theorem NullUnhashed.setBlockHash (h : NullUnhashed null p) (b)
    {key} (hb : key = none ∨ p.isNull b = false) :
    NullUnhashed null (setBlockHash b key p) := by
  refine ⟨h.isNull, ?_⟩
  change Function.update p.blockHash b key null = none
  by_cases hnull : null = b
  · subst hnull
    rw [Function.update_self]
    exact hb.resolve_right fun hfalse ↦ by simp [h.isNull] at hfalse
  · rw [Function.update_of_ne hnull, h.blockHash]

theorem NullUnhashed.pushEvent (h : NullUnhashed null p) (e : KVCacheEvent) :
    NullUnhashed null (pushEvent e p) := by
  unfold BlockPool.pushEvent
  split
  · exact ⟨h.isNull, h.blockHash⟩
  · exact h

theorem run_nullUnhashed (h : NullUnhashed null p) (op : PoolOp) :
    Ensures (op.run H) p (fun _ ↦ NullUnhashed null) fun _ ↦ NullUnhashed null := by
  refine run_rule (fun _ _ _ ht ↦ ⟨ht.isNull, ht.blockHash⟩) (fun b t ht ↦ ?_) (fun t ht ↦ ?_)
    (fun r bs c f size g _ ↦ ?_) (fun _ _ ht ↦ ht) h
  · refine .get_bind ?_
    cases t.blockHash b with
    | none => exact .pure ht
    | some key =>
      have hindex : NullUnhashed null (setIndex (t.cachedBlockHashToBlock.pop key b.blockId).2 t) :=
        ⟨ht.isNull, ht.blockHash⟩
      refine .modify_bind ?_
      cases (t.cachedBlockHashToBlock.pop key b.blockId).1 with
      | none => exact .pure hindex
      | some _ =>
        exact .modify_bind (.modify_bind (.pure ((hindex.setBlockHash b (.inl rfl)).pushEvent _)))
  · refine .get_bind (.ite (fun _ ↦ .pure ht) fun _ ↦ .modify_bind ?_)
    refine .bind (.of_ok (resetHashes_eq _) (.modify_bind (.pure ?_)))
    refine NullUnhashed.pushEvent (p := { setIndex .empty t with
      blockHash := fun r ↦ if r ∈ t.blocks then none else t.blockHash r }) ⟨ht.isNull, ?_⟩ _
    simp only [ht.blockHash, ite_self]
  · refine (cacheFullBlocks_rule r c f size h h ?_
      (fun _ _ _ ht ↦ ht) fun _ _ _ _ _ _ _ _ ht ↦ ht.pushEvent _).weaken (fun _ _ ht ↦ ht)
      fun _ _ ⟨_, ht⟩ ↦ ht
    intro hs t b hash _ ht hb _
    have hset : NullUnhashed null (setBlockHash b (some (makeBlockHashWithGroupId hash g)) t) :=
      ht.setBlockHash b (.inr hb)
    exact ⟨hset.isNull, hset.blockHash⟩

theorem runOps_nullUnhashed {n size caching events ints p0}
    (h : BlockPool.init n caching size events ints = .ok p0) (ops : List PoolOp) :
    NullUnhashed p0.nullBlock (runOps H ops p0) := by
  have hinit : NullUnhashed p0.nullBlock p0 := by
    unfold BlockPool.init at h
    split at h
    · cases h
    split at h
    · cases h
    · cases h
      exact ⟨by simp, rfl⟩
  clear h
  generalize p0.nullBlock = null at hinit ⊢
  induction ops generalizing p0 with
  | nil => exact hinit
  | cons op ops ih => exact ih (run_nullUnhashed hinit op).after

end

end VllmEngine.Core.BlockPool

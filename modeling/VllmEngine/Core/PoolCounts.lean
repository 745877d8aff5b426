import VllmEngine.Core.PoolFrames
import VllmEngine.Core.FreeQueueSpec
import VllmEngine.Lib.Ledger

namespace VllmEngine.Core.BlockPool

open Lib FreeKVCacheBlockQueue List EState

/-- The pool counts references and queues free blocks as the ledger does. Blocks outside of `owned`,
as the null block, are never in the queue. -/
structure Refines (owned : Ref → Prop) (null : Ref) (p : BlockPool) (L : Ledger Ref) : Prop where
  sound : L.Sound owned
  queue : p.freeBlockQueue.Holds L.free
  refCnt : ∀ r, r ≠ null → p.refCnt r = L.held r
  isNull : ∀ r, p.isNull r = decide (r = null)
  null_not_owned : ¬ owned null
  pooled : ∀ r, owned r → ∃ i, r = .blk i

variable {owned : Ref → Prop} {null : Ref} {p p' : BlockPool} {L : Ledger Ref}

section

variable (h : Refines owned null p L)

include h

theorem Refines.congr (hp : p'.counts = p.counts) : Refines owned null p' L := by
  simp only [counts, Counts.mk.injEq] at hp
  obtain ⟨hq, hr, hn⟩ := hp
  exact ⟨h.sound, hq ▸ h.queue, hr ▸ h.refCnt, hn ▸ h.isNull, h.null_not_owned, h.pooled⟩

theorem Refines.numFree : p.getNumFreeBlocks = L.free.length := by
  rw [getNumFreeBlocks, h.queue.count]

theorem Refines.ne_null {r} (hr : owned r) : r ≠ null := by
  rintro rfl
  exact h.null_not_owned hr

theorem Refines.not_null {r} (hr : owned r) : p.isNull r = false := by
  rw [h.isNull, decide_eq_false_iff_not]
  exact h.ne_null hr

theorem Refines.addRef_touch {b q} (hq : q.Holds (L.touch [b]).free) :
    Refines owned null (addRef b 1 { p with freeBlockQueue := q }) (L.touch [b]) where
  sound := h.sound.touch [b]
  queue := hq
  refCnt r hr := by
    by_cases hb : r = b
    · subst hb
      simp [addRef, Ledger.touch, h.refCnt r hr]
    · have hb' : b ≠ r := Ne.symm hb
      simp [addRef, Ledger.touch, hb, hb', h.refCnt r hr]
  isNull := h.isNull
  null_not_owned := h.null_not_owned
  pooled := h.pooled

theorem touchBlock_refines {b} (hb : owned b ∨ b = null) :
    Succeeds (touchBlock b) p (fun _ p' ↦ Refines owned null p' (L.touch [b])) := by
  by_cases hfree : b ∈ L.free
  · obtain ⟨ho, hz⟩ := (h.sound.mem_free b).mp hfree
    obtain ⟨l1, l2, hl⟩ := append_of_mem hfree
    have hqueue := h.queue
    rw [hl] at hqueue
    obtain ⟨q, hrun, hq⟩ := remove_holds hqueue
    have hlist : (L.touch [b]).free = l1 ++ l2 := by
      have hd := h.sound.nodup
      rw [hl] at hd
      have h1 : ∀ a ∈ l1, a ≠ b := fun a ha ↦ (nodup_append.mp hd).2.2 a ha b (by simp)
      have h2 : ∀ a ∈ l2, a ≠ b := by
        rintro a ha rfl
        exact (nodup_cons.mp hd.of_append_right).1 ha
      have hf1 : l1.filter (· ∉ [b]) = l1 := filter_eq_self.mpr (by simpa using h1)
      have hf2 : l2.filter (· ∉ [b]) = l2 := filter_eq_self.mpr (by simpa using h2)
      simp only [Ledger.touch, hl, filter_append, hf1, filter_cons, hf2]
      simp
    have hres := h.addRef_touch (hlist ▸ hq)
    have hcnt : p.refCnt b = 0 := by rw [h.refCnt b (h.ne_null ho), hz]; rfl
    simpa [Ensures, touchBlock, hcnt, h.not_null ho, onQueue, hrun] using hres
  · have hskip : ¬ (p.refCnt b = 0 ∧ ¬ p.isNull b = true) := by
      rintro ⟨hcnt, hn⟩
      rcases hb with ho | rfl
      · refine hfree ((h.sound.mem_free b).mpr ⟨ho, ?_⟩)
        rw [h.refCnt b (h.ne_null ho)] at hcnt
        exact_mod_cast hcnt
      · simp [h.isNull] at hn
    have hlist : (L.touch [b]).free = L.free := by
      refine filter_eq_self.mpr fun a ha ↦ ?_
      simpa using fun e : a = b ↦ hfree (e ▸ ha)
    have hres := h.addRef_touch (hlist ▸ h.queue)
    simpa only [Ensures, touchBlock, hskip, bind_apply, get_apply, if_false,
      pure_apply, modify_apply] using hres

theorem touch_refines {bs} (hbs : ∀ b ∈ bs, owned b ∨ b = null) :
    Succeeds (touch bs) p (fun _ p' ↦ Refines owned null p' (L.touch bs)) := by
  induction bs generalizing p L with
  | nil => exact L.touch_nil.symm ▸ h
  | cons b bs ih =>
    refine .seq (touchBlock_refines h (hbs b (by simp))) fun _ p' h' ↦ ?_
    rw [L.touch_cons]
    exact ih h' fun b' hb' ↦ hbs b' (by simp [hb'])

end

theorem dropRefs_eq (bs : List Ref) : (bs.forM dropRef) p =
    .ok ⟨⟩ { p with refCnt := fun r ↦ p.refCnt r - bs.count r } := by
  induction bs generalizing p with
  | nil => simp
  | cons b bs ih =>
    change (bs.forM dropRef) (addRef b (-1) p) = _
    rw [ih]
    congr 1
    simp only [addRef, mk.injEq, true_and, and_true]
    funext r
    by_cases hr : r = b
    · subst hr
      simp
      omega
    · have hr' : ¬ b = r := Ne.symm hr
      simp [hr, hr']

theorem freeBlocks_refines [DecidablePred owned] {bs} (h : Refines owned null p L)
    (hbs : ∀ b ∈ bs, owned b ∨ b = null) (hrel : L.Releasable owned bs) :
    Succeeds (freeBlocks bs) p (fun _ p' ↦ Refines owned null p' (L.release owned bs)) := by
  have hsound := h.sound.release hrel
  have hfilter : (bs.filter fun b ↦ p.refCnt b - bs.count b = 0 ∧ ¬ p.isNull b = true) =
      bs.filter fun b ↦ owned b ∧ L.held b = 1 := by
    refine filter_congr fun b hb ↦ ?_
    by_cases ho : owned b
    · obtain ⟨hc, -⟩ := hrel b hb ho
      simp only [h.refCnt b (h.ne_null ho), hc, h.not_null ho, ho, decide_eq_decide]
      simp
      omega
    · obtain rfl := (hbs b hb).resolve_left ho
      simp [ho, h.isNull]
  have hpooled : ∀ r ∈ bs.filter fun b ↦ owned b ∧ L.held b = 1, ∃ i, r = .blk i := by
    intro r hr
    simp only [mem_filter, decide_eq_true_eq] at hr
    exact h.pooled r hr.2.1
  obtain ⟨q, hrun, hq⟩ := appendN_holds h.queue hsound.nodup
    (fun hm ↦ by simpa using hpooled _ hm) (fun hm ↦ by simpa using hpooled _ hm)
  have hres : Refines owned null
      { p with freeBlockQueue := q, refCnt := fun r ↦ p.refCnt r - bs.count r }
      (L.release owned bs) := by
    refine ⟨hsound, hq, fun r hr ↦ ?_, h.isNull, h.null_not_owned, h.pooled⟩
    have hle : bs.count r ≤ L.held r := by
      by_cases hm : r ∈ bs
      · have := hrel r hm ((hbs r hm).resolve_right hr)
        omega
      · simp [count_eq_zero_of_not_mem hm]
    simp only [Ledger.release, h.refCnt r hr]
    omega
  refine .of_ok (a := ()) ?_ hres
  simp only [freeBlocks, bind_apply, dropRefs_eq, get_apply, onQueue, hfilter, hrun]

theorem claimBlock_counts {b} (hb : p.refCnt b = 0) :
    Succeeds (claimBlock b) p (fun _ p' ↦ p'.counts = (addRef b 1 p).counts) := by
  have hclaim : ∀ t : BlockPool, t.counts = p.counts → Succeeds (do
          let t ← get
          if t.refCnt b ≠ 0 then throw .refCntNotZero else modify (addRef b 1) : PoolM Unit) t
        (fun _ p' ↦ p'.counts = (addRef b 1 p).counts) := by
    intro t ht
    simp only [counts, Counts.mk.injEq] at ht
    obtain ⟨hq, hr, hnull⟩ := ht
    simp [Ensures, hr, hb, counts, addRef, hq, hnull]
  refine .get_bind ?_
  split
  · exact .seq (maybeEvictCachedBlock_returns counts_ignoresHashes b p) fun _ t ht ↦ hclaim t ht
  · exact hclaim p rfl

theorem claimBlocks_counts {bs : List Ref} (hd : bs.Nodup) (hbs : ∀ b ∈ bs, p.refCnt b = 0) :
    Succeeds (bs.forM claimBlock) p
      (fun _ p' ↦ p'.counts = { p.counts with refCnt := fun r ↦ p.refCnt r + bs.count r }) := by
  induction bs generalizing p with
  | nil =>
    refine .pure ?_
    simp [counts]
  | cons b bs ih =>
    obtain ⟨hb, hd⟩ := nodup_cons.mp hd
    refine .seq (claimBlock_counts (hbs b (by simp))) fun _ t ht ↦ ?_
    have hcnt : t.refCnt = (addRef b 1 p).refCnt := congrArg Counts.refCnt ht
    refine (ih hd fun c hc ↦ ?_).mono fun _ p' hp' ↦ ?_
    · have hcb : c ≠ b := fun e ↦ hb (e ▸ hc)
      simp [hcnt, addRef, hcb, hbs c (by simp [hc])]
    rw [hp', ht, hcnt]
    simp only [counts, addRef, Counts.mk.injEq, true_and, and_true]
    funext r
    by_cases hr : r = b
    · subst hr
      simp
      omega
    · have hr' : ¬ b = r := Ne.symm hr
      simp [hr, hr']

theorem getNewBlocks_refines {n} (h : Refines owned null p L) (hn : n ≤ L.free.length) :
    Succeeds (getNewBlocks n) p
      (fun bs p' ↦ bs = L.free.take n ∧ Refines owned null p' (L.take n)) := by
  have hqueue := h.queue
  rw [← take_append_drop n L.free] at hqueue
  obtain ⟨q, hrun, hq⟩ := popleftN_holds hqueue
  rw [length_take_of_le hn] at hrun
  have hcount : ¬ (n : ℤ) > p.getNumFreeBlocks := by
    rw [getNumFreeBlocks, h.queue.count]
    omega
  have howned : ∀ b ∈ L.free.take n, owned b ∧ L.held b = 0 := fun b hb ↦
    (h.sound.mem_free b).mp (mem_of_mem_take hb)
  have hclaim := claimBlocks_counts (p := { p with freeBlockQueue := q })
    (h.sound.nodup.sublist (take_sublist n _)) (fun b hb ↦ by
      rw [h.refCnt b (h.ne_null (howned b hb).1), (howned b hb).2]
      rfl)
  refine .get_bind ?_
  rw [if_neg hcount]
  have hpop : onQueue (popleftN n) p = .ok (L.free.take n) { p with freeBlockQueue := q } := by
    simp only [onQueue, hrun]
  refine .bind (.of_ok hpop ?_)
  refine .seq hclaim fun _ p' hp' ↦ .pure ⟨rfl, ?_⟩
  simp only [counts, Counts.mk.injEq] at hp'
  obtain ⟨hq', hr', hn'⟩ := hp'
  refine ⟨h.sound.take n, hq' ▸ hq, fun r hr ↦ ?_, hn' ▸ h.isNull, h.null_not_owned, h.pooled⟩
  simp [hr', h.refCnt r hr, Ledger.take]

theorem getNewBlocks_short {n} (h : Refines owned null p L) (hn : L.free.length < n) :
    getNewBlocks n p = .error .cannotGetBlocks p := by
  have hcount : (n : ℤ) > p.getNumFreeBlocks := by
    rw [getNumFreeBlocks, h.queue.count]
    omega
  simp only [getNewBlocks, bind_apply, get_apply, if_pos hcount, throw_apply]

/-- The blocks of a pool of size `n` that can be handed out, without `reserved`. -/
def Usable (n : ℕ) (reserved : List Ref) (r : Ref) : Prop :=
  r ∈ (range n).map Ref.blk ∧ r ≠ .blk 0 ∧ r ∉ reserved

instance (n : ℕ) (reserved : List Ref) : DecidablePred (Usable n reserved) := fun _ ↦
  inferInstanceAs (Decidable (_ ∧ _ ∧ _))

theorem init_refines {n size caching events ints} (h : init n caching size events ints = .ok p) :
    Refines (Usable n []) (.blk 0) p ⟨fun _ ↦ 0, (range' 1 (n - 1)).map .blk⟩ ∧
      p.nullBlock = .blk 0 ∧ p.numGpuBlocks = n ∧ 0 < n := by
  unfold init at h
  split at h
  · simp at h
  next hn =>
    have hrange : range n = 0 :: range' 1 (n - 1) := by
      rw [range_eq_range', show n = n - 1 + 1 by omega, range'_succ]
      rfl
    have hholds := init_holds n
    rw [hrange, map_cons] at hholds
    obtain ⟨q, hrun, hq⟩ := popleft_holds hholds
    rw [hrun] at h
    obtain rfl : _ = p := by simpa using h
    refine ⟨⟨⟨?_, fun r ↦ ?_⟩, hq, fun _ _ ↦ rfl, fun _ ↦ rfl, fun hu ↦ hu.2.1 rfl, ?_⟩, rfl, rfl,
      Nat.pos_of_ne_zero hn⟩
    · exact hq.nodup_blocks
    · rw [Usable, hrange]
      have := hholds.nodup_blocks
      simp only [nodup_cons] at this
      constructor
      · intro hr
        exact ⟨⟨by simp_all, fun e ↦ this.1 (e ▸ hr), by simp⟩, rfl⟩
      · rintro ⟨⟨hm, hne, -⟩, -⟩
        simpa [hne] using hm
    · rintro r ⟨hm, -⟩
      obtain ⟨i, -, rfl⟩ := mem_map.mp hm
      exact ⟨i, rfl⟩

end VllmEngine.Core.BlockPool

import VllmEngine.Core.PoolFrames

namespace VllmEngine.Core

open Lib Function FreeKVCacheBlockQueue Option BlockPool

namespace FreeKVCacheBlockQueue

variable {q : FreeKVCacheBlockQueue} {b : Ref}

def Skips (b : Ref) (q : FreeKVCacheBlockQueue) : Prop :=
  ∀ r, q.nextFreeBlock r ≠ some b ∧ q.prevFreeBlock r ≠ some b

theorem Skips.setNext (h : q.Skips b) (r) {v} (hv : v ≠ some b) :
    (q.setNext r v).Skips b := by
  intro r'
  refine ⟨?_, (h r').2⟩
  by_cases hr : r' = r
  · obtain rfl := hr
    simpa only [FreeKVCacheBlockQueue.setNext, update_self] using hv
  · simpa only [FreeKVCacheBlockQueue.setNext, update_of_ne hr] using (h r').1

theorem Skips.setPrev (h : q.Skips b) (r) {v} (hv : v ≠ some b) :
    (q.setPrev r v).Skips b := by
  intro r'
  refine ⟨(h r').1, ?_⟩
  by_cases hr : r' = r
  · obtain rfl := hr
    simpa only [FreeKVCacheBlockQueue.setPrev, update_self] using hv
  · simpa only [FreeKVCacheBlockQueue.setPrev, update_of_ne hr] using (h r').2

theorem Skips.addFree (h : q.Skips b) (n) : (q.addFree n).Skips b := h

theorem popleftLoop_skips (n) {curr} (h : q.Skips b) (hcurr : curr ≠ some b) :
    Ensures (popleftLoop n curr) q (fun out q' ↦ q'.Skips b ∧ b ∉ out.1 ∧ out.2 ≠ some b) := by
  induction n generalizing curr q with
  | zero => exact .pure ⟨h, List.not_mem_nil, hcurr⟩
  | succ n ih =>
    cases curr with
    | none => exact .throw trivial
    | some lastBlock =>
      refine .get_bind (.modify_bind (.modify_bind ?_))
      have h' : ((q.setPrev lastBlock none).setNext lastBlock none).Skips b :=
        (h.setPrev lastBlock (by simp)).setNext lastBlock (by simp)
      refine .seq (ih h' (h lastBlock).1) fun out q' ho ↦ ?_
      refine .pure ⟨ho.1, fun hmem ↦ ?_, ho.2.2⟩
      rcases List.mem_cons.mp hmem with heq | hmem
      · exact hcurr (congrArg some heq.symm)
      · exact ho.2.1 hmem

theorem popleftN_skips (n) (h : q.Skips b) (hb : b ≠ .head) :
    Ensures (popleftN n) q (fun bs q' ↦ q'.Skips b ∧ b ∉ bs) := by
  refine .ite (fun _ ↦ .pure ⟨h, List.not_mem_nil⟩) fun _ ↦ .get_bind ?_
  refine .ite (fun _ ↦ .throw trivial) fun _ ↦ .modify_bind ?_
  refine .seq (popleftLoop_skips _ (h.addFree _) (h .head).1) fun out q' ho ↦ ?_
  obtain ⟨hq, hout, hcurr⟩ := ho
  cases hnext : out.2 with
  | none => exact .pure ⟨hq, hout⟩
  | some curr =>
    rw [hnext] at hcurr
    refine .modify_bind (.modify_bind (.pure ⟨?_, hout⟩))
    exact (hq.setNext .head hcurr).setPrev curr fun heq ↦ hb (some.inj heq).symm

theorem remove_skips (r) (h : q.Skips b) : Ensures (remove r) q (fun _ q' ↦ q'.Skips b) := by
  refine .get_bind ?_
  split
  next prev next hprev hnext =>
    refine .modify_bind (.modify_bind (.modify_bind (.modify_bind (.modify (Skips.addFree ?_ _)))))
    have hn : some next ≠ some b := hnext ▸ (h r).1
    have hp : some prev ≠ some b := hprev ▸ (h r).2
    exact (((h.setNext prev hn).setPrev next hp).setPrev r (by simp)).setNext r (by simp)
  · exact .throw trivial

theorem appendLoop_skips {blocks last} (h : q.Skips b) (hblocks : b ∉ blocks) (hlast : last ≠ b) :
    Ensures (appendLoop blocks last) q (fun last' q' ↦ q'.Skips b ∧ last' ≠ b) := by
  induction blocks generalizing last q with
  | nil => exact .pure ⟨h, hlast⟩
  | cons r blocks ih =>
    obtain ⟨hr, hblocks⟩ := not_or.mp (List.mem_cons.not.mp hblocks)
    refine .modify_bind (.modify_bind (ih ?_ hblocks (Ne.symm hr)))
    exact (h.setPrev r fun heq ↦ hlast (some.inj heq)).setNext last
      fun heq ↦ hr (some.inj heq).symm

theorem appendN_skips {blocks} (h : q.Skips b) (hblocks : b ∉ blocks) (hb : b ≠ .tail) :
    Ensures (appendN blocks) q (fun _ q' ↦ q'.Skips b) := by
  refine .ite (fun _ ↦ .pure h) fun _ ↦ .get_bind ?_
  split
  · exact .throw trivial
  next first hfirst =>
    have hne : first ≠ b := fun heq ↦ (h .tail).2 (hfirst.trans (congrArg some heq))
    refine .seq (appendLoop_skips h hblocks hne) fun last q' ho ↦ ?_
    refine .modify_bind (.modify_bind (.modify (Skips.addFree ?_ _)))
    exact (ho.1.setNext last fun heq ↦ hb (some.inj heq).symm).setPrev .tail
      fun heq ↦ ho.2 (some.inj heq)

theorem init_next_eq {n r} (h : (init n).nextFreeBlock r = some (.blk 0)) : r = .head := by
  cases r with
  | head => rfl
  | tail => cases h
  | blk i =>
    simp only [init] at h
    split at h
    · split at h <;> simp at h
    · cases h

theorem init_prev_eq {n} (hn : 0 < n) {r} (h : (init n).prevFreeBlock r = some (.blk 0)) :
    r = if n = 1 then .tail else .blk 1 := by
  cases r with
  | head => cases h
  | tail =>
    have hone : n - 1 = 0 := by simpa [init, Nat.pos_iff_ne_zero.mp hn] using h
    rw [if_pos (by omega)]
  | blk i =>
    simp only [init] at h
    split at h
    · split at h
      · simp at h
      · have hone : i - 1 = 0 := by simpa using h
        rw [if_neg (by omega), show i = 1 by omega]
    · cases h

theorem popleft_init {n} (hn : 0 < n) {r} (h : popleft (.init n) = .ok r q) :
    r = .blk 0 ∧ q.Skips (.blk 0) := by
  have hnext : (init n).nextFreeBlock (.blk 0) = some (if n = 1 then .tail else .blk 1) := by
    simp only [init, if_pos hn, some.injEq]
    split <;> split <;> first | rfl | omega
  have hhead : (init n).nextFreeBlock .head = some (.blk 0) := by
    simp [init, Nat.pos_iff_ne_zero.mp hn]
  unfold popleft at h
  simp only [EState.bind_apply, EState.get_apply, hhead, hnext, EState.modify_apply,
    EState.pure_apply, EStateM.Result.ok.injEq] at h
  obtain ⟨rfl, rfl⟩ := h
  refine ⟨rfl, fun r ↦ ⟨?_, ?_⟩⟩
  · simp only [setNext, setPrev, addFree, update_apply]
    split
    · simp
    split
    · split <;> simp
    next hr => exact fun h ↦ hr (init_next_eq h)
  · simp only [setNext, setPrev, addFree, update_apply]
    split
    · simp
    by_cases hr : r = if n = 1 then .tail else .blk 1
    · rw [if_pos hr]
      simp
    · rw [if_neg hr]
      exact fun h ↦ hr (init_prev_eq hn h)

end FreeKVCacheBlockQueue

namespace BlockPool

variable {p : BlockPool} {null : Ref}

structure NullApart (null : Ref) (p : BlockPool) : Prop where
  nullBlock : p.nullBlock = null
  isNull : p.isNull null = true
  block : null ≠ .head ∧ null ≠ .tail
  queue : p.freeBlockQueue.Skips null

section

variable (h : NullApart null p)

include h

theorem NullApart.onQueue {α : Type} {m : QueueM α} {Q : α → Prop}
    (hm : Ensures m p.freeBlockQueue (fun a q' ↦ q'.Skips null ∧ Q a)) :
    Ensures (onQueue m) p (fun a p' ↦ NullApart null p' ∧ Q a) := by
  unfold Ensures BlockPool.onQueue at *
  cases hrun : m p.freeBlockQueue with
  | ok a q =>
    rw [hrun] at hm
    exact ⟨⟨h.nullBlock, h.isNull, h.block, hm.1⟩, hm.2⟩
  | error e q => trivial

theorem NullApart.of_views {p'} (hc : p'.counts = p.counts)
    (hcfg : p'.config = p.config) : NullApart null p' := by
  have hqueue : p'.freeBlockQueue = p.freeBlockQueue := congrArg Counts.freeBlockQueue hc
  have hnull : p'.nullBlock = p.nullBlock := congrArg Config.nullBlock hcfg
  have hisNull : p'.isNull = p.isNull := congrArg Config.isNull hcfg
  exact ⟨hnull.trans h.nullBlock, hisNull ▸ h.isNull, h.block, hqueue ▸ h.queue⟩

theorem NullApart.of_preserves {α : Type} {m : PoolM α} {E F}
    (hcounts : Preserves E counts m) (hconfig : Preserves F config m) :
    Ensures m p (fun _ p' ↦ NullApart null p') :=
  ((hcounts p).and (hconfig p)).mono fun _ _ h' ↦ h.of_views h'.1 h'.2

theorem NullApart.addRef (b) (n) : NullApart null (addRef b n p) :=
  ⟨h.nullBlock, h.isNull, h.block, h.queue⟩

theorem claimBlock_nullApart (b) :
    Ensures (claimBlock b) p (fun _ p' ↦ NullApart null p') := by
  have hclaim : ∀ {p : BlockPool}, NullApart null p → Ensures (do
      let p ← get
      if p.refCnt b ≠ 0 then throw .refCntNotZero else modify (addRef b 1) : PoolM Unit) p
      (fun _ p' ↦ NullApart null p') := fun h ↦
    .get_bind (.ite (fun _ ↦ .throw trivial) fun _ ↦
      .modify (h.addRef b 1))
  refine .get_bind (.ite (fun _ ↦ ?_) fun _ ↦ hclaim h)
  refine .seq (h.of_preserves (E := fun _ ↦ True) (F := fun _ ↦ True)
    (.of_returns (maybeEvictCachedBlock_returns counts_ignoresHashes b))
    (.of_returns (maybeEvictCachedBlock_returns config_ignoresHashes b))) fun _ _ h' ↦ hclaim h'

theorem getNewBlocks_nullApart (n) :
    Ensures (getNewBlocks n) p (fun bs p' ↦ NullApart null p' ∧ null ∉ bs) := by
  refine .get_bind (.ite (fun _ ↦ .throw trivial) fun _ ↦ ?_)
  refine .seq (h.onQueue
    (popleftN_skips n h.queue h.block.1)) fun bs p' ho ↦ ?_
  refine .seq (.forM (fun _ p ↦ NullApart null p)
    (fun b _ p hp ↦ claimBlock_nullApart hp b) bs ho.1) fun _ p'' hp ↦ ?_
  exact .pure ⟨hp, ho.2⟩

theorem touch_nullApart (bs) : Ensures (touch bs) p (fun _ p' ↦ NullApart null p') := by
  refine .forM (fun _ p ↦ NullApart null p) (fun b _ p hp ↦ .get_bind ?_) bs h
  refine .ite (fun _ ↦ ?_) fun _ ↦ .modify (hp.addRef b 1)
  refine .seq (hp.onQueue
    ((remove_skips b hp.queue).mono fun _ _ hq ↦ ⟨hq, trivial⟩)) fun _ p' ho ↦ ?_
  exact .modify (ho.1.addRef b 1)

theorem freeBlocks_nullApart (bs) :
    Ensures (freeBlocks bs) p (fun _ p' ↦ NullApart null p') := by
  refine .seq (.forM (E := fun _ _ ↦ True) (fun _ p ↦ NullApart null p)
    (fun b _ p hp ↦ .modify (hp.addRef b (-1))) bs h) fun _ p' hp ↦ ?_
  refine .get_bind ((hp.onQueue
    ((appendN_skips hp.queue (fun hmem ↦ ?_) hp.block.2).mono
      (fun _ _ hq ↦ ⟨hq, trivial⟩))).mono fun _ _ ho ↦ ho.1)
  -- only blocks that are not null go back to the queue
  have hnull := (List.mem_filter.mp hmem).2
  simp [hp.isNull] at hnull

theorem resetPrefixCache_nullApart : Ensures resetPrefixCache p (fun _ p' ↦ NullApart null p') :=
  h.of_preserves (resetPrefixCache_preserves counts_ignoresHashes)
    (resetPrefixCache_preserves config_ignoresHashes)

theorem cacheFullBlocks_nullApart (H) (r) (bs) (cached full size g) :
    Ensures (cacheFullBlocks H r bs cached full size g) p (fun _ p' ↦ NullApart null p') :=
  h.of_preserves (cacheFullBlocks_preserves counts_ignoresHashes H r bs cached full size g)
    (cacheFullBlocks_preserves config_ignoresHashes H r bs cached full size g)

end

theorem init_nullApart {numGpuBlocks size caching events ints}
    (h : init numGpuBlocks caching size events ints = .ok p) : NullApart (.blk 0) p := by
  unfold init at h
  split at h
  · cases h
  next hpos =>
    split at h
    · cases h
    next null q hpop =>
      obtain ⟨rfl, hq⟩ := popleft_init (Nat.pos_of_ne_zero hpos) hpop
      cases h
      exact ⟨rfl, rfl, by simp, hq⟩

end BlockPool

end VllmEngine.Core

import VllmEngine.Core.PoolRule
import Mathlib.Data.Multiset.AddSub

namespace VllmEngine.Core

open Lib BlockHash BlockPool Function List Multiset

/-- The pairs of group and hash that a listener of the events keeps. -/
def KVCacheEvent.apply (pairs : Multiset (ℕ × ExternalBlockHash)) :
    KVCacheEvent → Multiset (ℕ × ExternalBlockHash)
  | .blockStored blockHashes _ _ _ _ _ _ groupIdx => pairs + ↑(blockHashes.map (groupIdx, ·))
  | .blockRemoved blockHashes groupIdx => pairs - ↑(blockHashes.map (groupIdx, ·))
  | .allBlocksCleared => 0

def replay (events : List KVCacheEvent) : Multiset (ℕ × ExternalBlockHash) :=
  events.foldl KVCacheEvent.apply 0

def externalPair (useIntBlockHashes : Bool) (key : BlockHashWithGroupId) : ℕ × ExternalBlockHash :=
  (getGroupId key, maybeConvertBlockHash useIntBlockHashes (getBlockHash key))

/-- A call that raises leaves the pool as it is by then; one of `cache_full_blocks` ends the run. -/
def PoolOp.next (H : Hashing) (op : PoolOp) (p : BlockPool) : Option BlockPool :=
  match op, op.run H p with
  | _, .ok _ p' => some p'
  | .cacheFullBlocks .., .error _ _ => none
  | _, .error _ p' => some p'

namespace BlockPool

/-- The pairs of group and hash that the blocks of the pool carry. -/
def carried (p : BlockPool) : Multiset (ℕ × ExternalBlockHash) :=
  ↑((p.blocks.filterMap p.blockHash).map (externalPair p.useIntBlockHashes))

variable {p : BlockPool} {b : Ref} {key : BlockHashWithGroupId}

theorem nodup_blocks (p : BlockPool) : p.blocks.Nodup :=
  nodup_range.map fun _ _ h ↦ by cases h; rfl

theorem carried_setBlockHash (hb : b ∈ p.blocks) (hnone : p.blockHash b = none) :
    (setBlockHash b (some key) p).carried = externalPair p.useIntBlockHashes key ::ₘ p.carried := by
  have hsplit := perm_cons_erase hb
  have hrest : (p.blocks.erase b).filterMap (update p.blockHash b (some key)) =
      (p.blocks.erase b).filterMap p.blockHash := by
    refine filterMap_congr fun r hr ↦ update_of_ne ?_ _ _
    rintro rfl
    exact (p.nodup_blocks.not_mem_erase) hr
  have hnew := hsplit.filterMap (update p.blockHash b (some key))
  rw [List.filterMap_cons_some (update_self _ _ _), hrest] at hnew
  have hold := hsplit.filterMap p.blockHash
  rw [filterMap_cons_none hnone] at hold
  exact coe_eq_coe.mpr (((hnew.trans (hold.symm.cons key)).map _))

theorem carried_setBlockHash_none (hb : b ∈ p.blocks) (hkey : p.blockHash b = some key) :
    p.carried = externalPair p.useIntBlockHashes key ::ₘ (setBlockHash b none p).carried := by
  refine Eq.trans ?_ (@carried_setBlockHash (setBlockHash b none p) b key hb (update_self _ _ _))
  congr 1
  simp [setBlockHash, ← hkey]

/-- What the events amount to is what the blocks carry. -/
structure Replayed (p : BlockPool) : Prop where
  enabled : p.enableKvCacheEvents = true
  pooled : ∀ b, p.blockHash b ≠ none → b ∈ p.blocks
  replayed : replay p.kvEventQueue = p.carried

theorem Replayed.pushEvent {e} (henabled : p.enableKvCacheEvents = true)
    (hpooled : ∀ b, p.blockHash b ≠ none → b ∈ p.blocks)
    (hreplay : e.apply (replay p.kvEventQueue) = p.carried) : Replayed (pushEvent e p) := by
  rw [BlockPool.pushEvent, if_pos henabled]
  refine ⟨henabled, hpooled, ?_⟩
  rw [replay, foldl_append]
  exact hreplay

theorem maybeEvictCachedBlock_replayed (h : Replayed p) (b) :
    Succeeds (maybeEvictCachedBlock b) p (fun _ ↦ Replayed) := by
  refine .get_bind ?_
  cases hkey : p.blockHash b with
  | none => exact .pure h
  | some key =>
    refine .modify_bind ?_
    cases (p.cachedBlockHashToBlock.pop key b.blockId).1 with
    | none => exact .pure ⟨h.enabled, h.pooled, h.replayed⟩
    | some _ =>
      refine .modify_bind (.modify_bind (.pure ?_))
      refine Replayed.pushEvent h.enabled (fun r hr ↦ h.pooled r fun hnone ↦ hr ?_) ?_
      · change update p.blockHash b none r = none
        by_cases hrb : r = b
        · rw [hrb, update_self]
        · rw [update_of_ne hrb, hnone]
      · have hcarried := carried_setBlockHash_none (h.pooled b (by simp [hkey])) hkey
        change replay p.kvEventQueue - ↑[externalPair p.useIntBlockHashes key] =
          (setBlockHash b none p).carried
        rw [h.replayed, hcarried, coe_singleton, sub_singleton,
          Multiset.erase_cons_head]

theorem resetPrefixCache_replayed (h : Replayed p) :
    Succeeds resetPrefixCache p (fun _ ↦ Replayed) := by
  refine .get_bind (.ite (fun _ ↦ .pure h) fun _ ↦ .modify_bind ?_)
  refine .bind (.of_ok (resetHashes_eq _) (.modify_bind (.pure ?_)))
  have hnone : ∀ r, (if r ∈ p.blocks then none else p.blockHash r) = none := by
    intro r
    split
    · rfl
    next hr => exact not_not.mp fun hne ↦ hr (h.pooled r hne)
  refine Replayed.pushEvent h.enabled (fun r hr ↦ absurd (hnone r) hr) ?_
  have hempty : p.blocks.filterMap (fun r ↦ if r ∈ p.blocks then none else p.blockHash r) = [] :=
    filterMap_eq_nil_iff.mpr fun r _ ↦ hnone r
  exact (congrArg (fun l : List BlockHashWithGroupId ↦
    (↑(l.map (externalPair p.useIntBlockHashes)) : Multiset (ℕ × ExternalBlockHash))) hempty).symm

/-- The pool while blocks are cached, before the event is emitted. -/
structure Storing (p : BlockPool) (g : ℕ) (hs : List BlockHash) (t : BlockPool) : Prop where
  enabled : t.enableKvCacheEvents = true
  pooled : ∀ b, t.blockHash b ≠ none → b ∈ t.blocks
  blocks : t.blocks = p.blocks
  useInt : t.useIntBlockHashes = p.useIntBlockHashes
  events : t.kvEventQueue = p.kvEventQueue
  carried : t.carried =
    p.carried + ↑((hs.map (maybeConvertBlockHash p.useIntBlockHashes)).map (g, ·))

theorem cacheFullBlocks_replayed {H} (h : Replayed p) (r) {bs}
    (hbs : ∀ b ∈ bs, b ∈ p.blocks) (c f size) {g} (hg : g < 2 ^ 32) :
    Ensures (cacheFullBlocks H r bs c f size g) p (fun _ ↦ Replayed) fun _ _ ↦ True := by
  have hstart : Storing p g [] p := ⟨h.enabled, h.pooled, rfl, rfl, rfl, by simp⟩
  refine (cacheFullBlocks_rule r c f size h hstart ?_ ?_ ?_).weaken (fun _ _ ht ↦ ht) fun _ _ _ ↦ trivial
  · intro hs t b hash hb ht _ hnone
    have hmem : b ∈ t.blocks := ht.blocks ▸ hbs b hb
    refine ⟨ht.enabled, fun r hr ↦ ?_, ht.blocks, ht.useInt, ht.events, ?_⟩
    · by_cases hrb : r = b
      · exact hrb ▸ hmem
      · exact ht.pooled r (by simpa [setIndex, setBlockHash, hrb] using hr)
    refine (carried_setBlockHash hmem hnone).trans ?_
    rw [externalPair, getGroupId_make hash hg, getBlockHash_make, ht.carried, ht.useInt,
      ← add_cons, cons_coe, map_append, map_append]
    exact congrArg (p.carried + ·) (coe_eq_coe.mpr (perm_append_singleton _ _).symm)
  · intro hs t hoff
    rw [h.enabled] at hoff
    cases hoff
  · intro hs t parent ids size lora name keys ht
    refine Replayed.pushEvent ht.enabled ht.pooled ?_
    rw [ht.carried, ← h.replayed, ← ht.events]
    rfl

theorem next_replayed {H : Hashing} {p' : BlockPool} {op : PoolOp} (h : Replayed p)
    (hop : ∀ b ∈ op.refs, b ∈ p.blocks)
    (hgroup : ∀ r bs c f size g, op = .cacheFullBlocks r bs c f size g → g < 2 ^ 32)
    (hnext : op.next H p = some p') : Replayed p' ∧ p'.blocks = p.blocks := by
  have hrun : Ensures (op.run H) p (fun _ ↦ Replayed)
      fun _ t ↦ Replayed t ∨ ∃ r bs c f size g, op = .cacheFullBlocks r bs c f size g := by
    refine run_rule (fun _ _ _ ht ↦ ⟨ht.enabled, ht.pooled, ht.replayed⟩)
      (fun b t ht ↦ maybeEvictCachedBlock_replayed ht b)
      (fun t ht ↦ resetPrefixCache_replayed ht) ?_ (fun _ _ ht ↦ .inl ht) h
    rintro r bs c f size g rfl
    exact (cacheFullBlocks_replayed h r hop c f size (hgroup r bs c f size g rfl)).weaken
      (fun _ _ ht ↦ ht) fun _ _ _ ↦ .inr ⟨r, bs, c, f, size, g, rfl⟩
  have hconfig := PoolOp.run_config H op p
  have hblocks : ∀ t : BlockPool, t.config = p.config → t.blocks = p.blocks := fun t ht ↦
    congrArg (fun n ↦ (List.range n).map Ref.blk) (congrArg Config.numGpuBlocks ht)
  unfold PoolOp.next at hnext
  split at hnext
  next heq =>
    cases hnext
    exact ⟨hrun.ok heq, hblocks _ (hconfig.ok heq)⟩
  next => cases hnext
  next hcache heq =>
    cases hnext
    refine ⟨(hrun.error heq).resolve_right ?_, hblocks _ (hconfig.error heq).1⟩
    rintro ⟨r, bs, c, f, size, g, rfl⟩
    exact hcache _ _ _ _ _ _ rfl

/-- The events that a pool has emitted amount to the pairs that its blocks carry. -/
theorem events_replay_to_carried {H : Hashing} {n size : ℕ} {caching ints : Bool} {p0 : BlockPool}
    (h : init n caching size true ints = .ok p0) {ops : List PoolOp}
    (hops : ∀ op ∈ ops, ∀ b ∈ op.refs, b ∈ p0.blocks)
    (hgroups : ∀ r bs c f size g, PoolOp.cacheFullBlocks r bs c f size g ∈ ops → g < 2 ^ 32)
    (hrun : ops.foldlM (fun p op ↦ op.next H p) p0 = some p) : replay p.kvEventQueue = p.carried := by
  have hinit : Replayed p0 := by
    unfold init at h
    split at h
    · cases h
    split at h
    · cases h
    · cases h
      exact ⟨rfl, fun _ hb ↦ absurd rfl hb, by simp [carried, replay]⟩
  suffices hall : Replayed p from hall.replayed
  clear h
  induction ops generalizing p0 with
  | nil => exact Option.some.inj hrun ▸ hinit
  | cons op ops ih =>
    rw [foldlM_cons] at hrun
    obtain ⟨p1, hnext, hrun⟩ := Option.bind_eq_some_iff.mp hrun
    obtain ⟨h1, hblocks⟩ := next_replayed hinit (hops op mem_cons_self)
      (fun r bs c f size g heq ↦ hgroups r bs c f size g (heq ▸ mem_cons_self)) hnext
    refine ih (fun op' hop' ↦ ?_) (fun r bs c f size g hmem ↦ ?_) hrun h1
    · rw [hblocks]
      exact hops op' (mem_cons_of_mem op hop')
    · exact hgroups r bs c f size g (mem_cons_of_mem op hmem)

/-- Of two blocks with one hash, the first is evicted. -/
theorem events_replay_to_carried_of_duplicates :
    ∃ p0 p, init 4 true 1 true false = .ok p0 ∧
      duplicateOps.foldlM (fun p op ↦ op.next byteHashing p) p0 = some p ∧
      p.kvEventQueue.length = 3 ∧ p.carried = {(0, .bytes [7])} ∧ replay p.kvEventQueue = p.carried :=
  have h : init 4 true 1 true false = .ok _ := rfl
  ⟨_, _, h, rfl, by decide, by decide, @events_replay_to_carried _ byteHashing _ _ _ _ _ h
    duplicateOps (by decide) (fun _ _ _ _ _ _ hmem ↦ by simp [duplicateOps] at hmem; omega) rfl⟩

end BlockPool

end VllmEngine.Core

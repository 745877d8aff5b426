import VllmEngine.Offload.CPUManager
import VllmEngine.Offload.PolicyItems
import VllmEngine.Lib.Triple

namespace VllmEngine.Offload

open Lib List CachePolicy ManagerReached BlockStatus

namespace CPUOffloadingManager

variable {m m' : CPUOffloadingManager} {name : PolicyName} {c : ℕ}

def heldIds (m : CPUOffloadingManager) : List ℕ := m.policy.items.map fun item ↦ item.2.blockId

structure Partitioned (name : PolicyName) (c : ℕ) (m : CPUOffloadingManager) : Prop where
  numBlocks : m.numBlocks = c
  policy : m.policy.SoundFor name c
  blocks : (m.freeList ++ m.heldIds).Perm (range m.numAllocatedBlocks)
  le : m.numAllocatedBlocks ≤ c

theorem partitioned_new (numBlocks) (cachePolicy : PolicyName) (enableEvents) (rounding) :
    Partitioned cachePolicy numBlocks (new numBlocks cachePolicy enableEvents rounding) := by
  refine ⟨rfl, ?_, ?_, Nat.zero_le _⟩
  · cases cachePolicy with
    | lru => rfl
    | arc => exact ⟨rfl, ARCCachePolicy.sound_init numBlocks rounding, rfl⟩
  · cases cachePolicy with
    | lru => exact .refl _
    | arc => exact .refl _

section

variable (h : m.Partitioned name c)

include h

theorem Partitioned.of_policy {policy} (hsound : policy.SoundFor name c)
    (hids : (policy.items.map fun item ↦ item.2.blockId).Perm m.heldIds) :
    Partitioned name c { m with policy } :=
  ⟨h.numBlocks, hsound, (hids.append_left _).trans h.blocks, h.le⟩

variable {block : BlockStatus} {keys : List OffloadKey}

theorem Partitioned.update {key} (hkey : m.policy.get key = some block) (block')
    (hid : block'.blockId = block.blockId) :
    Partitioned name c { m with policy := m.policy.update key block' } := by
  obtain ⟨hsound, rest, hold, hnew⟩ := h.policy.update hkey block'
  refine h.of_policy hsound ((hnew.map _).trans ?_)
  rw [map_cons, hid]
  exact (hold.map fun item ↦ item.2.blockId).symm

theorem Partitioned.appendEvent (keys) (removed) :
    (m.appendEvent keys removed).Partitioned name c := by
  unfold CPUOffloadingManager.appendEvent
  split
  · exact h
  · exact ⟨h.numBlocks, h.policy, h.blocks, h.le⟩

theorem Partitioned.prepareLoad {blockIds blockIds'}
    (hrun : m.prepareLoad keys blockIds = .ok (blockIds', m')) : m'.Partitioned name c := by
  induction keys generalizing m blockIds with
  | nil =>
    cases hrun
    exact h
  | cons key keys ih =>
    unfold prepareLoad at hrun
    split at hrun
    · cases hrun
    next block hkey =>
      split at hrun
      · exact ih (h.update hkey (block.addRef 1) rfl) hrun
      · cases hrun

theorem Partitioned.completeLoad (hrun : m.completeLoad keys = .ok m') : m'.Partitioned name c := by
  induction keys generalizing m with
  | nil =>
    cases hrun
    exact h
  | cons key keys ih =>
    unfold completeLoad at hrun
    split at hrun
    · cases hrun
    next block hkey =>
      split at hrun
      · exact ih (h.update hkey (block.addRef (-1)) rfl) hrun
      · cases hrun

theorem Partitioned.storedLoop (keys storedKeys) :
    (m.storedLoop keys storedKeys).1.Partitioned name c := by
  induction keys generalizing m storedKeys with
  | nil => exact h
  | cons key keys ih =>
    unfold storedLoop
    split
    · exact ih h storedKeys
    next block hkey =>
      split
      · exact ih h storedKeys
      · exact ih (h.update hkey { block with refCnt := 0 } rfl) _

theorem Partitioned.remove {key} (hkey : m.policy.get key = some block) :
    ({ m with policy := m.policy.remove key }.freeBlock block).Partitioned name c := by
  obtain ⟨hsound, hitems⟩ := h.policy.remove hkey
  refine ⟨h.numBlocks, hsound, ?_, h.le⟩
  refine List.Perm.trans ?_ h.blocks
  have hids := hitems.map fun item : CacheItem ↦ item.2.blockId
  change ((m.freeList ++ [block.blockId]) ++
    (m.policy.remove key).items.map fun item ↦ item.2.blockId).Perm (m.freeList ++ m.heldIds)
  rw [append_assoc]
  exact hids.symm.append_left _

theorem Partitioned.failedLoop (keys) :
    (m.failedLoop keys).Partitioned name c := by
  induction keys generalizing m with
  | nil => exact h
  | cons key keys ih =>
    unfold failedLoop
    split
    · exact ih h
    next block hkey =>
      split
      · exact ih h
      · exact ih (h.remove hkey)

theorem Partitioned.completeStore (keys) (success) :
    (m.completeStore keys success).Partitioned name c := by
  cases success with
  | true => exact (h.storedLoop keys []).appendEvent _ _
  | false => exact h.failedLoop keys

end

theorem freeEvicted_eq (m : CPUOffloadingManager) (evicted) :
    m.freeEvicted evicted =
      { m with freeList := m.freeList ++ evicted.map fun item ↦ item.2.blockId } := by
  unfold freeEvicted
  induction evicted generalizing m with
  | nil => simp
  | cons item items ih =>
    rw [foldl_cons, ih]
    simp [freeBlock]

theorem Partitioned.evict (h : m.Partitioned name c) {n protectedKeys evicted policy}
    (hev : m.policy.evict n protectedKeys = some (evicted, policy)) :
    ({ m with policy }.freeEvicted evicted).Partitioned name c := by
  obtain ⟨hsound, hitems⟩ := h.policy.evict hev
  rw [freeEvicted_eq]
  refine ⟨h.numBlocks, hsound, ?_, h.le⟩
  have hids := hitems.map fun item : CacheItem ↦ item.2.blockId
  rw [map_append] at hids
  refine List.Perm.trans ?_ h.blocks
  change ((m.freeList ++ evicted.map fun item ↦ item.2.blockId) ++
    policy.items.map fun item ↦ item.2.blockId).Perm (m.freeList ++ m.heldIds)
  rw [append_assoc]
  exact hids.symm.append_left _

variable {keys : List OffloadKey} {out : Option PrepareStoreOutput}

theorem allocateBlocks_blocks {blocks}
    (hle : m.numAllocatedBlocks ≤ m.numBlocks) (hrun : m.allocateBlocks keys = .ok (blocks, m')) :
    m'.policy = m.policy ∧ m'.numBlocks = m.numBlocks ∧ m'.numAllocatedBlocks ≤ m'.numBlocks ∧
      blocks.length = keys.length ∧
      ∀ held : List ℕ, (m.freeList ++ held).Perm (range m.numAllocatedBlocks) →
        (m'.freeList ++ (blocks.map blockId ++ held)).Perm
          (range m'.numAllocatedBlocks) := by
  unfold allocateBlocks at hrun
  dsimp only at hrun
  set numFresh := min keys.length (m.numBlocks - m.numAllocatedBlocks) with hfresh
  split at hrun
  · cases hrun
  next henough =>
    cases hrun
    refine ⟨rfl, rfl, ?_, ?_, ?_⟩
    · dsimp only
      omega
    · simp only [length_map, length_append, length_range', length_take, length_reverse]
      omega
    intro held hheld
    set numReused := keys.length - numFresh
    have hid : (blockId ∘ fun blockId ↦ ({ blockId } : BlockStatus)) = id := rfl
    rw [map_map, hid, map_id, range_add, ← range'_eq_map_range, take_reverse]
    have hpopped : (m.freeList.take (m.freeList.length - numReused) ++
        (m.freeList.drop (m.freeList.length - numReused)).reverse).Perm m.freeList := by
      refine ((reverse_perm _).append_left _).trans ?_
      rw [take_append_drop]
    generalize m.freeList.take (m.freeList.length - numReused) = kept at hpopped ⊢
    generalize (m.freeList.drop (m.freeList.length - numReused)).reverse = popped at hpopped ⊢
    generalize range' m.numAllocatedBlocks numFresh = fresh
    calc (kept ++ ((fresh ++ popped) ++ held)).Perm (fresh ++ ((kept ++ popped) ++ held)) := by
          simp only [append_assoc]
          exact perm_append_comm_assoc kept fresh _
      _ |>.Perm (fresh ++ range m.numAllocatedBlocks) :=
          ((hpopped.append_right held).trans hheld).append_left fresh
      _ |>.Perm (range m.numAllocatedBlocks ++ fresh) := perm_append_comm

theorem foldl_insert {p : CachePolicy} {c} (h : p.SoundFor name c) {items : List CacheItem}
    (hkeys : (items.map Prod.fst).Nodup) (hnew : ∀ item ∈ items, p.get item.1 = none) :
    (items.foldl (fun p item ↦ p.insert item.1 item.2) p).SoundFor name c ∧
      (items.foldl (fun p item ↦ p.insert item.1 item.2) p).items.Perm (items ++ p.items) := by
  induction items generalizing p with
  | nil => exact ⟨h, .refl _⟩
  | cons item items ih =>
    rw [map_cons, nodup_cons] at hkeys
    obtain ⟨hs, hone⟩ := h.insert (hnew item mem_cons_self) item.2
    have hrest : ∀ item' ∈ items, (p.insert item.1 item.2).get item'.1 = none := by
      intro item' hitem'
      have hne : item'.1 ≠ item.1 := fun heq ↦ hkeys.1 (heq ▸ mem_map_of_mem hitem')
      have hold := get_eq_none_iff.mp (hnew item' (mem_cons_of_mem item hitem'))
      rw [get_eq_none_iff, (hone.map Prod.fst).mem_iff, map_cons, mem_cons]
      exact not_or.mpr ⟨hne, hold⟩
    obtain ⟨hs', hall⟩ := ih hs hkeys.2 hrest
    exact ⟨hs', hall.trans ((hone.append_left items).trans perm_middle)⟩

theorem Partitioned.insertBlocks (h : m.Partitioned name c) {keysToStore evictedKeys}
    (hkeys : keysToStore.Nodup) (hnew : ∀ key ∈ keysToStore, m.policy.get key = none)
    (hrun : m.insertBlocks keysToStore evictedKeys = .ok (out, m')) :
    m'.Partitioned name c ∧
      ∃ blocks, out = some ⟨keysToStore, blocks.map blockId, evictedKeys⟩ ∧
        m'.policy.items.Perm (keysToStore.zip blocks ++ m.policy.items) := by
  obtain ⟨⟨blocks, m1⟩, halloc, hout⟩ := of_bind_eq_ok hrun
  cases hout
  have hevent := h.appendEvent evictedKeys true
  have hsame : (m.appendEvent evictedKeys true).policy = m.policy := by
    unfold CPUOffloadingManager.appendEvent
    split <;> rfl
  obtain ⟨hpolicy, hnum, hle, hlen, hblocks⟩ :=
    allocateBlocks_blocks (hevent.numBlocks.symm ▸ hevent.le) halloc
  have hsound : m1.policy.SoundFor name c := hpolicy.symm ▸ hevent.policy
  have hzip : (keysToStore.zip blocks).map Prod.fst = keysToStore := map_fst_zip hlen.ge
  have hids : (keysToStore.zip blocks).map (fun item ↦ item.2.blockId) =
      blocks.map blockId := by
    conv_rhs => rw [← map_snd_zip hlen.le, map_map]
    rfl
  have habsent : ∀ item ∈ keysToStore.zip blocks, m1.policy.get item.1 = none := by
    intro item hitem
    rw [hpolicy, hsame]
    exact hnew item.1 (hzip ▸ mem_map_of_mem hitem)
  have hnum' : m1.numBlocks = c := hnum.trans hevent.numBlocks
  obtain ⟨hs, hitems⟩ := foldl_insert hsound (hzip.symm ▸ hkeys) habsent
  refine ⟨⟨hnum', hs, ?_, hnum' ▸ hle⟩, blocks, rfl, ?_⟩
  · have hheld := hitems.map fun item : CacheItem ↦ item.2.blockId
    rw [map_append, hids] at hheld
    have hold := hevent.blocks
    rw [heldIds, ← hpolicy] at hold
    exact (hheld.append_left _).trans (hblocks _ hold)
  · rw [← hsame, ← hpolicy]
    exact hitems

inductive StorePrepared (name : PolicyName) (c : ℕ) (m : CPUOffloadingManager) :
    Option PrepareStoreOutput → CPUOffloadingManager → Prop
  | refused : StorePrepared name c m none m
  | stored {m' : CPUOffloadingManager} {out} (evicted : List CacheItem)
      (blocks : List BlockStatus) (policy : CachePolicy)
      (hevicted : out.evictedKeys = evicted.map Prod.fst)
      (hevictable : ∀ item ∈ evicted, item.2.refCnt = 0)
      (hold : m.policy.items.Perm (evicted ++ policy.items))
      (hnew : m'.policy.items.Perm (out.keysToStore.zip blocks ++ policy.items))
      (hblocks : m'.Partitioned name c) :
      StorePrepared name c m (some out) m'

theorem Partitioned.prepareStore (h : m.Partitioned name c) (hkeys : keys.Nodup)
    (hrun : m.prepareStore keys = .ok (out, m')) : StorePrepared name c m out m' := by
  have hnodup : (keys.filter fun key ↦ (m.policy.get key).isNone).Nodup := hkeys.filter _
  have hnew : ∀ key ∈ keys.filter fun key ↦ (m.policy.get key).isNone, m.policy.get key = none :=
    fun key hkey ↦ Option.isNone_iff_eq_none.mp (mem_filter.mp hkey).2
  unfold CPUOffloadingManager.prepareStore at hrun
  dsimp only at hrun
  generalize (keys.filter fun key ↦ (m.policy.get key).isNone) = keysToStore at *
  split at hrun
  · cases hrun
    exact .stored [] [] m.policy rfl (fun _ hitem ↦ absurd hitem not_mem_nil) (.refl _) (.refl _) h
  split at hrun
  · split at hrun
    · cases hrun
      exact .refused
    next evicted hev =>
      obtain ⟨evicted, policy⟩ := evicted
      have hroom := h.evict hev
      have hitems := (h.policy.evict hev).2
      have hevictable : ∀ item ∈ evicted, item.2.refCnt = 0 := fun item hitem ↦
        ((evict_sound hev).2.2 item hitem).2.1
      rw [freeEvicted_eq] at hroom hrun
      have hnone : ∀ key ∈ keysToStore, policy.get key = none := by
        intro key hkey
        rw [get_eq_none_iff]
        intro hmem
        refine get_eq_none_iff.mp (hnew key hkey) ((hitems.map Prod.fst).mem_iff.mpr ?_)
        rw [map_append]
        exact mem_append_right _ hmem
      obtain ⟨hpart, blocks, rfl, hperm⟩ := hroom.insertBlocks hnodup hnone hrun
      exact .stored evicted blocks policy rfl hevictable hitems hperm hpart
  · obtain ⟨hpart, blocks, rfl, hperm⟩ := h.insertBlocks hnodup hnew hrun
    exact .stored [] blocks m.policy rfl (fun _ hitem ↦ absurd hitem not_mem_nil) (.refl _)
      hperm hpart

theorem Partitioned.call (h : m.Partitioned name c) {call : ManagerCall} (hcall : call.Proper)
    (hrun : call.run m = .ok m') : m'.Partitioned name c := by
  cases call with
  | lookup key =>
    cases hrun
    exact h
  | touch keys =>
    cases hrun
    obtain ⟨hsound, hitems⟩ := h.policy.touch keys
    exact h.of_policy hsound (hitems.map _)
  | prepareStore keys =>
    obtain ⟨⟨out, m1⟩, hout, rfl⟩ := of_map_eq_ok hrun
    cases h.prepareStore hcall hout with
    | refused => exact h
    | stored _ _ _ _ _ _ _ hblocks => exact hblocks
  | completeStore keys success =>
    cases hrun
    exact h.completeStore keys success
  | prepareLoad keys =>
    obtain ⟨⟨ids, m1⟩, hout, rfl⟩ := of_map_eq_ok hrun
    exact h.prepareLoad hout
  | completeLoad keys => exact h.completeLoad hrun
  | takeEvents =>
    cases hrun
    exact ⟨h.numBlocks, h.policy, h.blocks, h.le⟩

end CPUOffloadingManager

namespace ManagerReached

open CPUOffloadingManager

variable {numBlocks : ℕ} {cachePolicy : PolicyName} {enableEvents : Bool} {m : CPUOffloadingManager}

theorem partitioned (h : ManagerReached numBlocks cachePolicy enableEvents m) :
    m.Partitioned cachePolicy numBlocks := by
  induction h with
  | new => exact partitioned_new numBlocks cachePolicy enableEvents _
  | call c _ hc hrun ih => exact ih.call hc hrun

def runCalls : List ManagerCall → CPUOffloadingManager → Option CPUOffloadingManager
  | [], m => some m
  | c :: cs, m =>
    if c.Proper then
      match c.run m with
      | .ok m' => runCalls cs m'
      | .error _ => none
    else none

theorem of_runCalls {cs m'}
    (h : ManagerReached numBlocks cachePolicy enableEvents m) (hrun : runCalls cs m = some m') :
    ManagerReached numBlocks cachePolicy enableEvents m' := by
  induction cs generalizing m with
  | nil =>
    cases hrun
    exact h
  | cons c cs ih =>
    unfold runCalls at hrun
    split at hrun
    next hc =>
      split at hrun
      next m1 hm1 => exact ih (.call c h hc hm1) hrun
      · cases hrun
    · cases hrun

end ManagerReached

namespace CPUOffloadingManager

variable {numBlocks : ℕ} {cachePolicy : PolicyName} {enableEvents : Bool} {m : CPUOffloadingManager}

def Holds (m : CPUOffloadingManager) (key : OffloadKey) (blockId : ℕ) : Prop :=
  ∃ block, m.policy.get key = some block ∧ block.blockId = blockId

variable {name : PolicyName} {c : ℕ}

theorem Partitioned.nodup (h : m.Partitioned name c) : (m.freeList ++ m.heldIds).Nodup :=
  h.blocks.nodup_iff.mpr nodup_range

theorem Partitioned.mem_heldIds (h : m.Partitioned name c) {blockId} :
    blockId ∈ m.heldIds ↔ ∃ key, m.Holds key blockId := by
  constructor
  · intro hmem
    obtain ⟨⟨key, block⟩, hitem, rfl⟩ := mem_map.mp hmem
    exact ⟨key, block, h.policy.get_eq_some_iff.mpr hitem, rfl⟩
  · rintro ⟨key, block, hkey, rfl⟩
    exact mem_map.mpr ⟨(key, block), mem_items_of_get hkey, rfl⟩

theorem Partitioned.holds_unique (h : m.Partitioned name c)
    {key key' blockId} (hk : m.Holds key blockId) (hk' : m.Holds key' blockId) :
    key = key' := by
  obtain ⟨block, hkey, hid⟩ := hk
  obtain ⟨block', hkey', hid'⟩ := hk'
  have heq := inj_on_of_nodup_map h.nodup.of_append_right (mem_items_of_get hkey)
    (mem_items_of_get hkey') (hid.trans hid'.symm)
  exact congrArg Prod.fst heq

theorem StorePrepared.kept {m' out} (h : m.Partitioned name c)
    (hstore : StorePrepared name c m (some out) m') {key block}
    (hkey : m.policy.get key = some block) (hbusy : block.isReady = false ∨ 0 < block.refCnt) :
    key ∉ out.evictedKeys ∧ m'.policy.get key = some block := by
  cases hstore with
  | stored evicted blocks policy hevicted hevictable hold hnew hblocks =>
    have hne : block.refCnt ≠ 0 := by
      intro hzero
      rcases hbusy with hbusy | hbusy
      · simp [isReady, hzero] at hbusy
      · omega
    have hmem := mem_items_of_get hkey
    have hnot : (key, block) ∉ evicted := fun hin ↦ hne (hevictable _ hin)
    have hkeys := (hold.map Prod.fst).nodup_iff.mp h.policy.nodup
    rw [map_append] at hkeys
    have hpolicy := (mem_append.mp (hold.mem_iff.mp hmem)).resolve_left hnot
    refine ⟨?_, ?_⟩
    · rw [hevicted]
      intro hin
      exact disjoint_of_nodup_append hkeys hin (mem_map_of_mem hpolicy)
    · rw [hblocks.policy.get_eq_some_iff, hnew.mem_iff]
      exact mem_append_right _ hpolicy

/-- Every block is free or held by one key; a store evicts no block being written or read, and
changes nothing if refused. -/
theorem blocks_partitioned (h : ManagerReached numBlocks cachePolicy enableEvents m) :
    (m.freeList.Nodup ∧ (∀ blockId ∈ m.freeList, blockId < m.numAllocatedBlocks) ∧
      (∀ key blockId, m.Holds key blockId → blockId < m.numAllocatedBlocks) ∧
      ∀ blockId < m.numAllocatedBlocks, (blockId ∈ m.freeList ∧ ∀ key, ¬m.Holds key blockId) ∨
          (blockId ∉ m.freeList ∧ ∃! key, m.Holds key blockId)) ∧
    ∀ (keys : List OffloadKey) (out : Option PrepareStoreOutput) (m' : CPUOffloadingManager),
      keys.Nodup → m.prepareStore keys = .ok (out, m') → (out = none → m' = m) ∧
        ∀ (key : OffloadKey) (block : BlockStatus), m.policy.get key = some block →
          block.isReady = false ∨ 0 < block.refCnt →
            (∀ o, out = some o → key ∉ o.evictedKeys) ∧ m'.policy.get key = some block := by
  have hpart := h.partitioned
  have hlt : ∀ blockId, blockId ∈ m.freeList ++ m.heldIds ↔ blockId < m.numAllocatedBlocks :=
    fun blockId ↦ hpart.blocks.mem_iff.trans mem_range
  refine ⟨⟨hpart.nodup.of_append_left, ?_, ?_, ?_⟩, ?_⟩
  · intro blockId hfree
    exact (hlt blockId).mp (mem_append_left _ hfree)
  · intro key blockId hheld
    exact (hlt blockId).mp (mem_append_right _ (hpart.mem_heldIds.mpr ⟨key, hheld⟩))
  · intro blockId hid
    rcases mem_append.mp ((hlt blockId).mpr hid) with hfree | hheld
    · refine .inl ⟨hfree, fun key hkey ↦ ?_⟩
      exact disjoint_of_nodup_append hpart.nodup hfree (hpart.mem_heldIds.mpr ⟨key, hkey⟩)
    · obtain ⟨key, hkey⟩ := hpart.mem_heldIds.mp hheld
      refine .inr ⟨fun hfree ↦ disjoint_of_nodup_append hpart.nodup hfree hheld, key, hkey, ?_⟩
      exact fun key' hkey' ↦ hpart.holds_unique hkey' hkey
  · intro keys out m' hkeys hrun
    have hstore := hpart.prepareStore hkeys hrun
    cases out with
    | none =>
      cases hstore
      exact ⟨fun _ ↦ rfl, fun key block hkey _ ↦ ⟨fun o ho ↦ (by cases ho), hkey⟩⟩
    | some out =>
      refine ⟨fun hnone ↦ (by cases hnone), fun key block hkey hbusy ↦ ?_⟩
      obtain ⟨hnot, hkept⟩ := hstore.kept hpart hkey hbusy
      exact ⟨fun o ho ↦ Option.some.inj ho ▸ hnot, hkept⟩

def exampleCalls : List ManagerCall :=
  [.prepareStore [[0], [1]], .completeStore [[0], [1]] true, .prepareLoad [[0]],
    .prepareStore [[2]], .completeStore [[2]] false]

theorem blocks_partitioned_of_example :
    ∃ m, ManagerReached 2 .lru true m ∧ m.freeList = [1] ∧ m.numAllocatedBlocks = 2 ∧
      ∀ blockId < 2, (blockId ∈ m.freeList ∧ ∀ key, ¬m.Holds key blockId) ∨
        (blockId ∉ m.freeList ∧ ∃! key, m.Holds key blockId) := by
  have hrun := of_runCalls .new
    (Option.get_mem (o := runCalls exampleCalls (.new 2 .lru true)) (by decide))
  exact ⟨_, hrun, by decide, by decide, (blocks_partitioned hrun).1.2.2.2⟩

/-- No key is in two lists of an ARC policy, and its lists and its target are bounded. -/
theorem arc_lists_bounded (h : ManagerReached numBlocks .arc enableEvents m) :
    ∃ p, m.policy = .arc p ∧ p.cacheCapacity = numBlocks ∧
      [p.t1.entries.map Prod.fst, p.t2.entries.map Prod.fst, p.b1.entries.map Prod.fst,
        p.b2.entries.map Prod.fst].Pairwise List.Disjoint ∧
      p.b1.size ≤ numBlocks ∧ p.b2.size ≤ numBlocks ∧ p.t1.size + p.t2.size ≤ numBlocks ∧
      0 ≤ p.targetT1Size ∧ p.targetT1Size ≤ numBlocks := by
  have hpart := h.partitioned
  have hpolicy := hpart.policy
  have hblocks := hpart.blocks.length_eq
  cases hp : m.policy with
  | lru p =>
    rw [hp] at hpolicy
    cases hpolicy
  | arc p =>
    rw [hp] at hpolicy
    obtain ⟨-, hsound, rfl⟩ := hpolicy
    have hsize : m.heldIds.length = p.t1.size + p.t2.size := by
      rw [heldIds, hp]
      simp [items, Dict.size]
    rw [length_append, length_range, hsize] at hblocks
    refine ⟨p, rfl, rfl, ?_, hsound.b1_le, hsound.b2_le, ?_, hsound.target_nonneg, hsound.target_le⟩
    · have hflat : [p.t1.entries.map Prod.fst, p.t2.entries.map Prod.fst, p.b1.entries.map Prod.fst,
          p.b2.entries.map Prod.fst].flatten = p.allKeys := by
        simp [ARCCachePolicy.allKeys]
      exact (nodup_flatten.mp (hflat ▸ hsound.disjoint)).2
    · have hle := hpart.le
      omega

theorem arc_lists_bounded_of_example :
    ∃ m p, ManagerReached 2 .arc true m ∧ m.numAllocatedBlocks = 2 ∧ m.policy = .arc p ∧
      p.b1.size ≤ 2 ∧ p.t1.size + p.t2.size ≤ 2 := by
  have hrun := of_runCalls .new
    (Option.get_mem (o := runCalls exampleCalls (.new 2 .arc true)) (by decide +kernel))
  obtain ⟨p, hp, -, -, hb1, -, hle, -⟩ := arc_lists_bounded hrun
  exact ⟨_, p, hrun, by decide +kernel, hp, hb1, hle⟩

theorem insertBlocks_ok {keysToStore} (evictedKeys)
    (hle : m.numAllocatedBlocks ≤ m.numBlocks) (hfree : keysToStore.length ≤ m.getNumFreeBlocks) :
    ∃ r, m.insertBlocks keysToStore evictedKeys = .ok r := by
  have halloc : ∃ a, (m.appendEvent evictedKeys true).allocateBlocks keysToStore = .ok a := by
    unfold getNumFreeBlocks at hfree
    unfold appendEvent allocateBlocks
    split
    all_goals
      dsimp only
      rw [if_neg (by omega)]
      exact ⟨_, rfl⟩
  obtain ⟨a, ha⟩ := halloc
  rw [insertBlocks, ha]
  exact ⟨_, rfl⟩

/-- In every run the free and the held blocks make up the capacity, and no store fails. -/
theorem store_never_fails (h : ManagerReached numBlocks cachePolicy enableEvents m) :
    m.getNumFreeBlocks + m.heldIds.length = numBlocks ∧
      ∀ keys, ∃ r, m.prepareStore keys = .ok r := by
  have hpart := h.partitioned
  have hnum := hpart.numBlocks
  have hle : m.numAllocatedBlocks ≤ m.numBlocks := hnum ▸ hpart.le
  constructor
  · have hlen := hpart.blocks.length_eq
    rw [length_append, length_range] at hlen
    unfold getNumFreeBlocks
    omega
  intro keys
  unfold prepareStore
  dsimp only
  split
  · exact ⟨_, rfl⟩
  split
  · split
    · exact ⟨_, rfl⟩
    next evicted hev =>
      -- as many blocks are evicted as were missing
      have hlen := (evict_sound hev).1
      rw [freeEvicted_eq]
      apply insertBlocks_ok
      · exact hle
      · simp only [getNumFreeBlocks, length_append, length_map] at *
        omega
  · exact insertBlocks_ok _ hle (by omega)

theorem store_never_fails_of_example : ∃ m, ManagerReached 2 .lru true m ∧
    m.getNumFreeBlocks = 1 ∧ ∃ r, m.prepareStore [[2], [3]] = .ok r := by
  have hrun := of_runCalls .new
    (Option.get_mem (o := runCalls exampleCalls (.new 2 .lru true)) (by decide))
  exact ⟨_, hrun, by decide, (store_never_fails hrun).2 _⟩

end CPUOffloadingManager

end VllmEngine.Offload

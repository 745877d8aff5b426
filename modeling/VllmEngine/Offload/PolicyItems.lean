import VllmEngine.Offload.EvictionSpecs

namespace VllmEngine.Offload

open Lib List Option Dict ARCCachePolicy

section

variable {α β : Type} [DecidableEq α] {d : Dict α β}

theorem perm_foldl_erase {evicted} (hkeys : (evicted.map Prod.fst).Nodup)
    (hmem : ∀ e ∈ evicted, e ∈ d.entries) :
    d.entries.Perm (evicted ++ (evicted.foldl (fun d e ↦ d.erase e.1) d).entries) := by
  induction evicted generalizing d with
  | nil => exact .refl _
  | cons e es ih =>
    rw [map_cons, nodup_cons] at hkeys
    have he := d.get?_eq_some.mpr (hmem e mem_cons_self)
    have hrest : ∀ e' ∈ es, e' ∈ (d.erase e.1).entries := fun e' he' ↦ by
      have hne : e'.1 ≠ e.1 := fun h ↦ hkeys.1 (h ▸ mem_map_of_mem he')
      rw [← (d.erase e.1).get?_eq_some, get?_erase_ne d hne]
      exact d.get?_eq_some.mpr (hmem e' (mem_cons_of_mem e he'))
    exact (perm_cons_erase he).trans ((ih hkeys.2 hrest).cons e)

theorem keys_set_of_none {k : α} (h : d.get? k = none) (v : β) :
    ((d.set k v).entries.map Prod.fst).Perm (k :: d.entries.map Prod.fst) := by
  rw [set_entries_of_none h, map_append]
  exact perm_append_comm

theorem keys_cons_erase {k : α} (h : (d.get? k).isSome) :
    (d.entries.map Prod.fst).Perm (k :: (d.erase k).entries.map Prod.fst) := by
  obtain ⟨v, hv⟩ := isSome_iff_exists.mp h
  exact (perm_cons_erase hv).map Prod.fst

end

namespace ARCCachePolicy

variable {p : ARCCachePolicy} {key : OffloadKey}

def allKeys (p : ARCCachePolicy) : List OffloadKey :=
  p.t1.entries.map Prod.fst ++ (p.t2.entries.map Prod.fst ++
    (p.b1.entries.map Prod.fst ++ p.b2.entries.map Prod.fst))

structure Sound (p : ARCCachePolicy) : Prop where
  disjoint : p.allKeys.Nodup
  b1_le : p.b1.size ≤ p.cacheCapacity
  b2_le : p.b2.size ≤ p.cacheCapacity
  target_nonneg : 0 ≤ p.targetT1Size
  target_le : p.targetT1Size ≤ p.cacheCapacity

theorem sound_init (cacheCapacity rounding) : Sound { cacheCapacity, rounding } :=
  ⟨nodup_nil, Nat.zero_le _, Nat.zero_le _, le_rfl, Nat.cast_nonneg _⟩

variable {p' : ARCCachePolicy} {protectedKeys : List OffloadKey}

theorem Sound.of_perm (h : p.Sound) (hkeys : p'.allKeys.Perm p.allKeys)
    (hcap : p'.cacheCapacity = p.cacheCapacity) (hb1 : p'.b1.size = p.b1.size)
    (hb2 : p'.b2.size = p.b2.size) (htarget : 0 ≤ p'.targetT1Size ∧ p'.targetT1Size ≤ p.cacheCapacity) :
    p'.Sound :=
  ⟨hkeys.nodup_iff.mpr h.disjoint, by rw [hb1, hcap]; exact h.b1_le, by rw [hb2, hcap]; exact h.b2_le,
    htarget.1, by rw [hcap]; exact htarget.2⟩

theorem not_mem_of_mem_t1 (h : p.allKeys.Nodup) (hkey : (p.t1.get? key).isSome) :
    p.t2.get? key = none ∧ p.b1.get? key = none ∧ p.b2.get? key = none := by
  have hmem := (p.t1.mem_keys_iff key).mpr hkey
  have hnot : key ∉ _ := disjoint_of_nodup_append h hmem
  simpa only [mem_append, mem_keys_iff, not_or, Bool.not_eq_true,
    isSome_eq_false_iff, isNone_iff_eq_none] using hnot

theorem not_mem_of_mem_t2 (h : p.allKeys.Nodup) (hkey : (p.t2.get? key).isSome) :
    p.b1.get? key = none ∧ p.b2.get? key = none := by
  have hmem := (p.t2.mem_keys_iff key).mpr hkey
  have hnot : key ∉ _ := disjoint_of_nodup_append h.of_append_right hmem
  simpa only [mem_append, mem_keys_iff, not_or, Bool.not_eq_true,
    isSome_eq_false_iff, isNone_iff_eq_none] using hnot

theorem perm_promote (h : p.allKeys.Nodup) {block} (hkey : p.t1.get? key = some block) :
    ({ p with t1 := p.t1.erase key, t2 := p.t2.set key block } : ARCCachePolicy).allKeys.Perm
      p.allKeys := by
  have hnone := (not_mem_of_mem_t1 h (by rw [hkey]; rfl)).1
  have h1 := keys_cons_erase (by rw [hkey]; rfl)
  have h2 := keys_set_of_none hnone block
  refine List.Perm.trans ((h2.append_right _).append_left _) ?_
  refine perm_middle.trans ?_
  exact (h1.symm.append_right _)

theorem touchKey_sound (h : p.Sound) (key) : (p.touchKey key).Sound := by
  have hcap : (0 : ℚ) ≤ p.cacheCapacity := Nat.cast_nonneg _
  have hdelta (x : ℚ) : 0 ≤ max 1 x := zero_le_one.trans (le_max_left _ _)
  unfold touchKey
  split
  next block hkey =>
    split
    · exact h.of_perm (perm_promote h.disjoint hkey) rfl rfl rfl ⟨h.target_nonneg, h.target_le⟩
    · refine h.of_perm ?_ rfl rfl rfl ⟨h.target_nonneg, h.target_le⟩
      exact ((perm_moveToEnd p.t1 key).map Prod.fst).append_right _
  next hkey =>
    split
    · refine h.of_perm ?_ rfl rfl rfl ⟨h.target_nonneg, h.target_le⟩
      exact (((perm_moveToEnd p.t2 key).map Prod.fst).append_right _).append_left _
    split
    · refine h.of_perm ?_ rfl (size_moveToEnd _ _) rfl
        ⟨le_min (p.rounding.nonneg _ (add_nonneg h.target_nonneg (hdelta _))) hcap, min_le_right _ _⟩
      exact ((((perm_moveToEnd p.b1 key).map Prod.fst).append_right _).append_left _).append_left _
    split
    · refine h.of_perm ?_ rfl rfl (size_moveToEnd _ _)
        ⟨le_max_right _ _, max_le (p.rounding.le_cast _ _
          ((sub_le_self _ (hdelta _)).trans h.target_le)) hcap⟩
      exact ((((perm_moveToEnd p.b2 key).map Prod.fst).append_left _).append_left _).append_left _
    · exact h

theorem touch_sound (h : p.Sound) (keys) : (p.touch keys).Sound := by
  unfold touch
  induction keys.reverse generalizing p with
  | nil => exact h
  | cons key keys ih => exact ih (touchKey_sound h key)

theorem get_eq_none_iff : p.get key = none ↔ p.t1.get? key = none ∧ p.t2.get? key = none := by
  unfold get
  cases p.t1.get? key <;> simp

theorem insert_sound (h : p.Sound) (hkey : p.get key = none) (block) :
    (p.insert key block).Sound := by
  obtain ⟨h1, h2⟩ := get_eq_none_iff.mp hkey
  have hsub : ∀ d : Dict OffloadKey Unit, (d.erase key).entries.Sublist d.entries := fun d ↦
    filter_sublist
  have hrest : (p.t1.entries.map Prod.fst ++ (p.t2.entries.map Prod.fst ++
      ((p.b1.erase key).entries.map Prod.fst ++ (p.b2.erase key).entries.map Prod.fst))).Nodup := by
    refine h.disjoint.sublist ?_
    exact (((hsub p.b1).map _).append ((hsub p.b2).map _)).append_left _ |>.append_left _
  refine ⟨?_, ((hsub p.b1).length_le).trans h.b1_le, ((hsub p.b2).length_le).trans h.b2_le,
    h.target_nonneg, h.target_le⟩
  have hperm := (keys_set_of_none h1 block).append_right (p.t2.entries.map Prod.fst ++
    ((p.b1.erase key).entries.map Prod.fst ++ (p.b2.erase key).entries.map Prod.fst))
  refine hperm.nodup_iff.mpr (nodup_cons.mpr ⟨?_, hrest⟩)
  simp [mem_keys_iff, h1, h2]

theorem remove_sound (h : p.Sound) (key) : (p.remove key).Sound := by
  have hsub : ∀ d : Dict OffloadKey BlockStatus, (d.erase key).entries.Sublist d.entries := fun d ↦
    filter_sublist
  unfold remove
  split
  · exact ⟨h.disjoint.sublist (((hsub p.t1).map _).append_right _), h.b1_le, h.b2_le,
      h.target_nonneg, h.target_le⟩
  · exact ⟨h.disjoint.sublist ((((hsub p.t2).map _).append_right _).append_left _), h.b1_le, h.b2_le,
      h.target_nonneg, h.target_le⟩

def Holds (p : ARCCachePolicy) (c : Candidate) : Prop :=
  c.item ∈ (if c.fromT1 then p.t1 else p.t2).entries

structure Evicts (items : List CacheItem) (p p' : ARCCachePolicy) : Prop where
  keys : p'.allKeys.Perm p.allKeys
  items : (p.t1.entries ++ p.t2.entries).Perm (items ++ (p'.t1.entries ++ p'.t2.entries))
  capacity : p'.cacheCapacity = p.cacheCapacity
  target : p'.targetT1Size = p.targetT1Size

theorem applyEviction_evicts (h : p.allKeys.Nodup) {c} (hc : p.Holds c) :
    Evicts [c.item] p (p.applyEviction c) := by
  unfold Holds at hc
  unfold applyEviction
  split
  next hfrom =>
    rw [if_pos hfrom] at hc
    have hget := p.t1.get?_eq_some.mpr hc
    have hsome : (p.t1.get? c.item.1).isSome := by rw [hget]; rfl
    have hb1 := keys_set_of_none (not_mem_of_mem_t1 h hsome).2.1 ()
    refine ⟨?_, (perm_cons_erase hget).append_right _, rfl, rfl⟩
    refine (((hb1.append_right _).append_left _).append_left _).trans ?_
    refine (perm_middle.append_left _).trans (perm_middle.trans ?_)
    exact (keys_cons_erase hsome).symm.append_right _
  next hfrom =>
    rw [if_neg hfrom] at hc
    have hget := p.t2.get?_eq_some.mpr hc
    have hsome : (p.t2.get? c.item.1).isSome := by rw [hget]; rfl
    have hb2 := keys_set_of_none (not_mem_of_mem_t2 h hsome).2 ()
    refine ⟨?_, ?_, rfl, rfl⟩
    · refine ((((hb2.append_left _).append_left _).append_left _)).trans ?_
      refine ((perm_middle.append_left _).append_left _).trans ?_
      refine (perm_middle.append_left _).trans ?_
      exact ((keys_cons_erase hsome).symm.append_right _).append_left _
    · exact ((perm_cons_erase hget).append_left _).trans perm_middle

theorem applyEviction_holds {c c'} (hne : c'.item.1 ≠ c.item.1) (h : p.Holds c') :
    (p.applyEviction c).Holds c' := by
  have herase : ∀ d : Dict OffloadKey BlockStatus, c'.item ∈ d.entries →
      c'.item ∈ (d.erase c.item.1).entries := fun d hd ↦ by
    rw [← (d.erase c.item.1).get?_eq_some, get?_erase_ne d hne]
    exact d.get?_eq_some.mpr hd
  unfold Holds at *
  unfold applyEviction
  cases hc : c.fromT1 <;> cases hc' : c'.fromT1 <;> rw [hc'] at h
  · exact herase _ h
  · exact h
  · exact h
  · exact herase _ h

theorem foldl_applyEviction_evicts (h : p.allKeys.Nodup) {candidates : List Candidate}
    (hkeys : (candidates.map fun c ↦ c.item.1).Nodup) (hc : ∀ c ∈ candidates, p.Holds c) :
    Evicts (candidates.map Candidate.item) p (candidates.foldl applyEviction p) := by
  induction candidates generalizing p with
  | nil => exact ⟨.refl _, .refl _, rfl, rfl⟩
  | cons c cs ih =>
    rw [map_cons, nodup_cons] at hkeys
    have hone := applyEviction_evicts h (hc c mem_cons_self)
    have hrest := ih (hone.keys.nodup_iff.mpr h) hkeys.2 fun c' hc' ↦
      applyEviction_holds (fun heq ↦ hkeys.1 (heq ▸ mem_map_of_mem hc'))
        (hc c' (mem_cons_of_mem c hc'))
    exact ⟨hrest.keys.trans hone.keys, hone.items.trans (hrest.items.cons c.item),
      hrest.capacity.trans hone.capacity, hrest.target.trans hone.target⟩

theorem chosen_holds {i j} : ∀ c ∈ p.chosen protectedKeys i j, p.Holds c := by
  intro c hc
  rcases mem_append.mp hc with hc | hc
  · obtain ⟨item, hitem, rfl⟩ := mem_map.mp hc
    exact (mem_evictables.mp (mem_of_mem_take hitem)).1
  · obtain ⟨item, hitem, rfl⟩ := mem_map.mp hc
    exact (mem_evictables.mp (mem_filter.mp (mem_of_mem_take hitem)).1).1

theorem evict_sound {n} {evicted} (h : p.Sound)
    (hev : p.evict n protectedKeys = some (evicted, p')) :
    p'.Sound ∧ p'.cacheCapacity = p.cacheCapacity ∧
      (p.t1.entries ++ p.t2.entries).Perm (evicted ++ (p'.t1.entries ++ p'.t2.entries)) := by
  obtain ⟨i, j, rfl, hij, -, -, ⟨hzero, rfl⟩ | rfl⟩ := evict_eq_some hev
  · obtain ⟨rfl, rfl⟩ : i = 0 ∧ j = 0 := by omega
    exact ⟨h, rfl, .refl _⟩
  have hfold := foldl_applyEviction_evicts h.disjoint (nodup_keys_chosen p protectedKeys i j)
    chosen_holds
  rw [← items_chosen]
  generalize (p.chosen protectedKeys i j).foldl applyEviction p = q at hfold ⊢
  refine ⟨⟨?_, ?_, ?_, ?_, ?_⟩, hfold.capacity, hfold.items⟩
  · refine (hfold.keys.nodup_iff.mpr h.disjoint).sublist ?_
    exact ((((drop_sublist _ _).map _).append ((drop_sublist _ _).map _)).append_left
      _).append_left _
  · change (q.b1.dropOldest (q.b1.size - q.cacheCapacity)).size ≤ q.cacheCapacity
    rw [size_dropOldest]
    omega
  · change (q.b2.dropOldest (q.b2.size - q.cacheCapacity)).size ≤ q.cacheCapacity
    rw [size_dropOldest]
    omega
  · exact hfold.target.symm ▸ h.target_nonneg
  · change q.targetT1Size ≤ q.cacheCapacity
    rw [hfold.target, hfold.capacity]
    exact h.target_le

theorem touchKey_items (h : p.allKeys.Nodup) (key) :
    ((p.touchKey key).t1.entries ++ (p.touchKey key).t2.entries).Perm
      (p.t1.entries ++ p.t2.entries) ∧ (p.touchKey key).cacheCapacity = p.cacheCapacity := by
  unfold touchKey
  split
  next block hkey =>
    split
    · refine ⟨?_, rfl⟩
      have hnone := (not_mem_of_mem_t1 h (by rw [hkey]; rfl)).1
      rw [set_entries_of_none hnone, ← append_assoc]
      refine perm_append_comm.trans ?_
      exact (perm_cons_erase hkey).symm.append_right _
    · exact ⟨(perm_moveToEnd p.t1 key).append_right _, rfl⟩
  next hkey =>
    split
    · exact ⟨(perm_moveToEnd p.t2 key).append_left _, rfl⟩
    split
    · exact ⟨.refl _, rfl⟩
    split
    · exact ⟨.refl _, rfl⟩
    · exact ⟨.refl _, rfl⟩

theorem touch_items (h : p.Sound) (keys) :
    ((p.touch keys).t1.entries ++ (p.touch keys).t2.entries).Perm (p.t1.entries ++ p.t2.entries) ∧
      (p.touch keys).cacheCapacity = p.cacheCapacity := by
  unfold touch
  induction keys.reverse generalizing p with
  | nil => exact ⟨.refl _, rfl⟩
  | cons key keys ih =>
    obtain ⟨hone, hcap⟩ := touchKey_items h.disjoint key
    obtain ⟨hrest, hcap'⟩ := ih (touchKey_sound h key)
    exact ⟨hrest.trans hone, hcap'.trans hcap⟩

end ARCCachePolicy

namespace CachePolicy

variable {p p' : CachePolicy} {name : PolicyName} {c : ℕ} {key : OffloadKey} {block : BlockStatus}

def SoundFor (name : PolicyName) (c : ℕ) : CachePolicy → Prop
  | .lru _ => name = .lru
  | .arc p => name = .arc ∧ p.Sound ∧ p.cacheCapacity = c

theorem SoundFor.nodup (h : p.SoundFor name c) : (p.items.map Prod.fst).Nodup := by
  cases p with
  | lru p => exact p.blocks.nodup
  | arc p =>
    have hd := h.2.1.disjoint
    rw [allKeys, ← append_assoc, ← map_append] at hd
    exact hd.of_append_left

theorem get_eq_none_iff : p.get key = none ↔ key ∉ p.items.map Prod.fst := by
  cases p with
  | lru p => simp [get, LRUCachePolicy.get, items, mem_keys_iff]
  | arc p => simp [get, get_eq_none_iff, items, mem_keys_iff]

theorem mem_items_of_get (h : p.get key = some block) : (key, block) ∈ p.items := by
  cases p with
  | lru p => exact p.blocks.get?_eq_some.mp h
  | arc p =>
    change (p.t1.get? key).orElse (fun _ ↦ p.t2.get? key) = some block at h
    cases h1 : p.t1.get? key with
    | none =>
      rw [h1] at h
      exact mem_append_right _ (p.t2.get?_eq_some.mp h)
    | some b =>
      rw [h1] at h
      exact mem_append_left _ (p.t1.get?_eq_some.mp (h1.trans h))

section

variable (h : p.SoundFor name c)

include h

theorem SoundFor.get_eq_some_iff : p.get key = some block ↔ (key, block) ∈ p.items := by
  refine ⟨mem_items_of_get, fun hmem ↦ ?_⟩
  cases hget : p.get key with
  | none => exact absurd (mem_map_of_mem hmem) (get_eq_none_iff.mp hget)
  | some b =>
    have heq := inj_on_of_nodup_map h.nodup (mem_items_of_get hget) hmem rfl
    rw [(Prod.mk.inj heq).2]

theorem SoundFor.insert (hkey : p.get key = none) (block) :
    (p.insert key block).SoundFor name c ∧ (p.insert key block).items.Perm
    ((key, block) :: p.items) := by
  cases p with
  | lru p =>
    refine ⟨h, ?_⟩
    change List.Perm (p.blocks.set key block).entries _
    rw [set_entries_of_none hkey]
    exact perm_append_comm
  | arc p =>
    refine ⟨⟨h.1, insert_sound h.2.1 hkey block, h.2.2⟩, ?_⟩
    have h1 := (ARCCachePolicy.get_eq_none_iff.mp hkey).1
    change List.Perm ((p.t1.set key block).entries ++ p.t2.entries) _
    rw [set_entries_of_none h1, append_assoc]
    exact perm_middle

theorem SoundFor.remove (hkey : p.get key = some block) :
    (p.remove key).SoundFor name c ∧ p.items.Perm ((key, block) :: (p.remove key).items) := by
  cases p with
  | lru p => exact ⟨h, perm_cons_erase hkey⟩
  | arc p =>
    have hcap : (p.remove key).cacheCapacity = p.cacheCapacity := by
      unfold ARCCachePolicy.remove
      split <;> rfl
    refine ⟨⟨h.1, remove_sound h.2.1 key, hcap.trans h.2.2⟩, ?_⟩
    change (p.t1.get? key).orElse (fun _ ↦ p.t2.get? key) = some block at hkey
    change List.Perm (p.t1.entries ++ p.t2.entries)
      ((key, block) :: ((p.remove key).t1.entries ++ (p.remove key).t2.entries))
    unfold ARCCachePolicy.remove
    cases h1 : p.t1.get? key with
    | none =>
      rw [h1] at hkey
      exact ((perm_cons_erase hkey).append_left _).trans perm_middle
    | some b =>
      rw [h1] at hkey
      obtain rfl : b = block := some.inj hkey
      exact (perm_cons_erase h1).append_right _

theorem SoundFor.update (hkey : p.get key = some block) (block') :
    (p.update key block').SoundFor name c ∧ ∃ rest, p.items.Perm ((key, block) :: rest) ∧
      (p.update key block').items.Perm ((key, block') :: rest) := by
  have hkeys : ∀ d : Dict OffloadKey BlockStatus, (d.get? key).isSome →
      (d.set key block').entries.map Prod.fst = d.entries.map Prod.fst := fun d hd ↦
    keys_put_of_mem block' ((d.mem_keys_iff key).mpr hd)
  cases p with
  | lru p => exact ⟨h, _, perm_cons_erase hkey, perm_set p.blocks key block'⟩
  | arc p =>
    change (p.t1.get? key).orElse (fun _ ↦ p.t2.get? key) = some block at hkey
    have hs := h.2.1
    cases h1 : p.t1.get? key with
    | none =>
      rw [h1] at hkey
      have h2 : p.t2.get? key = some block := hkey
      have hupdate : (CachePolicy.arc p).update key block' =
          .arc { p with t2 := p.t2.set key block' } := by simp [update, h1]
      rw [hupdate]
      refine ⟨⟨h.1, ⟨?_, hs.b1_le, hs.b2_le, hs.target_nonneg, hs.target_le⟩, h.2.2⟩, _,
        ((perm_cons_erase h2).append_left _).trans perm_middle,
        ((perm_set p.t2 key block').append_left _).trans perm_middle⟩
      change (_ ++ ((p.t2.set key block').entries.map Prod.fst ++ _)).Nodup
      rw [hkeys p.t2 (by rw [h2]; rfl)]
      exact hs.disjoint
    | some b =>
      rw [h1] at hkey
      obtain rfl : b = block := some.inj hkey
      have hupdate : (CachePolicy.arc p).update key block' =
          .arc { p with t1 := p.t1.set key block' } := by simp [update, h1]
      rw [hupdate]
      refine ⟨⟨h.1, ⟨?_, hs.b1_le, hs.b2_le, hs.target_nonneg, hs.target_le⟩, h.2.2⟩, _,
        (perm_cons_erase h1).append_right _, (perm_set p.t1 key block').append_right _⟩
      change ((p.t1.set key block').entries.map Prod.fst ++ _).Nodup
      rw [hkeys p.t1 (by rw [h1]; rfl)]
      exact hs.disjoint

theorem SoundFor.touch (keys) :
    (p.touch keys).SoundFor name c ∧ (p.touch keys).items.Perm p.items := by
  cases p with
  | lru p =>
    refine ⟨h, ?_⟩
    change List.Perm (keys.reverse.foldl moveToEnd p.blocks).entries p.blocks.entries
    generalize p.blocks = d
    induction keys.reverse generalizing d with
    | nil => exact .refl _
    | cons key keys ih => exact (ih _).trans (perm_moveToEnd d key)
  | arc p =>
    obtain ⟨hitems, hcap⟩ := touch_items h.2.1 keys
    exact ⟨⟨h.1, touch_sound h.2.1 keys, hcap.trans h.2.2⟩, hitems⟩

theorem SoundFor.evict {n protectedKeys evicted} (hev : p.evict n protectedKeys = some (evicted, p')) :
    p'.SoundFor name c ∧ p.items.Perm (evicted ++ p'.items) := by
  have hsound := evict_sound hev
  cases p with
  | lru p =>
    obtain ⟨⟨evicted', p1⟩, hout, heq⟩ := map_eq_some_iff.mp hev
    obtain ⟨rfl, rfl⟩ := Prod.mk.inj heq
    obtain ⟨-, -, rfl⟩ := LRUCachePolicy.evict_eq_some hout
    exact ⟨h, perm_foldl_erase hsound.2.1 fun e he ↦ (hsound.2.2 e he).1⟩
  | arc p =>
    obtain ⟨⟨evicted', p1⟩, hout, heq⟩ := map_eq_some_iff.mp hev
    obtain ⟨rfl, rfl⟩ := Prod.mk.inj heq
    obtain ⟨hs, hcap, hitems⟩ := ARCCachePolicy.evict_sound h.2.1 hout
    exact ⟨⟨h.1, hs, hcap.trans h.2.2⟩, hitems⟩

end

end CachePolicy

end VllmEngine.Offload

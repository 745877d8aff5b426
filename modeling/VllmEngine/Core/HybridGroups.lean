import VllmEngine.Core.Hybrid

namespace VllmEngine.Core.Hybrid

open List

def ids (gs : List AttentionGroup) : List ℕ := gs.flatMap (·.groupIds)

theorem addGroup_ids (i) (spec) (gs) :
    (ids (addGroup i spec gs)).Perm (ids gs ++ [i]) := by
  induction gs with
  | nil => simp [addGroup, ids]
  | cons g gs ih =>
    unfold addGroup
    split
    · have hswap : ([i] ++ ids gs).Perm (ids gs ++ [i]) := perm_append_comm
      simpa [ids, append_assoc] using hswap.append_left g.groupIds
    · simpa [ids, append_assoc] using ih.append_left g.groupIds

theorem splitGroups_ids (i) (groups) (acc) :
    (ids (splitGroups i groups acc)).Perm (ids acc ++ range' i groups.length) := by
  induction groups generalizing i acc with
  | nil => simp [splitGroups]
  | cons g groups ih =>
    refine (ih (i + 1) _).trans ?_
    rw [length_cons, range'_succ, ← singleton_append, ← append_assoc]
    exact (addGroup_ids i g.kvCacheSpec acc).append_right _

theorem attentionGroups_perm (groups) :
    (attentionGroups groups).Perm (splitGroups 0 groups []) :=
  filter_append_perm _ _

theorem attentionGroups_ids (groups) :
    (ids (attentionGroups groups)).Perm (range groups.length) := by
  have hsplit := splitGroups_ids 0 groups []
  rw [range_eq_range']
  exact ((attentionGroups_perm groups).flatMap_right _).trans (by simpa [ids] using hsplit)

structure Lists (all : List KVCacheGroupSpec) (g : AttentionGroup) : Prop where
  nonempty : g.groupIds ≠ []
  spec : ∀ gid ∈ g.groupIds, ∃ s, all[gid]? = some s ∧ s.kvCacheSpec = g.spec

variable {all : List KVCacheGroupSpec}

theorem addGroup_lists {i s} (hi : all[i]? = some s) {gs} (h : ∀ g ∈ gs, Lists all g) :
    ∀ g ∈ addGroup i s.kvCacheSpec gs, Lists all g := by
  induction gs with
  | nil =>
    intro g hg
    obtain rfl : g = ⟨s.kvCacheSpec, [i]⟩ := by simpa [addGroup] using hg
    exact ⟨by simp, by simp [hi]⟩
  | cons a gs ih =>
    have ha := h a (by simp)
    have hgs := fun g hg ↦ h g (mem_cons_of_mem a hg)
    intro g hg
    unfold addGroup at hg
    split at hg
    next hspec =>
      rcases mem_cons.mp hg with rfl | hg
      · refine ⟨by simp, fun gid hgid ↦ ?_⟩
        rcases mem_append.mp hgid with hgid | hgid
        · exact ha.spec gid hgid
        · obtain rfl : gid = i := by simpa using hgid
          exact ⟨s, hi, hspec.symm⟩
      · exact hgs g hg
    · rcases mem_cons.mp hg with rfl | hg
      · exact ha
      · exact ih hgs g hg

theorem splitGroups_lists {i groups}
    (hall : all.drop i = groups) {acc} (h : ∀ g ∈ acc, Lists all g) :
    ∀ g ∈ splitGroups i groups acc, Lists all g := by
  induction groups generalizing i acc with
  | nil => exact h
  | cons s groups ih =>
    have hi : all[i]? = some s := by
      rw [← head?_drop, hall]
      rfl
    have hrest : all.drop (i + 1) = groups := by
      rw [← tail_drop, hall]
      rfl
    exact ih hrest (addGroup_lists hi h)

theorem attentionGroups_lists (groups) :
    ∀ g ∈ attentionGroups groups, Lists groups g := fun g hg ↦
  splitGroups_lists rfl (by simp) g ((attentionGroups_perm groups).mem_iff.mp hg)

theorem not_mem_of_nodup (l1) {l2 g g' gid} (h : (ids (l1 ++ g :: l2)).Nodup)
    (hg' : g' ∈ l1 ∨ g' ∈ l2) (hgid : gid ∈ g'.groupIds) :
    gid ∉ g.groupIds := by
  rw [ids, flatMap_append, flatMap_cons, nodup_append] at h
  obtain ⟨-, h2, h1⟩ := h
  intro hm
  rcases hg' with hg' | hg'
  · exact h1 gid (mem_flatMap.mpr ⟨g', hg', hgid⟩) gid (by simp [hm]) rfl
  · exact (nodup_append.mp h2).2.2 gid hm gid (mem_flatMap.mpr ⟨g', hg', hgid⟩) rfl

theorem dvd_foldl_lcm (gs : List AttentionGroup) (n) :
    n ∣ gs.foldl (fun n g ↦ Nat.lcm n g.spec.blockSize) n ∧
      ∀ g ∈ gs, g.spec.blockSize ∣ gs.foldl (fun n g ↦ Nat.lcm n g.spec.blockSize) n := by
  induction gs generalizing n with
  | nil => simp
  | cons a gs ih =>
    obtain ⟨hn, hgs⟩ := ih (Nat.lcm n a.spec.blockSize)
    refine ⟨(Nat.dvd_lcm_left _ _).trans hn, fun g hg ↦ ?_⟩
    rcases mem_cons.mp hg with rfl | hg
    · exact (Nat.dvd_lcm_right _ _).trans hn
    · exact hgs g hg

theorem foldl_lcm_pos (gs : List AttentionGroup) (n) (hn : 0 < n)
    (h : ∀ g ∈ gs, 0 < g.spec.blockSize) :
    0 < gs.foldl (fun n g ↦ Nat.lcm n g.spec.blockSize) n := by
  induction gs generalizing n with
  | nil => exact hn
  | cons a gs ih =>
    exact ih _ (Nat.lcm_pos hn (h a (by simp))) fun g hg ↦ h g (by simp [hg])

end VllmEngine.Core.Hybrid

namespace VllmEngine.Core.HybridKVCacheCoordinator

open Hybrid List

variable (c : HybridKVCacheCoordinator)

theorem ids_nodup : (ids c.attentionGroups).Nodup :=
  (attentionGroups_ids c.kvCacheGroups).nodup_iff.mpr nodup_range

theorem mem_ids {gid} : gid ∈ ids c.attentionGroups ↔ gid < c.kvCacheGroups.length :=
  (attentionGroups_ids c.kvCacheGroups).mem_iff.trans mem_range

variable {c} {g : AttentionGroup}

section

variable (hg : g ∈ c.attentionGroups)

include hg

theorem lists : Lists c.kvCacheGroups g :=
  attentionGroups_lists c.kvCacheGroups g hg

theorem group_blockSize : ∃ s ∈ c.kvCacheGroups, s.kvCacheSpec = g.spec := by
  obtain ⟨gid, hgid⟩ := exists_mem_of_ne_nil _ (lists hg).nonempty
  obtain ⟨s, hs, hspec⟩ := (lists hg).spec gid hgid
  exact ⟨s, mem_of_getElem? hs, hspec⟩

theorem blockSize_pos' : 0 < g.spec.blockSize := by
  obtain ⟨s, hs, hspec⟩ := group_blockSize hg
  exact hspec ▸ c.blockSize_pos s hs

theorem hashBlockSize_dvd : c.hashBlockSize ∣ g.spec.blockSize := by
  obtain ⟨s, hs, hspec⟩ := group_blockSize hg
  exact hspec ▸ Nat.dvd_of_mod_eq_zero (c.divisible s hs)

theorem blockSize_dvd_lcm : g.spec.blockSize ∣ c.lcmBlockSize :=
  (dvd_foldl_lcm _ 1).2 g ((attentionGroups_perm c.kvCacheGroups).mem_iff.mp hg)

end

theorem lcmBlockSize_pos : 0 < c.lcmBlockSize :=
  foldl_lcm_pos _ 1 Nat.one_pos fun _ hg ↦
    blockSize_pos' ((attentionGroups_perm c.kvCacheGroups).mem_iff.mpr hg)

end VllmEngine.Core.HybridKVCacheCoordinator

import VllmEngine.Core.CacheContent
import VllmEngine.Core.HybridCoherent

namespace VllmEngine.Core.HybridKVCacheCoordinator

open CacheHit CacheHit.Query Hybrid List

variable {c : HybridKVCacheCoordinator} {p : BlockPool} {blockHashes : List BlockHash}
  {maxLen i : ℕ} {g : AttentionGroup} {s s' s'' : Scan}

def Fresh (g : AttentionGroup) (s : Scan) : Prop :=
  ∀ gid ∈ g.groupIds, s.hitBlocksByGroup gid = none

def Done (g : AttentionGroup) (s : Scan) : Prop :=
  ∀ gid ∈ g.groupIds, (s.hitBlocksByGroup gid).isSome

structure Scanned (seg : List AttentionGroup) (s s' : Scan) : Prop where
  frame : ∀ gid ∉ ids seg, s'.hitBlocksByGroup gid = s.hitBlocksByGroup gid
  done : ∀ g ∈ seg, Done g s'

theorem Scanned.single (hframe : ∀ gid ∉ g.groupIds, s'.hitBlocksByGroup gid = s.hitBlocksByGroup gid)
    (hdone : Done g s') : Scanned [g] s s' :=
  ⟨fun gid hgid ↦ hframe gid (by simpa [ids] using hgid), by simpa using hdone⟩

theorem Scanned.append {l1 l2} (h1 : Scanned l1 s s') (h2 : Scanned l2 s' s'') :
    Scanned (l1 ++ l2) s s'' := by
  refine ⟨fun gid hgid ↦ ?_, fun g hg ↦ ?_⟩
  · simp only [ids, flatMap_append, mem_append, not_or] at hgid
    rw [h2.frame gid hgid.2, h1.frame gid hgid.1]
  rcases mem_append.mp hg with hg | hg
  · intro gid hgid
    by_cases hin : gid ∈ ids l2
    · obtain ⟨g', hg', hgid'⟩ := mem_flatMap.mp hin
      exact h2.done g' hg' gid hgid'
    · rw [h2.frame gid hin]
      exact h1.done g hg gid hgid
  · exact h2.done g hg

theorem scanGroup_lookup (hg : g.spec.isFullAttention = false ∨ Fresh g s) {rows}
    (hrows : (c.query p blockHashes maxLen g (c.isEagle g && !decide (i ∈ s.eagleVerified))
      s.currHitLength).findLongestCacheHit g.spec.kind = .ok rows) :
    ∃ s', c.scanGroup p blockHashes maxLen i g s = .ok s' ∧ Scanned [g] s s' ∧
      s'.currHitLength = rows.length * g.spec.blockSize ∧
      Covers s'.hitBlocksByGroup g (· = rows.length * g.spec.blockSize) ∧
      s'.eagleVerified = if c.isEagle g = true ∧ i ∉ s.eagleVerified then i :: s.eagleVerified
        else if rows.length * g.spec.blockSize < s.currHitLength then [] else s.eagleVerified := by
  have hnot : ¬ (g.spec.isFullAttention = true ∧
      (g.groupIds.head?.bind s.hitBlocksByGroup).isSome = true) := by
    rintro ⟨hfull, hcached⟩
    rcases hg with hg | hg
    · rw [hg] at hfull
      cases hfull
    obtain ⟨blocks, hb⟩ := Option.isSome_iff_exists.mp hcached
    obtain ⟨gid, hgid, hbg⟩ := Option.bind_eq_some_iff.mp hb
    rw [hg gid (mem_of_mem_head? hgid)] at hbg
    cases hbg
  have hcov := covers_recordHits p.nullBlock rows g s.hitBlocksByGroup
  let s' : Scan := {
    currHitLength := rows.length * g.spec.blockSize
    eagleVerified :=
      if (c.isEagle g && !decide (i ∈ s.eagleVerified)) = true then i :: s.eagleVerified
      else if rows.length * g.spec.blockSize < s.currHitLength then [] else s.eagleVerified
    hitBlocksByGroup := recordHits p.nullBlock rows 0 g.groupIds s.hitBlocksByGroup }
  have hrun : c.scanGroup p blockHashes maxLen i g s = .ok s' := by
    unfold scanGroup
    dsimp only
    rw [if_neg hnot, hrows]
  refine ⟨s', hrun, .single (fun gid hgid ↦ ?_) (fun gid hgid ↦ ?_), rfl, hcov, by simp [s']⟩
  · exact recordHits_of_not_mem hgid
  · obtain ⟨blocks, hb, -⟩ := hcov gid hgid
    simp [s', hb]

theorem scanGroup_trim (hg : g ∈ c.attentionGroups) (hfull : g.spec.isFullAttention = true)
    (hdone : Done g s) (hdvd : g.spec.blockSize ∣ s.currHitLength) :
    c.scanGroup p blockHashes maxLen i g s = .ok s := by
  have hcached : (g.groupIds.head?.bind s.hitBlocksByGroup).isSome = true := by
    obtain ⟨gid, rest, hids⟩ := exists_cons_of_ne_nil (lists hg).nonempty
    simpa [hids] using hdone gid (by simp [hids])
  simp only [scanGroup, hfull, hcached, and_self, if_true, Nat.div_mul_cancel hdvd]

structure Marks (i n : ℕ) (s s' : Scan) : Prop where
  keeps : s.eagleVerified ⊆ s'.eagleVerified
  adds : ∀ j ∈ s'.eagleVerified, j ∈ s.eagleVerified ∨ i ≤ j ∧ j < i + n

theorem Marks.of_step (h : s'.eagleVerified = s.eagleVerified ∨
    s'.eagleVerified = i :: s.eagleVerified) : Marks i 1 s s' := by
  rcases h with h | h
  · exact ⟨h ▸ List.Subset.refl _, fun j hj ↦ .inl (h ▸ hj)⟩
  refine ⟨h ▸ subset_cons_self _ _, fun j hj ↦ ?_⟩
  rw [h] at hj
  rcases mem_cons.mp hj with rfl | hj
  · exact .inr ⟨le_rfl, by omega⟩
  · exact .inl hj

theorem Marks.append {k n} (h1 : Marks i k s s') (h2 : Marks (i + k) n s' s'') :
    Marks i (k + n) s s'' := by
  refine ⟨fun j hj ↦ h2.keeps (h1.keeps hj), fun j hj ↦ ?_⟩
  rcases h2.adds j hj with hj | hj
  · exact (h1.adds j hj).imp_right fun h ↦ ⟨h.1, by omega⟩
  · exact .inr ⟨by omega, by omega⟩

theorem scanGroups_append {l1} (l2) (h : c.scanGroups p blockHashes maxLen i l1 s = .ok s') :
    c.scanGroups p blockHashes maxLen i (l1 ++ l2) s =
      c.scanGroups p blockHashes maxLen (i + l1.length) l2 s' := by
  induction l1 generalizing i s with
  | nil =>
    obtain rfl : s = s' := by simpa [scanGroups] using h
    rfl
  | cons g l1 ih =>
    rw [cons_append, scanGroups]
    unfold scanGroups at h
    split at h
    · cases h
    next t ht =>
      rw [ih h, length_cons]
      congr 1
      omega

theorem scanGroups_steady {x} {R : AttentionGroup → Scan → Prop}
    (hR : ∀ g s s', R g s → (∀ gid ∈ g.groupIds, s'.hitBlocksByGroup gid = s.hitBlocksByGroup gid) →
      R g s') {seg} (hnodup : (ids seg).Nodup)
    (hstep : ∀ g ∈ seg, ∀ i s, s.currHitLength = x → R g s →
      ∃ s', c.scanGroup p blockHashes maxLen i g s = .ok s' ∧ Scanned [g] s s' ∧
        s'.currHitLength = x ∧ Marks i 1 s s') (hcurr : s.currHitLength = x)
    (hseg : ∀ g ∈ seg, R g s) (i) :
    ∃ s', c.scanGroups p blockHashes maxLen i seg s = .ok s' ∧ Scanned seg s s' ∧
      s'.currHitLength = x ∧ Marks i seg.length s s' := by
  induction seg generalizing i s with
  | nil =>
    exact ⟨s, rfl, ⟨fun _ _ ↦ rfl, by simp⟩, hcurr, ⟨List.Subset.refl _, fun j hj ↦ .inl hj⟩⟩
  | cons g seg ih =>
    obtain ⟨t, hrun, hscan, hcurr', hmarks⟩ := hstep g (by simp) i s hcurr (hseg g (by simp))
    have hnodup' : (ids seg).Nodup := (nodup_append.mp hnodup).2.1
    have hseg' : ∀ g' ∈ seg, R g' t := by
      intro g' hg'
      apply hR g' s t (hseg g' (by simp [hg']))
      intro gid hgid
      apply hscan.frame
      simpa [ids] using not_mem_of_nodup [] hnodup (.inr hg') hgid
    obtain ⟨u, hrun', hscan', hcurr'', hmarks'⟩ :=
      ih hnodup' (fun g' hg' ↦ hstep g' (by simp [hg'])) hcurr' hseg' (i + 1)
    refine ⟨u, by simp only [scanGroups, hrun, hrun'], hscan.append hscan', hcurr'', ?_⟩
    rw [length_cons, Nat.add_comm]
    exact hmarks.append hmarks'

theorem not_coherent {h x} (hg : g ∈ c.attentionGroups) (hcov : Covers s.hitBlocksByGroup g (· = x))
    (hne : x < h ∨ x ≠ h ∧ (g.spec.isFullAttention = false ∨ c.attentionGroups.head? ≠ some g)) :
    ¬ Coherent c maxLen ((range c.kvCacheGroups.length).map (c.finalBlocks h s), h) := by
  intro hcoh
  obtain ⟨gid, hgid⟩ := exists_mem_of_ne_nil _ (lists hg).nonempty
  obtain ⟨spec, hspec, hsame⟩ := (lists hg).spec gid hgid
  obtain ⟨out, hout, hlen⟩ := hcoh.blocks gid spec hspec
  obtain ⟨blocks, hb, hx⟩ := hcov gid hgid
  obtain rfl : c.finalBlocks h s gid = out := by
    simpa [(List.getElem?_eq_some_iff.mp hspec).1] using hout
  have hle : (c.finalBlocks h s gid).length ≤ blocks.length := by
    unfold finalBlocks
    rw [hb, Option.getD_some]
    split
    · exact le_rfl
    · split
      · exact length_take_le' _ _
      · exact le_rfl
  rw [hsame] at hlen
  rcases hne with hlt | ⟨hne, hkeep⟩
  · exact absurd (Nat.mul_le_mul_right g.spec.blockSize hle) (by omega)
  refine hne (hx.symm.trans (Eq.trans ?_ hlen))
  congr 2
  unfold finalBlocks
  rw [hb, Option.getD_some]
  split
  · rfl
  next g0 rest hgs =>
    rw [if_neg]
    rintro ⟨hfull, hin⟩
    obtain rfl := eq_of_mem_ids (by simp [hgs]) hg hin hgid
    simp [hfull, hgs] at hkeep

theorem not_answers {out}
    (hrun : c.findLongestCacheHit p blockHashes maxLen = .ok out) (h : ¬ Coherent c maxLen out) :
    ¬ Answers c p blockHashes maxLen := by
  rintro (⟨out', hout, hcoh⟩ | ⟨herr, -⟩)
  · obtain rfl : out = out' := by simpa [hrun] using hout
    exact h hcoh
  · simp [hrun] at herr

theorem not_answers_of_search {h x} (hrun : c.searchLoop p blockHashes maxLen (maxLen + 1) maxLen
      ⟨maxLen, [], fun _ ↦ none⟩ = .ok (h, s)) (hg : g ∈ c.attentionGroups)
    (hcov : Covers s.hitBlocksByGroup g (· = x))
    (hne : x < h ∨ x ≠ h ∧ (g.spec.isFullAttention = false ∨ c.attentionGroups.head? ≠ some g)) :
    ¬ Answers c p blockHashes maxLen := by
  refine not_answers ?_ (not_coherent hg hcov hne)
  rw [findLongestCacheHit, hrun]

theorem searchLoop_stop {fuel h} (hrun : c.scanGroups p blockHashes maxLen 0 c.attentionGroups
      { s with currHitLength := h } = .ok s') (hge : h ≤ s'.currHitLength) :
    c.searchLoop p blockHashes maxLen (fuel + 1) h s = .ok (h, s') := by
  rw [searchLoop, hrun]
  exact if_pos hge

theorem searchLoop_next {fuel h} (hrun : c.scanGroups p blockHashes maxLen 0 c.attentionGroups
      { s with currHitLength := h } = .ok s') (hlt : s'.currHitLength < h)
    (hsimple : c.isSimpleHybrid = false) :
    c.searchLoop p blockHashes maxLen (fuel + 1) h s =
      c.searchLoop p blockHashes maxLen fuel s'.currHitLength s' := by
  rw [searchLoop, hrun]
  dsimp only
  rw [if_neg (by omega), hsimple]
  rfl

theorem Fresh.congr (h : Fresh g s)
    (heq : ∀ gid ∈ g.groupIds, s'.hitBlocksByGroup gid = s.hitBlocksByGroup gid) : Fresh g s' :=
  fun gid hgid ↦ (heq gid hgid).trans (h gid hgid)

theorem Done.congr (h : Done g s)
    (heq : ∀ gid ∈ g.groupIds, s'.hitBlocksByGroup gid = s.hitBlocksByGroup gid) : Done g s' :=
  fun gid hgid ↦ heq gid hgid ▸ h gid hgid

end VllmEngine.Core.HybridKVCacheCoordinator

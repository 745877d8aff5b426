import VllmEngine.Core.HybridFailures
import VllmEngine.Core.HybridIslands

namespace VllmEngine.Core.HybridKVCacheCoordinator

open CacheHit CacheHit.Query Hybrid List

variable {c : HybridKVCacheCoordinator} {i : ℕ} {g m : AttentionGroup} {s s' : Scan}

abbrev islandScan (c : HybridKVCacheCoordinator) (m : AttentionGroup) (i : ℕ)
    (g : AttentionGroup) (s : Scan) : Except HitError Scan :=
  c.scanGroup (c.content c.islandHashes (c.islands m)) (unaryHashes c.islandHashes) c.islandMax i g s

abbrev islandScans (c : HybridKVCacheCoordinator) (m : AttentionGroup) (i : ℕ)
    (gs : List AttentionGroup) (s : Scan) : Except HitError Scan :=
  c.scanGroups (c.content c.islandHashes (c.islands m)) (unaryHashes c.islandHashes) c.islandMax i gs s

section

variable (hg : g ∈ c.attentionGroups) (hgm : g ≠ m) (hk : g.spec.kind.Searchable)

include hg hgm hk

theorem islandScan_top (hcurr : s.currHitLength = c.farAway * c.lcmBlockSize)
    (hstate : g.spec.isFullAttention = false ∨ Fresh g s ∨ Done g s) :
    ∃ s', c.islandScan m i g s = .ok s' ∧ Scanned [g] s s' ∧
      s'.currHitLength = c.farAway * c.lcmBlockSize ∧
      Marks i 1 s s' := by
  by_cases htrim : g.spec.isFullAttention = true ∧ Done g s
  · have hdvd : g.spec.blockSize ∣ s.currHitLength := hcurr ▸ (blockSize_dvd_lcm hg).mul_left _
    exact ⟨s, scanGroup_trim hg htrim.1 htrim.2 hdvd, .single (fun _ _ ↦ rfl) htrim.2, hcurr,
      .of_step (.inl rfl)⟩
  have hlook : g.spec.isFullAttention = false ∨ Fresh g s := by
    cases hfull : g.spec.isFullAttention with
    | false => exact .inl rfl
    | true => simpa [hfull, not_and.mp htrim hfull] using hstate
  obtain ⟨rows, hrows, hlen⟩ := islandQuery_top hg hgm hk
    (c.isEagle g && !decide (i ∈ s.eagleVerified)) (by simp; tauto) (.inl hcurr)
  obtain ⟨s', hrun, hscan, hcurr', -, hver⟩ := scanGroup_lookup hlook hrows
  refine ⟨s', hrun, hscan, hcurr'.trans hlen, .of_step ?_⟩
  rw [hlen, hcurr] at hver
  split at hver
  · exact .inr hver
  · exact .inl (by simpa using hver)

theorem islandScan_first (hcurr : s.currHitLength = c.islandMax) (hidx : i ∉ s.eagleVerified)
    (hstate : g.spec.isFullAttention = false ∨ Fresh g s) :
    ∃ s', c.islandScan m i g s = .ok s' ∧ Scanned [g] s s' ∧
      s'.currHitLength = c.farAway * c.lcmBlockSize ∧
      Covers s'.hitBlocksByGroup g (· = c.farAway * c.lcmBlockSize) ∧
      s'.eagleVerified = if c.isEagle g = true then i :: s.eagleVerified else [] := by
  have hL := lcmBlockSize_pos (c := c)
  obtain ⟨rows, hrows, hlen⟩ := islandQuery_top hg hgm hk
    (c.isEagle g && !decide (i ∈ s.eagleVerified)) (by simp; tauto)
    (.inr ⟨hcurr, by simp [hidx]⟩)
  obtain ⟨s', hrun, hscan, hcurr', hcov, hver⟩ := scanGroup_lookup hstate hrows
  rw [hlen] at hver hcov hcurr'
  refine ⟨s', hrun, hscan, hcurr', hcov, hver.trans ?_⟩
  rw [hcurr, islandMax_eq, if_pos (by omega : c.farAway * c.lcmBlockSize < _)]
  simp [hidx]

theorem islandScan_low (hcurr : s.currHitLength = 0 ∨ s.currHitLength = c.lcmBlockSize)
    (hstate : g.spec.isFullAttention = false ∨ Done g s ∧ s.currHitLength = 0) :
    ∃ s', c.islandScan m i g s = .ok s' ∧ Scanned [g] s s' ∧ s'.currHitLength = 0 ∧
      (s.currHitLength = 0 → Marks i 1 s s') ∧
      ∀ j ∈ s'.eagleVerified, j ∈ s.eagleVerified ∨ j = i := by
  cases hfull : g.spec.isFullAttention with
  | true =>
    obtain ⟨hdone, hzero⟩ := hstate.resolve_left (by simp [hfull])
    exact ⟨s, scanGroup_trim hg hfull hdone (by simp [hzero]), .single (fun _ _ ↦ rfl) hdone, hzero,
      fun _ ↦ .of_step (.inl rfl), fun j hj ↦ .inl hj⟩
  | false =>
    obtain ⟨rows, hrows, hlen⟩ := islandQuery_low hg hgm hk hfull
      (c.isEagle g && !decide (i ∈ s.eagleVerified)) (show s.currHitLength ≤ _ by omega)
    obtain ⟨s', hrun, hscan, hcurr', -, hver⟩ := scanGroup_lookup (.inl hfull) hrows
    rw [hlen, Nat.zero_mul] at hver hcurr'
    refine ⟨s', hrun, hscan, hcurr', fun hzero ↦ .of_step ?_, fun j hj ↦ ?_⟩
    · rw [hzero] at hver
      split at hver
      · exact .inr hver
      · exact .inl (by simpa using hver)
    · rw [hver] at hj
      split at hj
      · simpa [or_comm] using hj
      · split at hj
        · simp at hj
        · exact .inl hj

end

theorem islandScan_self (hm : m ∈ c.attentionGroups) (hmamba : m.spec.kind.isMamba = true)
    (hsize : m.spec.blockSize = c.lcmBlockSize) (heagle : c.isEagle m = true) {t}
    (hcase : (i ∉ s.eagleVerified ∧ t = c.farAway ∧
        (s.currHitLength = c.farAway * c.lcmBlockSize ∨ s.currHitLength = c.islandMax)) ∨
      (i ∈ s.eagleVerified ∧ t = 0 ∧ s.currHitLength = c.farAway * c.lcmBlockSize) ∨
      (i ∉ s.eagleVerified ∧ t = 0 ∧ s.currHitLength = 0)) :
    ∃ s', c.islandScan m i m s = .ok s' ∧ Scanned [m] s s' ∧
      s'.currHitLength = (t + 1) * c.lcmBlockSize ∧
      Covers s'.hitBlocksByGroup m (· = (t + 1) * c.lcmBlockSize) ∧
      s'.eagleVerified = if i ∈ s.eagleVerified then [] else i :: s.eagleVerified := by
  have hfull : m.spec.isFullAttention = false := by
    cases hkind : m.spec.kind <;> simp [hkind, SpecKind.isMamba, KVCacheSpec.isFullAttention] at hmamba ⊢
  obtain ⟨rows, hrows, hlen⟩ := islandQuery_self hm hmamba hsize
    (c.isEagle m && !decide (i ∈ s.eagleVerified)) (by simpa [heagle] using hcase)
  obtain ⟨s', hrun, hscan, hcurr', hcov, hver⟩ := scanGroup_lookup (.inl hfull) hrows
  rw [hlen, hsize] at hver hcov hcurr'
  refine ⟨s', hrun, hscan, hcurr', hcov, hver.trans ?_⟩
  by_cases hidx : i ∈ s.eagleVerified
  · obtain ⟨-, rfl, hcurr⟩ : i ∈ s.eagleVerified ∧ t = 0 ∧
        s.currHitLength = c.farAway * c.lcmBlockSize := by simpa [hidx] using hcase
    have hlt : (0 + 1) * c.lcmBlockSize < c.farAway * c.lcmBlockSize :=
      Nat.mul_lt_mul_of_pos_right (by simp [farAway]; omega) lcmBlockSize_pos
    rw [hcurr, if_neg (by simp [hidx]), if_pos hlt, if_pos hidx]
  · simp [hidx, heagle]

structure Beside (c : HybridKVCacheCoordinator) (m : AttentionGroup) (seg : List AttentionGroup) :
    Prop where
  mem : ∀ g ∈ seg, g ∈ c.attentionGroups
  ne : ∀ g ∈ seg, g ≠ m
  searchable : ∀ g ∈ seg, g.spec.kind.Searchable
  nodup : (ids seg).Nodup

theorem Beside.tail {seg} (h : Beside c m (g :: seg)) : Beside c m seg :=
  ⟨fun g' hg' ↦ h.mem g' (by simp [hg']), fun g' hg' ↦ h.ne g' (by simp [hg']),
    fun g' hg' ↦ h.searchable g' (by simp [hg']), (nodup_append.mp h.nodup).2.1⟩

section

variable {seg : List AttentionGroup}

theorem islandScans_top (hseg : Beside c m seg)
    (hcurr : s.currHitLength = c.farAway * c.lcmBlockSize)
    (hstate : ∀ g ∈ seg, g.spec.isFullAttention = false ∨ Fresh g s ∨ Done g s) (i) :
    ∃ s', c.islandScans m i seg s = .ok s' ∧ Scanned seg s s' ∧
      s'.currHitLength = c.farAway * c.lcmBlockSize ∧ Marks i seg.length s s' := by
  refine scanGroups_steady
    (R := fun g s ↦ g.spec.isFullAttention = false ∨ Fresh g s ∨ Done g s) ?_ hseg.nodup ?_ hcurr
    hstate i
  · intro g s s' h heq
    exact h.imp_right (Or.imp (·.congr heq) (·.congr heq))
  · intro g hg i s hcurr h
    exact islandScan_top (hseg.mem g hg) (hseg.ne g hg) (hseg.searchable g hg) hcurr h

theorem islandScans_zero (hseg : Beside c m seg) (hcurr : s.currHitLength = 0)
    (hstate : ∀ g ∈ seg, g.spec.isFullAttention = false ∨ Done g s) (i) :
    ∃ s', c.islandScans m i seg s = .ok s' ∧ Scanned seg s s' ∧ s'.currHitLength = 0 ∧
      Marks i seg.length s s' := by
  refine scanGroups_steady
    (R := fun g s ↦ g.spec.isFullAttention = false ∨ Done g s) ?_ hseg.nodup ?_ hcurr hstate i
  · intro g s s' h heq
    exact h.imp_right (·.congr heq)
  intro g hg i s hcurr h
  obtain ⟨s', hrun, hscan, hcurr', hmarks, -⟩ := islandScan_low (hseg.mem g hg)
    (hseg.ne g hg) (hseg.searchable g hg) (.inl hcurr) (h.imp_right fun h ↦ ⟨h, hcurr⟩)
  exact ⟨s', hrun, hscan, hcurr', hmarks hcurr⟩

theorem islandScans_first (hseg : Beside c m (g :: seg)) (hcurr : s.currHitLength = c.islandMax)
    (hidx : i ∉ s.eagleVerified) (hfirst : g.spec.isFullAttention = false ∨ Fresh g s)
    (hstate : ∀ g ∈ seg, g.spec.isFullAttention = false ∨ Fresh g s ∨ Done g s) :
    ∃ s', c.islandScans m i (g :: seg) s = .ok s' ∧ Scanned (g :: seg) s s' ∧
      s'.currHitLength = c.farAway * c.lcmBlockSize ∧
      Covers s'.hitBlocksByGroup g (· = c.farAway * c.lcmBlockSize) ∧
      (∀ j ∈ s'.eagleVerified, j ∈ s.eagleVerified ∨ i ≤ j ∧ j < i + (seg.length + 1)) ∧
      (c.isEagle g = true → s.eagleVerified ⊆ s'.eagleVerified) ∧
      (c.isEagle g = false → ∀ j ∈ s'.eagleVerified, i < j) := by
  obtain ⟨t, hrun, hscan, hcurr', hcov, hver⟩ := islandScan_first (hseg.mem g (by simp))
    (hseg.ne g (by simp)) (hseg.searchable g (by simp)) hcurr hidx hfirst
  have hother : ∀ g' ∈ seg, ∀ gid ∈ g'.groupIds, t.hitBlocksByGroup gid = s.hitBlocksByGroup gid := by
    intro g' hg' gid hgid
    apply hscan.frame
    simpa [ids] using not_mem_of_nodup [] hseg.nodup (.inr hg') hgid
  obtain ⟨u, hrun', hscan', hcurr'', hmarks⟩ := islandScans_top hseg.tail hcurr'
    (fun g' hg' ↦ (hstate g' hg').imp_right
      (Or.imp (·.congr (hother g' hg')) (·.congr (hother g' hg')))) (i + 1)
  have hver' : ∀ j ∈ t.eagleVerified, c.isEagle g = true ∧ (j ∈ s.eagleVerified ∨ j = i) := by
    rw [hver]
    split <;> simp [*, or_comm]
  refine ⟨u, ?_, hscan.append hscan', hcurr'', ?_, fun j hj ↦ ?_, fun heagle ↦ ?_,
    fun heagle j hj ↦ ?_⟩
  · simp only [islandScans, scanGroups, hrun, hrun']
  · refine hcov.congr fun gid hgid ↦ hscan'.frame gid fun hin ↦ ?_
    obtain ⟨g', hg', hgid'⟩ := mem_flatMap.mp hin
    exact not_mem_of_nodup [] hseg.nodup (.inr hg') hgid' hgid
  · rcases hmarks.adds j hj with hj | hj
    · exact (hver' j hj).2.imp_right fun h ↦ by omega
    · exact .inr (by omega)
  · rw [if_pos heagle] at hver
    intro j hj
    exact hmarks.keeps (hver ▸ mem_cons_of_mem _ hj)
  rcases hmarks.adds j hj with hj | hj
  · simp [heagle] at hver'
    exact absurd hj (hver' j)
  · omega

theorem islandScans_drop (hseg : Beside c m (g :: seg)) (hcurr : s.currHitLength = c.lcmBlockSize)
    (hfull : ∀ g' ∈ g :: seg, g'.spec.isFullAttention = false) (i) :
    ∃ s', c.islandScans m i (g :: seg) s = .ok s' ∧ Scanned (g :: seg) s s' ∧
      s'.currHitLength = 0 ∧ ∀ j ∈ s'.eagleVerified, j ∈ s.eagleVerified ∨ i ≤ j := by
  obtain ⟨t, hrun, hscan, hcurr', -, hver⟩ := islandScan_low (i := i) (hseg.mem g (by simp))
    (hseg.ne g (by simp)) (hseg.searchable g (by simp)) (.inr hcurr) (.inl (hfull g (by simp)))
  obtain ⟨u, hrun', hscan', hcurr'', hmarks⟩ := islandScans_zero hseg.tail hcurr'
    (fun g' hg' ↦ .inl (hfull g' (by simp [hg']))) (i + 1)
  refine ⟨u, ?_, hscan.append hscan', hcurr'', fun j hj ↦ ?_⟩
  · simp only [islandScans, scanGroups, hrun, hrun']
  · rcases hmarks.adds j hj with hj | hj
    · exact (hver j hj).imp_right Eq.ge
    · exact .inr (by omega)

end

/-- A Mamba group under the EAGLE rule with blocks as long as the alignment, and the groups around
it. -/
structure Flagged (c : HybridKVCacheCoordinator) (pre : List AttentionGroup) (m : AttentionGroup)
    (post : List AttentionGroup) : Prop where
  split : c.attentionGroups = pre ++ m :: post
  before : Beside c m pre
  after : Beside c m post
  after_full : ∀ g ∈ post, g.spec.isFullAttention = false
  mamba : m.spec.kind.isMamba = true
  size : m.spec.blockSize = c.lcmBlockSize
  eagle : c.isEagle m = true

section

variable {pre post rest : List AttentionGroup} {x : AttentionGroup}

section

variable (h : Flagged c pre m post)

include h

theorem Flagged.mem : m ∈ c.attentionGroups := by simp [h.split]

theorem Flagged.not_full : m.spec.isFullAttention = false := by
  have hmamba := h.mamba
  cases hkind : m.spec.kind <;> simp [hkind, SpecKind.isMamba, KVCacheSpec.isFullAttention] at hmamba ⊢

theorem Flagged.not_mem_pre {gid} (hg : g ∈ pre)
    (hgid : gid ∈ g.groupIds) : gid ∉ m.groupIds ∧ gid ∉ ids post := by
  have hnodup := c.ids_nodup
  rw [h.split] at hnodup
  refine ⟨not_mem_of_nodup pre hnodup (.inl hg) hgid, fun hin ↦ ?_⟩
  rw [ids, flatMap_append, flatMap_cons, nodup_append] at hnodup
  exact hnodup.2.2 gid (mem_flatMap.mpr ⟨g, hg, hgid⟩) gid (mem_append_right _ hin) rfl

theorem Flagged.not_mem_post {gid} (hgid : gid ∈ m.groupIds) : gid ∉ ids post := by
  intro hin
  obtain ⟨g, hg, hgid'⟩ := mem_flatMap.mp hin
  have hnodup := c.ids_nodup
  rw [h.split] at hnodup
  exact not_mem_of_nodup pre hnodup (.inr hg) hgid' hgid

theorem Flagged.turn {s t u v}
    (hpre : c.islandScans m 0 pre s = .ok t) (hm : c.islandScan m pre.length m t = .ok u)
    (hpost : c.islandScans m (pre.length + 1) post u = .ok v) :
    c.islandScans m 0 c.attentionGroups s = .ok v := by
  rw [h.split, islandScans, scanGroups_append _ hpre, Nat.zero_add, scanGroups]
  simp only [hm, hpost]

end

theorem Flagged.not_simple (h : Flagged c pre m (x :: rest)) : c.isSimpleHybrid = false := by
  cases pre with
  | nil => simp [isSimpleHybrid, h.split, h.not_full]
  | cons g pre =>
    have hlen : c.attentionGroups.length ≠ 2 := by
      simp [h.split]
      omega
    simp [isSimpleHybrid, hlen]

theorem Flagged.first_before (h : Flagged c pre m post) :
    ∃ t, c.islandScans m 0 pre ⟨c.islandMax, [], fun _ ↦ none⟩ = .ok t ∧
      (t.currHitLength = c.farAway * c.lcmBlockSize ∨ t.currHitLength = c.islandMax) ∧
      (∀ g ∈ pre, Done g t) ∧ (∀ j ∈ t.eagleVerified, j < pre.length) ∧
      (pre ≠ [] → ∃ g ∈ pre, Covers t.hitBlocksByGroup g (· = c.farAway * c.lcmBlockSize)) := by
  cases pre with
  | nil => exact ⟨_, rfl, .inr rfl, by simp, by simp, by simp⟩
  | cons g pre =>
    obtain ⟨t, hrun, hscan, hcurr, hcov, hadds, -, -⟩ := islandScans_first
      (s := ⟨c.islandMax, [], fun _ ↦ none⟩) h.before rfl (by simp) (.inr fun _ _ ↦ rfl)
      (fun _ _ ↦ .inr (.inl fun _ _ ↦ rfl))
    refine ⟨t, hrun, .inl hcurr, hscan.done, fun j hj ↦ ?_, fun _ ↦ ⟨g, by simp, hcov⟩⟩
    simpa using hadds j hj

theorem Flagged.last (h : Flagged c pre m []) : ∃ s, ∃ g ∈ c.attentionGroups,
    c.islandScans m 0 c.attentionGroups ⟨c.islandMax, [], fun _ ↦ none⟩ = .ok s ∧
      s.currHitLength = c.islandMax ∧
      Covers s.hitBlocksByGroup g (· = c.farAway * c.lcmBlockSize) := by
  obtain ⟨t, hpre, hcurr, -, hver, hcov⟩ := h.first_before
  have hne : pre ≠ [] := by
    rintro rfl
    have := c.two_attention_groups
    rw [← attentionGroups, h.split] at this
    simp at this
  obtain ⟨g, hg, hcov⟩ := hcov hne
  obtain ⟨u, hm, hscan, hcurr', -, -⟩ := islandScan_self h.mem h.mamba h.size
    h.eagle (.inl ⟨fun hin ↦ (hver _ hin).ne rfl, rfl, hcurr⟩)
  refine ⟨u, g, h.before.mem g hg, h.turn hpre hm rfl, hcurr', hcov.congr fun gid hgid ↦ ?_⟩
  exact hscan.frame gid (by simpa [ids] using (h.not_mem_pre hg hgid).1)

section

variable (h : Flagged c pre m (x :: rest))

include h

theorem Flagged.first : ∃ s,
    c.islandScans m 0 c.attentionGroups ⟨c.islandMax, [], fun _ ↦ none⟩ = .ok s ∧
      s.currHitLength = c.farAway * c.lcmBlockSize ∧ (∀ g ∈ pre, Done g s) ∧
      (c.isEagle x = true → pre.length ∈ s.eagleVerified) ∧
      (c.isEagle x = false → ∀ j ∈ s.eagleVerified, pre.length + 1 < j) := by
  obtain ⟨t, hpre, hcurr, hdone, hver, -⟩ := h.first_before
  have hidx : pre.length ∉ t.eagleVerified := fun hin ↦ (hver _ hin).ne rfl
  obtain ⟨u, hm, hscan, hcurr', -, hver'⟩ := islandScan_self h.mem h.mamba
    h.size h.eagle (.inl ⟨hidx, rfl, hcurr⟩)
  rw [if_neg hidx] at hver'
  have hidx' : pre.length + 1 ∉ u.eagleVerified := by
    rw [hver']
    intro hin
    rcases mem_cons.mp hin with heq | hin
    · omega
    · exact absurd (hver _ hin) (by omega)
  obtain ⟨v, hpost, hscan', hcurr'', -, -, hyes, hno⟩ := islandScans_first h.after hcurr' hidx'
    (.inl (h.after_full x (by simp))) (fun g hg ↦ .inl (h.after_full g (by simp [hg])))
  refine ⟨v, h.turn hpre hm hpost, hcurr'', fun g hg ↦ ?_, fun heagle ↦ ?_, hno⟩
  · refine (hdone g hg).congr fun gid hgid ↦ ?_
    obtain ⟨hout, hout'⟩ := h.not_mem_pre hg hgid
    rw [hscan'.frame gid hout', hscan.frame gid (by simpa [ids] using hout)]
  · exact hyes heagle (hver' ▸ mem_cons_self)

section

variable (hcurr : s.currHitLength = c.farAway * c.lcmBlockSize) (hdone : ∀ g ∈ pre, Done g s)

include hcurr hdone

theorem Flagged.again (hver : ∀ j ∈ s.eagleVerified, pre.length + 1 < j) : ∃ s',
    c.islandScans m 0 c.attentionGroups s = .ok s' ∧ s'.currHitLength = c.farAway * c.lcmBlockSize ∧
      Covers s'.hitBlocksByGroup m (· = c.islandMax) := by
  obtain ⟨t, hpre, -, hcurr1, hmarks⟩ := islandScans_top h.before hcurr
    (fun g hg ↦ .inr (.inr (hdone g hg))) 0
  have hver1 : ∀ j ∈ t.eagleVerified, j < pre.length ∨ pre.length + 1 < j := by
    intro j hj
    rcases hmarks.adds j hj with hj | hj
    · exact .inr (hver j hj)
    · exact .inl (by omega)
  have hidx : pre.length ∉ t.eagleVerified := fun hin ↦ by
    have := hver1 _ hin
    omega
  obtain ⟨u, hm, hscan, hcurr2, hcov, hver2⟩ := islandScan_self h.mem h.mamba
    h.size h.eagle (.inl ⟨hidx, rfl, .inl hcurr1⟩)
  rw [if_neg hidx] at hver2
  have hidx' : pre.length + 1 ∉ u.eagleVerified := by
    rw [hver2]
    intro hin
    rcases mem_cons.mp hin with heq | hin
    · omega
    · have := hver1 _ hin
      omega
  obtain ⟨v, hpost, hscan', hcurr3, -⟩ := islandScans_first h.after hcurr2 hidx'
    (.inl (h.after_full x (by simp))) (fun g hg ↦ .inl (h.after_full g (by simp [hg])))
  refine ⟨v, h.turn hpre hm hpost, hcurr3, hcov.congr fun gid hgid ↦ ?_⟩
  exact hscan'.frame gid (h.not_mem_post hgid)

theorem Flagged.back (hver : pre.length ∈ s.eagleVerified) : ∃ s',
    c.islandScans m 0 c.attentionGroups s = .ok s' ∧ s'.currHitLength = 0 ∧
      (∀ g ∈ pre, Done g s') ∧ pre.length ∉ s'.eagleVerified := by
  obtain ⟨t, hpre, hscan1, hcurr1, hmarks⟩ := islandScans_top h.before hcurr
    (fun g hg ↦ .inr (.inr (hdone g hg))) 0
  have hidx := hmarks.keeps hver
  obtain ⟨u, hm, hscan2, hcurr2, -, hver2⟩ := islandScan_self h.mem h.mamba
    h.size h.eagle (.inr (.inl ⟨hidx, rfl, hcurr1⟩))
  rw [if_pos hidx] at hver2
  obtain ⟨v, hpost, hscan3, hcurr3, hver3⟩ := islandScans_drop h.after
    (hcurr2.trans (Nat.one_mul _)) h.after_full (pre.length + 1)
  refine ⟨v, h.turn hpre hm hpost, hcurr3, fun g hg ↦ ?_, fun hin ↦ ?_⟩
  · refine (hscan1.done g hg).congr fun gid hgid ↦ ?_
    obtain ⟨hout, hout'⟩ := h.not_mem_pre hg hgid
    rw [hscan3.frame gid hout', hscan2.frame gid (by simpa [ids] using hout)]
  · rcases hver3 _ hin with hin | hin
    · simp [hver2] at hin
    · omega

end

theorem Flagged.bottom (hcurr : s.currHitLength = 0)
    (hdone : ∀ g ∈ pre, Done g s) (hver : pre.length ∉ s.eagleVerified) : ∃ s',
    c.islandScans m 0 c.attentionGroups s = .ok s' ∧ s'.currHitLength = 0 ∧
      Covers s'.hitBlocksByGroup m (· = c.lcmBlockSize) := by
  obtain ⟨t, hpre, -, hcurr1, hmarks⟩ := islandScans_zero h.before hcurr
    (fun g hg ↦ .inr (hdone g hg)) 0
  have hidx : pre.length ∉ t.eagleVerified := fun hin ↦ by
    rcases hmarks.adds _ hin with hin | hin
    · exact hver hin
    · omega
  obtain ⟨u, hm, -, hcurr2, hcov, -⟩ := islandScan_self h.mem h.mamba
    h.size h.eagle (.inr (.inr ⟨hidx, rfl, hcurr1⟩))
  rw [Nat.one_mul] at hcov
  obtain ⟨v, hpost, hscan, hcurr3, -⟩ := islandScans_drop h.after
    (hcurr2.trans (Nat.one_mul _)) h.after_full (pre.length + 1)
  refine ⟨v, h.turn hpre hm hpost, hcurr3, hcov.congr fun gid hgid ↦ ?_⟩
  exact hscan.frame gid (h.not_mem_post hgid)

end

theorem Flagged.not_answers (h : Flagged c pre m post) :
    ¬ Answers c (c.content c.islandHashes (c.islands m)) (unaryHashes c.islandHashes)
      c.islandMax := by
  have hL := lcmBlockSize_pos (c := c)
  have hmax := islandMax_eq (c := c)
  have hfar : 0 < c.farAway * c.lcmBlockSize := Nat.mul_pos (by simp [farAway]) hL
  obtain ⟨fuel, hfuel⟩ : ∃ fuel, c.islandMax + 1 = fuel + 1 + 1 + 1 := ⟨c.islandMax - 2, by omega⟩
  cases post with
  | nil =>
    obtain ⟨s, g, hg, hrun, hcurr, hcov⟩ := h.last
    exact not_answers_of_search (searchLoop_stop hrun hcurr.ge) hg hcov (.inl (by omega))
  | cons x rest =>
    obtain ⟨s, hrun, hcurr, hdone, hyes, hno⟩ := h.first
    cases heagle : c.isEagle x with
    | false =>
      obtain ⟨t, hrun', hcurr', hcov⟩ := h.again hcurr hdone (hno heagle)
      refine not_answers_of_search (h := c.farAway * c.lcmBlockSize) (s := t) ?_ h.mem hcov
        (.inr ⟨by omega, .inl h.not_full⟩)
      rw [hfuel, searchLoop_next hrun (by omega) h.not_simple, hcurr,
        searchLoop_stop (hcurr ▸ hrun') hcurr'.ge]
    | true =>
      obtain ⟨t, hrun', hcurr', hdone', hver⟩ := h.back hcurr hdone (hyes heagle)
      obtain ⟨u, hrun'', hcurr'', hcov⟩ := h.bottom hcurr' hdone' hver
      refine not_answers_of_search (h := 0) (s := u) ?_ h.mem hcov
        (.inr ⟨by omega, .inl h.not_full⟩)
      rw [hfuel, searchLoop_next hrun (by omega) h.not_simple,
        searchLoop_next hrun' (by omega) h.not_simple, hcurr',
        searchLoop_stop (hcurr' ▸ hrun'') hcurr''.ge]

end

end VllmEngine.Core.HybridKVCacheCoordinator

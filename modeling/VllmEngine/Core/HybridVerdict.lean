import VllmEngine.Core.HybridEagle
import VllmEngine.Core.PoolRun

namespace VllmEngine.Core.HybridKVCacheCoordinator

open CacheHit CacheHit.Query Hybrid List BlockPool

variable {c : HybridKVCacheCoordinator} {i : ℕ} {g : AttentionGroup} {s s' : Scan}

section

/-- The cache in which the first two attention groups find everything, the others nothing. -/
def firstTwo (c : HybridKVCacheCoordinator) (g : AttentionGroup) (_ : ℕ) :
    Bool := g ∈ c.attentionGroups.take 2

def twoHashes (c : HybridKVCacheCoordinator) : ℕ := 3 * c.lcmBlockSize / c.hashBlockSize

def twoPool (c : HybridKVCacheCoordinator) : BlockPool := c.content c.twoHashes c.firstTwo

theorem twoHashes_mul : c.twoHashes * c.hashBlockSize = 3 * c.lcmBlockSize := by
  obtain ⟨g, hg⟩ := exists_mem_of_ne_nil _ (attentionGroups_ne_nil)
  exact Nat.div_mul_cancel (((hashBlockSize_dvd hg).trans (blockSize_dvd_lcm hg)).mul_left _)

section

variable (hg : g ∈ c.attentionGroups)

include hg

variable {curr : ℕ}

theorem twoQuery_shows (useEagle) (hcurr : curr ≤ 3 * c.lcmBlockSize) :
    (c.query c.twoPool (unaryHashes c.twoHashes) (3 * c.lcmBlockSize) g useEagle curr).Shows
      (c.firstTwo g) :=
  query_shows hg twoHashes_mul.ge useEagle hcurr

theorem twoQuery_full (hfull : g.spec.isFullAttention = true) (hin : g ∈ c.attentionGroups.take 2)
    (useEagle) {k} (hk : (k + 1) * c.lcmBlockSize ≤ curr) (hcurr : curr ≤ 3 * c.lcmBlockSize) :
    ∃ rows, (c.query c.twoPool (unaryHashes c.twoHashes) (3 * c.lcmBlockSize) g useEagle
        curr).findLongestCacheHit g.spec.kind = .ok rows ∧
      k * c.lcmBlockSize ≤ rows.length * g.spec.blockSize ∧
      rows.length * g.spec.blockSize ≤ 3 * c.lcmBlockSize := by
  have hpos := blockSize_pos' hg
  have hL := lcmBlockSize_pos (c := c)
  have hbs : g.spec.blockSize ≤ c.lcmBlockSize := Nat.le_of_dvd hL (blockSize_dvd_lcm hg)
  have hshows := twoQuery_shows hg useEagle hcurr
  generalize hqdef : c.query c.twoPool (unaryHashes c.twoHashes) (3 * c.lcmBlockSize) g useEagle
    curr = q at hshows ⊢
  have hsize : q.blockSize = g.spec.blockSize := by rw [← hqdef]; rfl
  have hmaxLen : curr ≤ q.maxLength ∧ q.maxLength ≤ 3 * c.lcmBlockSize := by
    rw [← hqdef]
    simp only [query]
    split <;> omega
  have hfind : q.findLongestCacheHit g.spec.kind = .ok q.fullAttention := by
    cases hkind : g.spec.kind <;> simp [hkind, KVCacheSpec.isFullAttention] at hfull <;> rfl
  have hcount : ((range q.maxNumBlocks).takeWhile (c.firstTwo g)).length = q.maxNumBlocks :=
    takeWhile_range_length le_rfl (fun _ _ ↦ by simpa [firstTwo] using hin) (.inl rfl)
  obtain ⟨d, hd⟩ := blockSize_dvd_lcm hg
  have hal : ¬ q.misaligned (k * d) := by
    rw [not_misaligned_iff, hsize, show q.alignmentTokens = c.lcmBlockSize by rw [← hqdef]; rfl]
    exact ⟨k, by rw [hd]; ring⟩
  have hseen : k * d + 1 ≤ q.maxNumBlocks := by
    rw [maxNumBlocks, hsize, Nat.le_div_iff_mul_le hpos]
    calc (k * d + 1) * g.spec.blockSize
      _ = k * (g.spec.blockSize * d) + g.spec.blockSize := by ring
      _ ≤ (k + 1) * c.lcmBlockSize := by rw [← hd, add_mul]; omega
      _ ≤ q.maxLength := hk.trans hmaxLen.1
  have hlow : k * d ≤ q.fullAttention.length := by
    rw [hshows.fullAttention_length, hcount]
    exact le_alignLoop (by split <;> omega) hal
  have hhigh : q.fullAttention.length ≤ q.maxNumBlocks := fullAttention_bounded.le
  refine ⟨_, hfind, ?_, ?_⟩
  · calc k * c.lcmBlockSize
      _ = k * d * g.spec.blockSize := by rw [hd]; ring
      _ ≤ _ := Nat.mul_le_mul_right _ hlow
  calc q.fullAttention.length * g.spec.blockSize
    _ ≤ q.maxNumBlocks * g.spec.blockSize := Nat.mul_le_mul_right _ hhigh
    _ ≤ q.maxLength := hsize ▸ Nat.div_mul_le_self _ _
    _ ≤ 3 * c.lcmBlockSize := hmaxLen.2

theorem twoQuery_none (hk : g.spec.kind.Searchable) (hout : g ∉ c.attentionGroups.take 2) (useEagle)
    (hcurr : curr ≤ 3 * c.lcmBlockSize) :
    ∃ rows, (c.query c.twoPool (unaryHashes c.twoHashes) (3 * c.lcmBlockSize) g useEagle
        curr).findLongestCacheHit g.spec.kind = .ok rows ∧ rows.length = 0 :=
  (twoQuery_shows hg useEagle hcurr).nothing (fun _ _ ↦ by simpa [firstTwo] using hout) hk

end

abbrev twoScan (c : HybridKVCacheCoordinator) (i : ℕ) (g : AttentionGroup) (s : Scan) :
    Except HitError Scan :=
  c.scanGroup c.twoPool (unaryHashes c.twoHashes) (3 * c.lcmBlockSize) i g s

abbrev twoScans (c : HybridKVCacheCoordinator) (i : ℕ) (gs : List AttentionGroup) (s : Scan) :
    Except HitError Scan :=
  c.scanGroups c.twoPool (unaryHashes c.twoHashes) (3 * c.lcmBlockSize) i gs s

theorem twoScan_none (hg : g ∈ c.attentionGroups) (hk : g.spec.kind.Searchable)
    (hout : g ∉ c.attentionGroups.take 2) (hcurr : s.currHitLength ≤ 3 * c.lcmBlockSize)
    (hstate : g.spec.isFullAttention = false ∨ Fresh g s) :
    ∃ s', c.twoScan i g s = .ok s' ∧ Scanned [g] s s' ∧ s'.currHitLength = 0 ∧
      (s.currHitLength = 0 → Marks i 1 s s') := by
  obtain ⟨rows, hrows, hlen⟩ := twoQuery_none hg hk hout
    (c.isEagle g && !decide (i ∈ s.eagleVerified)) hcurr
  obtain ⟨s', hrun, hscan, hcurr', -, hver⟩ := scanGroup_lookup hstate hrows
  rw [hlen, zero_mul] at hver hcurr'
  refine ⟨s', hrun, hscan, hcurr', fun hzero ↦ .of_step ?_⟩
  rw [hzero] at hver
  split at hver
  · exact .inr hver
  · exact .inl (by simpa using hver)

theorem twoScans_none {seg} (hseg : ∀ g ∈ seg, g ∈ c.attentionGroups)
    (hk : ∀ g ∈ seg, g.spec.kind.Searchable) (hout : ∀ g ∈ seg, g ∉ c.attentionGroups.take 2)
    (hnodup : (ids seg).Nodup) (hcurr : s.currHitLength = 0)
    (hstate : ∀ g ∈ seg, g.spec.isFullAttention = false ∨ Fresh g s ∨ Done g s) (i) :
    ∃ s', c.twoScans i seg s = .ok s' ∧ Scanned seg s s' ∧ s'.currHitLength = 0 := by
  have hstep : ∀ g ∈ seg, ∀ i s, s.currHitLength = 0 →
      (g.spec.isFullAttention = false ∨ Fresh g s ∨ Done g s) →
      ∃ s', c.twoScan i g s = .ok s' ∧ Scanned [g] s s' ∧ s'.currHitLength = 0 ∧
        Marks i 1 s s' := by
    intro g hg i s hcurr h
    by_cases htrim : g.spec.isFullAttention = true ∧ Done g s
    · exact ⟨s, scanGroup_trim (hseg g hg) htrim.1 htrim.2 (by simp [hcurr]),
        .single (fun _ _ ↦ rfl) htrim.2, hcurr, .of_step (.inl rfl)⟩
    have hlook : g.spec.isFullAttention = false ∨ Fresh g s := by
      cases hfull : g.spec.isFullAttention with
      | false => exact .inl rfl
      | true => simpa [hfull, not_and.mp htrim hfull] using h
    obtain ⟨s', hrun, hscan, hcurr', hmarks⟩ := twoScan_none (hseg g hg) (hk g hg)
      (hout g hg) (by omega) hlook
    exact ⟨s', hrun, hscan, hcurr', hmarks hcurr⟩
  obtain ⟨s', hrun, hscan, hcurr', -⟩ := scanGroups_steady
    (fun g s s' h heq ↦ h.imp_right (Or.imp (·.congr heq) (·.congr heq))) hnodup hstep hcurr
    hstate i
  exact ⟨s', hrun, hscan, hcurr'⟩

structure TwoFull (c : HybridKVCacheCoordinator) (g0 g1 x : AttentionGroup)
    (rest : List AttentionGroup) : Prop where
  split : c.attentionGroups = g0 :: g1 :: x :: rest
  searchable : ∀ g ∈ c.attentionGroups, g.spec.kind.Searchable
  first : g0.spec.isFullAttention = true
  second : g1.spec.isFullAttention = true

variable {g0 g1 x : AttentionGroup} {rest : List AttentionGroup}

section

variable (h : TwoFull c g0 g1 x rest)

include h

theorem TwoFull.mem : g0 ∈ c.attentionGroups ∧ g1 ∈ c.attentionGroups ∧
    x ∈ c.attentionGroups ∧ ∀ g ∈ rest, g ∈ c.attentionGroups := by
  simp +contextual [h.split]

theorem TwoFull.nodup : (ids (g0 :: g1 :: x :: rest)).Nodup :=
  h.split ▸ c.ids_nodup

theorem TwoFull.apart {gid} (hgid : gid ∈ g1.groupIds) :
    gid ∉ g0.groupIds ∧ gid ∉ ids (x :: rest) := by
  refine ⟨not_mem_of_nodup [] h.nodup (.inr (by simp)) hgid, fun hin ↦ ?_⟩
  obtain ⟨g, hg, hgid'⟩ := mem_flatMap.mp hin
  exact not_mem_of_nodup [g0] h.nodup (.inr hg) hgid' hgid

theorem TwoFull.apart_rest {gid} (hg : g ∈ x :: rest)
    (hgid : gid ∈ g.groupIds) : gid ∉ g0.groupIds ∧ gid ∉ g1.groupIds := by
  refine ⟨not_mem_of_nodup [] h.nodup (.inr (by simp [hg])) hgid, ?_⟩
  exact not_mem_of_nodup [g0] h.nodup (.inr hg) hgid

theorem TwoFull.not_mem_take (hg : g ∈ x :: rest) : g ∉ c.attentionGroups.take 2 := by
  obtain ⟨gid, hgid⟩ := exists_mem_of_ne_nil _ (lists (c := c) (g := g)
    (by simp only [h.split, mem_cons] at hg ⊢; tauto)).nonempty
  obtain ⟨h0, h1⟩ := h.apart_rest hg hgid
  rw [h.split]
  rintro hin
  rcases mem_cons.mp hin with rfl | hin
  · exact h0 hgid
  · obtain rfl : g = g1 := by simpa using hin
    exact h1 hgid

theorem TwoFull.turn_first : ∃ s y,
    c.twoScans 0 c.attentionGroups ⟨3 * c.lcmBlockSize, [], fun _ ↦ none⟩ = .ok s ∧
      s.currHitLength = 0 ∧ (∀ g ∈ c.attentionGroups, Done g s) ∧
      c.lcmBlockSize ≤ y ∧ Covers s.hitBlocksByGroup g1 (· = y) := by
  obtain ⟨hg0, hg1, hx, hrest⟩ := h.mem
  obtain ⟨rows0, hrows0, hlow0, hhigh0⟩ := twoQuery_full hg0
    h.first (by simp [h.split]) (c.isEagle g0 && !decide (0 ∈ ([] : List ℕ)))
    (le_refl (3 * c.lcmBlockSize)) le_rfl
  obtain ⟨s0, hrun0, hscan0, hcurr0, -⟩ := scanGroup_lookup
    (s := ⟨3 * c.lcmBlockSize, [], fun _ ↦ none⟩) (.inr fun _ _ ↦ rfl) hrows0
  obtain ⟨rows1, hrows1, hlow1, hhigh1⟩ := twoQuery_full hg1 h.second (by simp [h.split])
    (c.isEagle g1 && !decide (1 ∈ s0.eagleVerified)) (hcurr0 ▸ hlow0) (hcurr0 ▸ hhigh0)
  have hfresh1 : Fresh g1 s0 := fun gid hgid ↦ by
    rw [hscan0.frame gid (by simpa [ids] using (h.apart hgid).1)]
  obtain ⟨s1, hrun1, hscan1, hcurr1, hcov1, -⟩ := scanGroup_lookup (.inr hfresh1) hrows1
  have hfresh : ∀ g ∈ x :: rest, Fresh g s1 := fun g hg gid hgid ↦ by
    obtain ⟨h0, h1⟩ := h.apart_rest hg hgid
    rw [hscan1.frame gid (by simpa [ids] using h1), hscan0.frame gid (by simpa [ids] using h0)]
  obtain ⟨s2, hrun2, hscan2, hcurr2, -⟩ := twoScan_none (i := 2) hx (h.searchable x hx)
    (h.not_mem_take (by simp)) (hcurr1 ▸ hhigh1) (.inr (hfresh x (by simp)))
  have hnodup : (ids (x :: rest)).Nodup :=
    (nodup_append.mp (nodup_append.mp h.nodup).2.1).2.1
  obtain ⟨s3, hrun3, hscan3, hcurr3⟩ := twoScans_none hrest
    (fun g hg ↦ h.searchable g (hrest g hg)) (fun g hg ↦ h.not_mem_take (by simp [hg]))
    (nodup_append.mp hnodup).2.1 hcurr2
    (fun g hg ↦ .inr (.inl ((hfresh g (by simp [hg])).congr fun gid hgid ↦
      hscan2.frame gid (by simpa [ids] using not_mem_of_nodup [] hnodup (.inr hg) hgid)))) 3
  have hscan : Scanned (x :: rest) s1 s3 := hscan2.append hscan3
  refine ⟨s3, _, ?_, hcurr3, ?_, ?_, hcov1.congr fun gid hgid ↦ hscan.frame gid (h.apart hgid).2⟩
  · rw [h.split]
    simp only [twoScans, scanGroups, hrun0, hrun1, hrun2, hrun3]
  · rw [h.split]
    exact (hscan0.append (hscan1.append hscan)).done
  · omega

theorem TwoFull.turn_second {y} (hcurr : s.currHitLength = 0)
    (hdone : ∀ g ∈ c.attentionGroups, Done g s) (hcov : Covers s.hitBlocksByGroup g1 (· = y)) :
    ∃ s', c.twoScans 0 c.attentionGroups s = .ok s' ∧ s'.currHitLength = 0 ∧
      Covers s'.hitBlocksByGroup g1 (· = y) := by
  obtain ⟨hg0, hg1, hx, hrest⟩ := h.mem
  have hmem : ∀ g ∈ x :: rest, g ∈ c.attentionGroups := fun g hg ↦ by
    rcases mem_cons.mp hg with rfl | hg
    exacts [hx, hrest g hg]
  obtain ⟨s', hrun, hscan, hcurr'⟩ := twoScans_none hmem (fun g hg ↦ h.searchable g (hmem g hg))
    (fun g hg ↦ h.not_mem_take hg)
    (nodup_append.mp (nodup_append.mp h.nodup).2.1).2.1 hcurr
    (fun g hg ↦ .inr (.inr (hdone g (hmem g hg)))) 2
  refine ⟨s', ?_, hcurr', hcov.congr fun gid hgid ↦ hscan.frame gid (h.apart hgid).2⟩
  have hzero : ∀ n : ℕ, n ∣ s.currHitLength := by simp [hcurr]
  rw [h.split, twoScans, scanGroups, scanGroup_trim hg0 h.first (hdone g0 hg0) (hzero _)]
  dsimp only
  rw [scanGroups, scanGroup_trim hg1 h.second (hdone g1 hg1) (hzero _)]
  exact hrun

theorem TwoFull.not_answers :
    ¬ Answers c c.twoPool (unaryHashes c.twoHashes) (3 * c.lcmBlockSize) := by
  have hL := lcmBlockSize_pos (c := c)
  obtain ⟨fuel, hfuel⟩ : ∃ fuel, 3 * c.lcmBlockSize + 1 = fuel + 1 + 1 :=
    ⟨3 * c.lcmBlockSize - 1, by omega⟩
  have hsimple : c.isSimpleHybrid = false := by simp [isSimpleHybrid, h.split]
  obtain ⟨s, y, hrun, hcurr, hdone, hy, hcov⟩ := h.turn_first
  obtain ⟨s', hrun', hcurr', hcov'⟩ := h.turn_second hcurr hdone hcov
  have hhead : c.attentionGroups.head? ≠ some g1 := by
    obtain ⟨gid, hgid⟩ := exists_mem_of_ne_nil _ (lists h.mem.2.1).nonempty
    intro heq
    obtain rfl : g0 = g1 := by simpa [h.split] using heq
    exact (h.apart hgid).1 hgid
  refine not_answers_of_search (h := 0) (s := s') ?_ h.mem.2.1 hcov' (.inr ⟨by omega, .inr hhead⟩)
  rw [hfuel, searchLoop_next hrun (by omega) hsimple, hcurr,
    searchLoop_stop (hcurr ▸ hrun') hcurr'.ge]

end

end

theorem flagged_of_mem {m} (hm : m ∈ c.attentionGroups)
    (hsearch : ∀ g ∈ c.attentionGroups, g.spec.kind.Searchable) (hkeep : ¬ KeepsWithin c m) :
    ∃ pre post, Flagged c pre m post := by
  obtain ⟨hmamba, heagle, hsize⟩ : m.spec.kind.isMamba = true ∧ c.isEagle m = true ∧
      m.spec.blockSize = c.lcmBlockSize := by simpa [KeepsWithin] using hkeep
  obtain ⟨pre, post, hsplit⟩ := append_of_mem hm
  have hnodup := c.ids_nodup
  rw [hsplit] at hnodup
  have hne : ∀ g ∈ c.attentionGroups, (g ∈ pre ∨ g ∈ post) → g ≠ m := by
    rintro g hg hside rfl
    obtain ⟨gid, hgid⟩ := exists_mem_of_ne_nil _ (lists hg).nonempty
    exact not_mem_of_nodup pre hnodup hside hgid hgid
  have hpre : ∀ g ∈ pre, g ∈ c.attentionGroups := fun g hg ↦ by simp [hsplit, hg]
  have hpost : ∀ g ∈ post, g ∈ c.attentionGroups := fun g hg ↦ by simp [hsplit, hg]
  rw [ids, flatMap_append, flatMap_cons, nodup_append] at hnodup
  refine ⟨pre, post, hsplit,
    ⟨hpre, fun g hg ↦ hne g (hpre g hg) (.inl hg), fun g hg ↦ hsearch g (hpre g hg), hnodup.1⟩,
    ⟨hpost, fun g hg ↦ hne g (hpost g hg) (.inr hg), fun g hg ↦ hsearch g (hpost g hg),
      (nodup_append.mp hnodup.2.1).2.1⟩, fun g hg ↦ ?_, hmamba, hsize, heagle⟩
  -- full attention groups precede all others
  have hsorted := full_sorted c
  rw [hsplit] at hsorted
  have hfull := (pairwise_cons.mp (pairwise_append.mp hsorted).2.1).1 g hg
  have hm : m.spec.isFullAttention = false := by
    cases hkind : m.spec.kind <;> simp [hkind, SpecKind.isMamba, KVCacheSpec.isFullAttention] at hmamba ⊢
  simpa [hm] using hfull

theorem twoFull_of_not_truncated (hsearch : ∀ g ∈ c.attentionGroups, g.spec.kind.Searchable)
    (h : ¬ FullTruncated c) : ∃ g0 g1 x rest, TwoFull c g0 g1 x rest := by
  obtain ⟨hcount, hlen⟩ := not_or.mp h
  have htwo : 1 < c.attentionGroups.length := c.two_attention_groups
  have hsorted := full_sorted c
  match hgs : c.attentionGroups with
  | [] | [_] | [_, _] => simp [hgs] at htwo hlen
  | g0 :: g1 :: x :: rest =>
    rw [hgs] at hcount hsorted
    have hfull1 : g1.spec.isFullAttention = true := by
      by_contra hnot
      apply hcount
      obtain ⟨-, hsorted⟩ := pairwise_cons.mp hsorted
      have hrest : (g1 :: x :: rest).filter (·.spec.isFullAttention) = [] := by
        refine filter_eq_nil_iff.mpr fun g hg hfull ↦ ?_
        rcases mem_cons.mp hg with rfl | hg
        · exact hnot hfull
        · exact hnot ((pairwise_cons.mp hsorted).1 g hg hfull)
      rw [filter_cons, hrest]
      split <;> simp
    exact ⟨g0, g1, x, rest, hgs, hsearch, (pairwise_cons.mp hsorted).1 g1 (by simp) hfull1, hfull1⟩

theorem content_indexed (n) (pattern : AttentionGroup → ℕ → Bool) :
    (c.content n pattern).Indexed ∧ (c.content n pattern).hashBlockSize = c.hashBlockSize :=
  ⟨holding_indexed _ _, rfl⟩

/-- A configuration answers coherently for every cache exactly when it has neither a second full
attention group in a search of several turns nor a Mamba group under the EAGLE rule with blocks as
long as the alignment. -/
theorem coherent_hit_iff (hsearch : ∀ g ∈ c.attentionGroups, g.spec.kind.Searchable) :
    (∀ p : BlockPool, p.Indexed → p.hashBlockSize = c.hashBlockSize →
        ∀ blockHashes maxLen, Answers c p blockHashes maxLen) ↔
      FullTruncated c ∧ EagleMambaSmall c := by
  constructor
  · intro h
    refine ⟨?_, ?_⟩
    · by_contra hfull
      obtain ⟨g0, g1, x, rest, htwo⟩ := twoFull_of_not_truncated hsearch hfull
      exact htwo.not_answers (h _ (content_indexed _ _).1 (content_indexed _ _).2 _ _)
    intro m hm
    by_contra hkeep
    obtain ⟨pre, post, hflag⟩ := flagged_of_mem hm hsearch hkeep
    exact hflag.not_answers (h _ (content_indexed _ _).1 (content_indexed _ _).2 _ _)
  · rintro ⟨hfull, heagle⟩ p - hp blockHashes maxLen
    exact answers_of_regular hsearch hfull heagle hp blockHashes maxLen

def fullAndMamba (useEagle : Bool) : HybridKVCacheCoordinator where
  kvCacheGroups := [{ kvCacheSpec := ⟨.fullAttention, 16, 0⟩ },
    { kvCacheSpec := ⟨.mamba .all 0, 16, 0⟩ }]
  useEagle
  hashBlockSize := 16
  hashBlockSize_pos := by decide
  blockSize_pos := by decide
  divisible := by decide
  two_attention_groups := by decide
  group_ids_fit := by decide

theorem coherent_hit_iff_full_and_mamba : Answers (fullAndMamba false)
    ((fullAndMamba false).content 4 fun _ _ ↦ true) (unaryHashes 4) 64 :=
  (coherent_hit_iff (by decide)).mpr ⟨.inr (by decide), by decide⟩ _ (content_indexed _ _).1 rfl _ _

def fullAndMambaOps : List PoolOp :=
  let request : Request :=
    { requestId := "r", allTokenIds := replicate 33 5, blockHashes := [[1], [2]] }
  [.getNewBlocks 3, .cacheFullBlocks request [.blk 1, .blk 2] 0 2 16 0,
    .cacheFullBlocks request [.blk 0, .blk 3] 0 2 16 1]

/-- With EAGLE, the full attention group drops a block and the Mamba group does not: the search
returns 32 tokens with one block of 16 for full attention. -/
theorem full_and_mamba_incoherent : ∃ p0, init 5 true 16 false false = .ok p0 ∧
    (fullAndMamba true).findLongestCacheHit (runOps byteHashing fullAndMambaOps p0)
      [[1], [2]] 40 = .ok ([[.blk 1], [.blk 0, .blk 3]], 32) ∧
    ¬ Coherent (fullAndMamba true) 40 ([[.blk 1], [.blk 0, .blk 3]], 32) := by
  refine ⟨_, rfl, by decide +kernel, fun h ↦ ?_⟩
  obtain ⟨blocks, hb, hlen⟩ := h.blocks 0 _ rfl
  obtain rfl : [.blk 1] = blocks := by simpa using hb
  revert hlen
  decide

end VllmEngine.Core.HybridKVCacheCoordinator

import VllmEngine.Core.HitMaximal

namespace VllmEngine.Core.HybridKVCacheCoordinator

open CacheHit CacheHit.Query Hybrid List BlockPool

variable {c : HybridKVCacheCoordinator} {p : BlockPool} {blockHashes : List BlockHash}
  {maxLen : ℕ} {g : AttentionGroup} {s s' : Scan}

def GroupHit (c : HybridKVCacheCoordinator) (p : BlockPool) (blockHashes : List BlockHash)
    (g : AttentionGroup) (n : ℕ) : Prop :=
  (c.query p blockHashes n g false n).ValidHit g.spec.kind (n / g.spec.blockSize)

structure CommonHit (c : HybridKVCacheCoordinator) (p : BlockPool) (blockHashes : List BlockHash)
    (n : ℕ) : Prop where
  aligned : c.lcmBlockSize ∣ n
  groups : ∀ g ∈ c.attentionGroups, c.GroupHit p blockHashes g n

/-- The configurations with groups of known kinds and no EAGLE rule, whose windows see more than the
token itself. -/
structure Plain (c : HybridKVCacheCoordinator) : Prop where
  searchable : ∀ g ∈ c.attentionGroups, g.spec.kind.Searchable
  no_eagle : eagleGroupIds c.kvCacheGroups c.useEagle = []
  window : ∀ g ∈ c.attentionGroups, ∀ window, g.spec.kind = .slidingWindow window → 2 ≤ window

theorem Plain.isEagle (hc : Plain c) (g) : c.isEagle g = false := by
  simp [HybridKVCacheCoordinator.isEagle, hc.no_eagle]

theorem Plain.regular (hc : Plain c) : Regular c :=
  ⟨hc.searchable, fun g _ _ heagle ↦ by rw [hc.isEagle] at heagle; cases heagle⟩

theorem GroupHit.mono {n m} (h : c.GroupHit p blockHashes g n)
    (hfull : g.spec.isFullAttention = true) (hm : m ≤ n) : c.GroupHit p blockHashes g m :=
  ValidHit.mono hfull h (Nat.div_le_div_right hm)

theorem query_greatest (hc : Plain c) (hg : g ∈ c.attentionGroups) {curr rows}
    (h : (c.query p blockHashes maxLen g false curr).findLongestCacheHit g.spec.kind = .ok rows) :
    IsGreatest {n | n ≤ curr ∧ c.lcmBlockSize ∣ n ∧ c.GroupHit p blockHashes g n}
      (rows.length * g.spec.blockSize) := by
  have hpos := blockSize_pos' hg
  obtain ⟨⟨hle, hal, hvalid⟩, hupper⟩ :=
    findLongestCacheHit_greatest (hc.searchable g hg) (hc.window g hg) hpos rfl h
  refine ⟨⟨(Nat.le_div_iff_mul_le hpos).mp hle, not_misaligned_iff.mp hal, ?_⟩, ?_⟩
  · rw [GroupHit, Nat.mul_div_cancel _ hpos]
    exact hvalid
  rintro n ⟨hn, hdvd, hhit⟩
  have hmul : n / g.spec.blockSize * g.spec.blockSize = n :=
    Nat.div_mul_cancel ((blockSize_dvd_lcm hg).trans hdvd)
  have hblocks : n / g.spec.blockSize ≤ rows.length := by
    refine hupper ⟨Nat.div_le_div_right hn, not_misaligned_iff.mpr ?_, hhit⟩
    change c.lcmBlockSize ∣ n / g.spec.blockSize * g.spec.blockSize
    rwa [hmul]
  calc n = n / g.spec.blockSize * g.spec.blockSize := hmul.symm
    _ ≤ rows.length * g.spec.blockSize := Nat.mul_le_mul_right _ hblocks

/-- The inner loop started from the hit length `h` and has been through `done`: no common hit has
been passed over, and each of these groups has a valid hit that is not shorter. -/
structure Sifted (c : HybridKVCacheCoordinator) (p : BlockPool) (blockHashes : List BlockHash)
    (h : ℕ) (done todo : List AttentionGroup) (s : Scan) : Prop where
  common : ∀ n ≤ h, c.CommonHit p blockHashes n → n ≤ s.currHitLength
  seen : ∀ g ∈ done, ∃ n, s.currHitLength ≤ n ∧ n ≤ h ∧ c.GroupHit p blockHashes g n
  last : ∀ g, done.getLast? = some g → c.GroupHit p blockHashes g s.currHitLength
  waiting : ∀ g ∈ todo, g.spec.isFullAttention = true →
    (∀ gid ∈ g.groupIds, s.hitBlocksByGroup gid = none) ∨ c.GroupHit p blockHashes g h

variable {h : ℕ} {todo done : List AttentionGroup}

theorem scanGroup_sifted (hc : Plain c) {idx} (hmax : h ≤ maxLen)
    (hgs : c.attentionGroups = done ++ g :: todo)
    (hpass : Pass c maxLen h done (g :: todo) s) (hs : Sifted c p blockHashes h done (g :: todo) s)
    (hrun : c.scanGroup p blockHashes maxLen idx g s = .ok s') :
    Sifted c p blockHashes h (done ++ [g]) todo s' := by
  have hg : g ∈ c.attentionGroups := by simp [hgs]
  have hpass' := scanGroup_pass hc.regular hmax hgs hpass hrun
  unfold scanGroup at hrun
  dsimp only at hrun
  split at hrun
  next hfull =>
    obtain ⟨hfull, hcached⟩ := hfull
    -- the blocks were looked up in an earlier turn
    have hhit := (hs.waiting g (by simp) hfull).resolve_left (not_all_none hcached)
    cases hrun
    have hle : s.currHitLength / g.spec.blockSize * g.spec.blockSize ≤ s.currHitLength :=
      Nat.div_mul_le_self _ _
    refine ⟨fun n hn hcommon ↦ ?_, fun g' hg' ↦ ?_, fun g' hg' ↦ ?_, fun g' hg' ↦
      hs.waiting g' (by simp [hg'])⟩
    · have hdvd : g.spec.blockSize ∣ n := (blockSize_dvd_lcm hg).trans hcommon.aligned
      calc n = n / g.spec.blockSize * g.spec.blockSize := (Nat.div_mul_cancel hdvd).symm
        _ ≤ s.currHitLength / g.spec.blockSize * g.spec.blockSize :=
          Nat.mul_le_mul_right _ (Nat.div_le_div_right (hs.common n hn hcommon))
    · rcases mem_append.mp hg' with hg' | hg'
      · obtain ⟨n, hn, hnh, hvalid⟩ := hs.seen g' hg'
        exact ⟨n, hle.trans hn, hnh, hvalid⟩
      · obtain rfl := mem_singleton.mp hg'
        exact ⟨h, hpass'.le, le_rfl, hhit⟩
    · obtain rfl : g = g' := by simpa using hg'
      exact hhit.mono hfull hpass'.le
  next =>
    rw [hc.isEagle, Bool.false_and] at hrun
    split at hrun
    · cases hrun
    next rows hrows =>
      obtain ⟨⟨hle, -, hvalid⟩, hupper⟩ := query_greatest hc hg hrows
      cases hrun
      have hnodup := c.ids_nodup
      rw [hgs] at hnodup
      refine ⟨fun n hn hcommon ↦ ?_, fun g' hg' ↦ ?_, fun g' hg' ↦ ?_, fun g' hg' hfull ↦ ?_⟩
      · exact hupper ⟨hs.common n hn hcommon, hcommon.aligned, hcommon.groups g hg⟩
      · rcases mem_append.mp hg' with hg' | hg'
        · obtain ⟨n, hn, hnh, hvalid'⟩ := hs.seen g' hg'
          exact ⟨n, hle.trans hn, hnh, hvalid'⟩
        · obtain rfl := mem_singleton.mp hg'
          exact ⟨_, le_rfl, hle.trans hpass.le, hvalid⟩
      · obtain rfl : g = g' := by simpa using hg'
        exact hvalid
      · refine (hs.waiting g' (by simp [hg']) hfull).imp_left fun hnone gid hgid ↦ ?_
        exact (recordHits_of_not_mem (not_mem_of_nodup done hnodup (.inr hg') hgid)).trans
          (hnone gid hgid)

theorem scanGroups_sifted (hc : Plain c) {idx} (hmax : h ≤ maxLen)
    (hgs : c.attentionGroups = done ++ todo)
    (hpass : Pass c maxLen h done todo s) (hs : Sifted c p blockHashes h done todo s)
    (hrun : c.scanGroups p blockHashes maxLen idx todo s = .ok s') :
    Sifted c p blockHashes h c.attentionGroups [] s' := by
  induction todo generalizing done idx s with
  | nil =>
    obtain rfl : s = s' := by simpa [scanGroups] using hrun
    simpa [hgs] using hs
  | cons g todo ih =>
    unfold scanGroups at hrun
    split at hrun
    · cases hrun
    next t ht =>
      exact ih (by simp [hgs]) (scanGroup_pass hc.regular hmax hgs hpass ht)
        (scanGroup_sifted hc hmax hgs hpass hs ht) hrun

structure Bounding (c : HybridKVCacheCoordinator) (p : BlockPool) (blockHashes : List BlockHash)
    (maxLen h : ℕ) (s : Scan) : Prop extends Ready c maxLen h s where
  common : ∀ n ≤ maxLen, c.CommonHit p blockHashes n → n ≤ h
  looked : ∀ g ∈ c.attentionGroups, g.spec.isFullAttention = true →
    (∀ gid ∈ g.groupIds, s.hitBlocksByGroup gid = none) ∨ c.GroupHit p blockHashes g h

theorem Bounding.sifted (hs : Bounding c p blockHashes maxLen h s) :
    Sifted c p blockHashes h [] c.attentionGroups { s with currHitLength := h } :=
  ⟨fun _ hn _ ↦ hn, by simp, by simp, hs.looked⟩

theorem Sifted.common_of_simple (hs : Sifted c p blockHashes h c.attentionGroups [] s)
    (hsimple : c.isSimpleHybrid = true) (hdvd : c.lcmBlockSize ∣ s.currHitLength) :
    c.CommonHit p blockHashes s.currHitLength := by
  refine ⟨hdvd, fun g hg ↦ ?_⟩
  match hgs : c.attentionGroups with
  | [] | [_] | _ :: _ :: _ :: _ => simp [isSimpleHybrid, hgs] at hsimple
  | [g0, g1] =>
    have hfull : g0.spec.isFullAttention = true := by simpa [isSimpleHybrid, hgs] using hsimple
    rw [hgs] at hg hs
    rcases mem_cons.mp hg with rfl | hg
    · obtain ⟨n, hn, -, hvalid⟩ := hs.seen g (by simp)
      exact hvalid.mono hfull hn
    · obtain rfl := mem_singleton.mp hg
      exact hs.last g rfl

theorem searchLoop_greatest (hc : Plain c) {fuel h'} (hs : Bounding c p blockHashes maxLen h s)
    (hrun : c.searchLoop p blockHashes maxLen fuel h s = .ok (h', s')) :
    IsGreatest {n | n ≤ maxLen ∧ c.CommonHit p blockHashes n} h' := by
  induction fuel generalizing h s with
  | zero => cases hrun
  | succ fuel ih =>
    unfold searchLoop at hrun
    split at hrun
    · cases hrun
    next t ht =>
      have hpass := scanGroups_pass hc.regular hs.le (nil_append _).symm hs.toReady.pass ht
      have hsift := scanGroups_sifted hc hs.le (nil_append _).symm hs.toReady.pass hs.sifted ht
      have hdvd := hpass.aligned attentionGroups_ne_nil
      have hbound : ∀ n ≤ maxLen, c.CommonHit p blockHashes n → n ≤ t.currHitLength :=
        fun n hn hcommon ↦ hsift.common n (hs.common n hn hcommon) hcommon
      split at hrun
      next hge =>
        obtain ⟨rfl, rfl⟩ := Prod.mk.inj (Except.ok.inj hrun)
        have heq : t.currHitLength = h := le_antisymm hpass.le hge
        -- nothing was shortened in this turn
        refine ⟨⟨hs.le, heq ▸ hdvd, fun g hg ↦ ?_⟩, fun n hn ↦ hs.common n hn.1 hn.2⟩
        obtain ⟨n, hn, hnh, hvalid⟩ := hsift.seen g hg
        obtain rfl : n = h := le_antisymm hnh (heq ▸ hn)
        exact hvalid
      · split at hrun
        next hsimple =>
          cases hrun
          exact ⟨⟨hpass.le.trans hs.le, hsift.common_of_simple hsimple hdvd⟩,
            fun n hn ↦ hbound n hn.1 hn.2⟩
        · refine ih ⟨hpass.ready hs.le, hbound, fun g hg hfull ↦ .inr ?_⟩ hrun
          obtain ⟨n, hn, -, hvalid⟩ := hsift.seen g hg
          exact hvalid.mono hfull hn

/-- Without EAGLE groups the search returns if the hashes reach far enough, and returns the longest
length up to the limit at which every group has a valid hit. -/
theorem hybrid_hit_longest (hc : Plain c) (hp : p.hashBlockSize = c.hashBlockSize) :
    (¬ HashesTooShort c blockHashes maxLen →
        ∃ out, c.findLongestCacheHit p blockHashes maxLen = .ok out) ∧
      ∀ out, c.findLongestCacheHit p blockHashes maxLen = .ok out →
        IsGreatest {n | n ≤ maxLen ∧ c.CommonHit p blockHashes n} out.2 := by
  have hready : Ready c maxLen maxLen ⟨maxLen, [], fun _ ↦ none⟩ :=
    ⟨le_rfl, .inl rfl, fun _ _ _ ↦ .inl fun _ _ ↦ rfl⟩
  have hstart : Bounding c p blockHashes maxLen maxLen ⟨maxLen, [], fun _ ↦ none⟩ :=
    ⟨hready, fun _ hn _ ↦ hn, fun _ _ _ ↦ .inl fun _ _ ↦ rfl⟩
  unfold findLongestCacheHit
  cases hrun : c.searchLoop p blockHashes maxLen (maxLen + 1) maxLen ⟨maxLen, [], fun _ ↦ none⟩ with
  | error e =>
    have hshort := (searchLoop_error hc.regular hp hready (Nat.lt_succ_self _) hrun).2
    exact ⟨fun hlong ↦ absurd hshort hlong, fun out hout ↦ by cases hout⟩
  | ok found =>
    refine ⟨fun _ ↦ ⟨_, rfl⟩, fun out hout ↦ ?_⟩
    cases hout
    exact searchLoop_greatest hc hstart hrun

def fullAndWindow (window : ℕ) : HybridKVCacheCoordinator where
  kvCacheGroups := [{ kvCacheSpec := ⟨.fullAttention, 16, 0⟩ },
    { kvCacheSpec := ⟨.slidingWindow window, 16, 0⟩ }]
  useEagle := false
  hashBlockSize := 16
  hashBlockSize_pos := Nat.succ_pos 15
  blockSize_pos := by simp
  divisible := by simp
  two_attention_groups := by simp [Hybrid.attentionGroups, splitGroups, addGroup, KVCacheSpec.isFullAttention]
  group_ids_fit := by simp

def firstBlockOps (gids : List ℕ) : List PoolOp :=
  let request : Request :=
    { requestId := "r", allTokenIds := replicate 17 5, blockHashes := [[1]] }
  gids.flatMap fun gid ↦
    [.getNewBlocks 1, .cacheFullBlocks request [.blk (gid + 1)] 0 1 16 gid]

/-- A window of one token needs no cached block, but the search asks for one. -/
theorem hybrid_hit_not_longest : ∃ p0, init 4 true 16 false false = .ok p0 ∧
    (fullAndWindow 1).findLongestCacheHit
        (runOps byteHashing (firstBlockOps [0]) p0) [[1]] 16 = .ok ([[], []], 0) ∧
      (fullAndWindow 1).CommonHit (runOps byteHashing (firstBlockOps [0]) p0) [[1]] 16 := by
  refine ⟨_, rfl, by decide +kernel, by decide, fun g hg ↦ ?_⟩
  have hgs : (fullAndWindow 1).attentionGroups =
      [⟨⟨.fullAttention, 16, 0⟩, [0]⟩, ⟨⟨.slidingWindow 1, 16, 0⟩, [1]⟩] := rfl
  rw [hgs] at hg
  rcases mem_cons.mp hg with rfl | hg
  · intro i hi
    obtain rfl : i = 0 := Nat.lt_one_iff.mp hi
    exact ⟨_, _, rfl, rfl⟩
  · obtain rfl := mem_singleton.mp hg
    intro i hi hreach
    exact absurd (hreach : 1 ≤ i + 0) (not_le.mpr hi)

/-- With a window of 17 tokens and the block cached for both groups, the hit is the block. -/
theorem hybrid_hit_longest_of_window : ∃ p0, init 4 true 16 false false = .ok p0 ∧
    (fullAndWindow 17).findLongestCacheHit (runOps byteHashing (firstBlockOps [0, 1]) p0) [[1]] 20 =
      .ok ([[.blk 1], [.blk 2]], 16) ∧
    IsGreatest {n | n ≤ 20 ∧ (fullAndWindow 17).CommonHit
      (runOps byteHashing (firstBlockOps [0, 1]) p0) [[1]] n} 16 := by
  obtain ⟨p0, hinit, hsize, hrun⟩ : ∃ p0, init 4 true 16 false false = .ok p0 ∧
      (runOps byteHashing (firstBlockOps [0, 1]) p0).hashBlockSize = 16 ∧
      (fullAndWindow 17).findLongestCacheHit
        (runOps byteHashing (firstBlockOps [0, 1]) p0) [[1]] 20 =
          .ok ([[.blk 1], [.blk 2]], 16) := ⟨_, rfl, rfl, by decide +kernel⟩
  have hgs : (fullAndWindow 17).attentionGroups =
      [⟨⟨.fullAttention, 16, 0⟩, [0]⟩, ⟨⟨.slidingWindow 17, 16, 0⟩, [1]⟩] := rfl
  have hplain : Plain (fullAndWindow 17) := by
    refine ⟨?_, rfl, ?_⟩
    · rw [hgs]
      decide
    · rw [hgs]
      simp
  exact ⟨p0, hinit, hrun, (hybrid_hit_longest hplain hsize).2 _ hrun⟩

end VllmEngine.Core.HybridKVCacheCoordinator

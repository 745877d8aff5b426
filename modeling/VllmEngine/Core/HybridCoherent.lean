import VllmEngine.Core.CacheHitSpec
import VllmEngine.Core.HybridGroups

namespace VllmEngine.Core.HybridKVCacheCoordinator

open CacheHit CacheHit.Query Hybrid List Option

variable {hits : ℕ → Option (List Ref)} {g g0 : AttentionGroup} {s s' : Scan} {h idx : ℕ}
  {todo done rest : List AttentionGroup} {e : HitError}

theorem recordHits_of_not_mem {null rows gids k gid} (h : gid ∉ gids) :
    recordHits null rows k gids hits gid = hits gid := by
  induction gids generalizing k hits with
  | nil => rfl
  | cons a gids ih =>
    simp only [mem_cons, not_or] at h
    rw [recordHits, ih h.2, Function.update_of_ne h.1]

theorem recordHits_column (null) (rows) {gids} (k) {gid}
    (hits : ℕ → Option (List Ref)) (h : gid ∈ gids) :
    ∃ j, gids[j]? = some gid ∧
      recordHits null rows k gids hits gid = some (column (k + j) null rows) := by
  induction gids generalizing k hits with
  | nil => simp at h
  | cons a gids ih =>
    by_cases hm : gid ∈ gids
    · obtain ⟨j, hj, hrec⟩ := ih (k + 1) (Function.update hits a (some (column k null rows))) hm
      exact ⟨j + 1, by simpa using hj, by rw [recordHits, hrec, add_right_comm, add_assoc]⟩
    · obtain rfl : gid = a := by simpa [hm] using h
      exact ⟨0, rfl, by rw [recordHits, recordHits_of_not_mem hm, Function.update_self, add_zero]⟩

def Covers (hits : ℕ → Option (List Ref)) (g : AttentionGroup) (P : ℕ → Prop) : Prop :=
  ∀ gid ∈ g.groupIds, ∃ blocks, hits gid = some blocks ∧ P (blocks.length * g.spec.blockSize)

theorem covers_recordHits (null) (rows) (g) (hits : ℕ → Option (List Ref)) :
    Covers (recordHits null rows 0 g.groupIds hits) g (· = rows.length * g.spec.blockSize) := by
  intro gid hgid
  obtain ⟨j, -, hcolumn⟩ := recordHits_column null rows 0 hits hgid
  exact ⟨_, hcolumn, by simp [column]⟩

variable {c : HybridKVCacheCoordinator} {p : BlockPool} {blockHashes : List BlockHash}
  {maxLen : ℕ}

/-- A group whose EAGLE rule keeps the hit within the current length: the class drops a block, or
its blocks are smaller than the alignment. -/
def KeepsWithin (c : HybridKVCacheCoordinator) (g : AttentionGroup) : Prop :=
  g.spec.kind.isMamba = true → c.isEagle g = true → g.spec.blockSize ≠ c.lcmBlockSize

instance (c : HybridKVCacheCoordinator) (g : AttentionGroup) : Decidable (KeepsWithin c g) :=
  inferInstanceAs (Decidable (_ → _ → _))

theorem query_le (hg : g ∈ c.attentionGroups) (hk : g.spec.kind.Searchable)
    (hkeep : KeepsWithin c g) {useEagle} (heagle : useEagle = true → c.isEagle g = true) {curr}
    (hcurr : curr ≤ maxLen) (hmult : curr = maxLen ∨ c.lcmBlockSize ∣ curr) {rows}
    (h : (c.query p blockHashes maxLen g useEagle curr).findLongestCacheHit g.spec.kind = .ok rows) :
    rows.length * g.spec.blockSize ≤ curr ∧ c.lcmBlockSize ∣ rows.length * g.spec.blockSize := by
  have hb := findLongestCacheHit_bounded hk h
  have hpos := blockSize_pos' hg
  have hdvd : c.lcmBlockSize ∣ rows.length * g.spec.blockSize := not_misaligned_iff.mp hb.aligned
  refine ⟨?_, hdvd⟩
  have hle : rows.length * g.spec.blockSize ≤
      (c.query p blockHashes maxLen g useEagle curr).maxLength :=
    (Nat.le_div_iff_mul_le hpos).mp hb.le
  cases useEagle with
  | false => simpa [query] using hle
  | true =>
    have hle' : rows.length * g.spec.blockSize ≤ curr + g.spec.blockSize ∧
        rows.length * g.spec.blockSize ≤ maxLen := by simpa [query] using hle
    cases hm : g.spec.kind.isMamba with
    | false =>
      -- the class drops the last block it matched
      rcases eq_zero_or_pos rows.length with hz | hz
      · simp [hz]
      have hdrop := (Nat.le_div_iff_mul_le hpos).mp
        (hb.dropped rfl (by simp [hm]) (pos_iff_ne_zero.mp hz))
      have hdrop' : (rows.length + 1) * g.spec.blockSize ≤ curr + g.spec.blockSize :=
        hdrop.trans (by simp [query])
      rw [add_mul] at hdrop'
      omega
    | true =>
      rcases hmult with rfl | hmult
      · exact hle'.2
      have hlt : g.spec.blockSize < c.lcmBlockSize :=
        lt_of_le_of_ne (Nat.le_of_dvd lcmBlockSize_pos (blockSize_dvd_lcm hg))
          (hkeep hm (heagle rfl))
      obtain ⟨a, ha⟩ := hdvd
      obtain ⟨b, rfl⟩ := hmult
      rw [ha] at hle' ⊢
      have hlt' : c.lcmBlockSize * a < c.lcmBlockSize * (b + 1) := by
        rw [mul_add]
        omega
      exact Nat.mul_le_mul_left _ (Nat.lt_succ_iff.mp (Nat.lt_of_mul_lt_mul_left hlt'))

theorem Covers.mono {P Q} (h : Covers hits g P) (hPQ : ∀ n, P n → Q n) : Covers hits g Q := by
  intro gid hgid
  obtain ⟨blocks, hb, hP⟩ := h gid hgid
  exact ⟨blocks, hb, hPQ _ hP⟩

theorem Covers.congr {hits' P}
    (h : Covers hits g P) (heq : ∀ gid ∈ g.groupIds, hits' gid = hits gid) : Covers hits' g P := by
  intro gid hgid
  rw [heq gid hgid]
  exact h gid hgid

theorem not_all_none (hcached : (g.groupIds.head?.bind s.hitBlocksByGroup).isSome) :
    ¬ ∀ gid ∈ g.groupIds, s.hitBlocksByGroup gid = none := by
  intro hnone
  obtain ⟨blocks, hb⟩ := isSome_iff_exists.mp hcached
  obtain ⟨gid, hgid, hbg⟩ := bind_eq_some_iff.mp hb
  rw [hnone gid (mem_of_mem_head? hgid)] at hbg
  cases hbg

/-- The inner loop started from the hit length `h`, has been through `done` and has `todo` before
it. -/
structure Pass (c : HybridKVCacheCoordinator) (maxLen h : ℕ) (done todo : List AttentionGroup)
    (s : Scan) : Prop where
  le : s.currHitLength ≤ h
  mult : s.currHitLength = maxLen ∨ c.lcmBlockSize ∣ s.currHitLength
  aligned : done ≠ [] → c.lcmBlockSize ∣ s.currHitLength
  looked : ∀ g ∈ done, Covers s.hitBlocksByGroup g fun n ↦
    s.currHitLength ≤ n ∧ (g.spec.isFullAttention = false → n ≤ h)
  waiting : ∀ g ∈ todo, g.spec.isFullAttention = true →
    (∀ gid ∈ g.groupIds, s.hitBlocksByGroup gid = none) ∨
      (c.lcmBlockSize ∣ h ∧ Covers s.hitBlocksByGroup g (h ≤ ·))

structure Regular (c : HybridKVCacheCoordinator) : Prop where
  searchable : ∀ g ∈ c.attentionGroups, g.spec.kind.Searchable
  keeps : ∀ g ∈ c.attentionGroups, KeepsWithin c g

theorem scanGroup_pass (hc : Regular c) (hmax : h ≤ maxLen)
    (hgs : c.attentionGroups = done ++ g :: todo) (hs : Pass c maxLen h done (g :: todo) s)
    (hrun : c.scanGroup p blockHashes maxLen idx g s = .ok s') :
    Pass c maxLen h (done ++ [g]) todo s' := by
  have hg : g ∈ c.attentionGroups := by simp [hgs]
  have hnodup := c.ids_nodup
  rw [hgs] at hnodup
  have hcurr : s.currHitLength ≤ maxLen := hs.le.trans hmax
  unfold scanGroup at hrun
  dsimp only at hrun
  split at hrun
  next hfull =>
    obtain ⟨hfull, hcached⟩ := hfull
    -- the blocks were looked up in an earlier turn
    obtain ⟨hdvd, hcov⟩ := (hs.waiting g (by simp) hfull).resolve_left (not_all_none hcached)
    have hL : c.lcmBlockSize ∣ s.currHitLength := by
      refine hs.mult.elim (fun he ↦ ?_) id
      rwa [le_antisymm hs.le (he ▸ hmax)]
    have hkeep : s.currHitLength / g.spec.blockSize * g.spec.blockSize = s.currHitLength :=
      Nat.div_mul_cancel ((blockSize_dvd_lcm hg).trans hL)
    obtain rfl : s = s' := by
      cases s
      simpa [hkeep] using hrun
    refine ⟨hs.le, hs.mult, fun _ ↦ hL, fun g' hg' ↦ ?_, fun g' hg' ↦ hs.waiting g' (by simp [hg'])⟩
    rcases mem_append.mp hg' with hg' | hg'
    · exact hs.looked g' hg'
    · obtain rfl : g' = g := by simpa using hg'
      exact hcov.mono fun n hn ↦ ⟨hs.le.trans hn, by simp [hfull]⟩
  next =>
    split at hrun
    · cases hrun
    next rows hrows =>
      obtain rfl : _ = s' := by simpa using hrun
      obtain ⟨hle, hdvd⟩ := query_le hg (hc.searchable g hg) (hc.keeps g hg) (by simp; tauto) hcurr
        hs.mult hrows
      have hother : ∀ g', g' ∈ done ∨ g' ∈ todo → ∀ gid ∈ g'.groupIds,
          recordHits p.nullBlock rows 0 g.groupIds s.hitBlocksByGroup gid =
            s.hitBlocksByGroup gid := fun g' hg' gid hgid ↦
        recordHits_of_not_mem (not_mem_of_nodup done hnodup hg' hgid)
      refine ⟨hle.trans hs.le, .inr hdvd, fun _ ↦ hdvd, fun g' hg' ↦ ?_, fun g' hg' hfull ↦ ?_⟩
      · rcases mem_append.mp hg' with hg' | hg'
        · exact ((hs.looked g' hg').congr (hother g' (.inl hg'))).mono
            fun n hn ↦ ⟨hle.trans hn.1, hn.2⟩
        · obtain rfl : g' = g := by simpa using hg'
          exact (covers_recordHits _ _ _ _).mono fun n hn ↦
            ⟨hn.ge, fun _ ↦ hn.le.trans (hle.trans hs.le)⟩
      · rcases hs.waiting g' (by simp [hg']) hfull with hnone | ⟨hdvd', hcov⟩
        · exact .inl fun gid hgid ↦ (hother g' (.inr hg') gid hgid).trans (hnone gid hgid)
        · exact .inr ⟨hdvd', hcov.congr (hother g' (.inr hg'))⟩

def HashesTooShort (c : HybridKVCacheCoordinator) (blockHashes : List BlockHash) (maxLen : ℕ) :
    Prop := blockHashes.length * c.hashBlockSize < maxLen

theorem scanGroup_error (hc : Regular c) (hp : p.hashBlockSize = c.hashBlockSize)
    (hg : g ∈ c.attentionGroups) (hcurr : s.currHitLength ≤ maxLen)
    (hrun : c.scanGroup p blockHashes maxLen idx g s = .error e) :
    e = .indexError ∧ HashesTooShort c blockHashes maxLen := by
  unfold scanGroup at hrun
  dsimp only at hrun
  split at hrun
  · cases hrun
  split at hrun
  next herr =>
    cases hrun
    obtain ⟨he, hsize, hlen⟩ := findLongestCacheHit_error (hc.searchable g hg) herr
    refine ⟨he, ?_⟩
    have hpos := blockSize_pos' hg
    have hmul := (Nat.le_div_iff_mul_le hpos).mp (Nat.succ_le_of_lt hlen)
    have hle : (c.query p blockHashes maxLen g (c.isEagle g && !decide (idx ∈ s.eagleVerified))
        s.currHitLength).maxLength ≤ maxLen := by
      simp only [query]
      split
      · exact min_le_right _ _
      · exact hcurr
    have hsize' : g.spec.blockSize = c.hashBlockSize := hsize.trans hp
    rw [HashesTooShort, ← hsize']
    have hmul' : (blockHashes.length + 1) * g.spec.blockSize ≤ maxLen := hmul.trans hle
    rw [add_mul] at hmul'
    omega
  · cases hrun

theorem scanGroups_error (hc : Regular c) (hp : p.hashBlockSize = c.hashBlockSize)
    (hmax : h ≤ maxLen) (hgs : c.attentionGroups = done ++ todo) (hs : Pass c maxLen h done todo s)
    (hrun : c.scanGroups p blockHashes maxLen idx todo s = .error e) :
    e = .indexError ∧ HashesTooShort c blockHashes maxLen := by
  induction todo generalizing done idx s with
  | nil => cases hrun
  | cons g todo ih =>
    unfold scanGroups at hrun
    split at hrun
    next herr =>
      cases hrun
      exact scanGroup_error hc hp (by simp [hgs]) (hs.le.trans hmax) herr
    next t ht => exact ih (by simp [hgs]) (scanGroup_pass hc hmax hgs hs ht) hrun

theorem scanGroups_pass (hc : Regular c) (hmax : h ≤ maxLen) (hgs : c.attentionGroups = done ++ todo)
    (hs : Pass c maxLen h done todo s)
    (hrun : c.scanGroups p blockHashes maxLen idx todo s = .ok s') :
    Pass c maxLen h c.attentionGroups [] s' := by
  induction todo generalizing done idx s with
  | nil =>
    obtain rfl : s = s' := by simpa [scanGroups] using hrun
    simpa [hgs] using hs
  | cons g todo ih =>
    unfold scanGroups at hrun
    split at hrun
    · cases hrun
    next t ht => exact ih (by simp [hgs]) (scanGroup_pass hc hmax hgs hs ht) hrun

/-- The turn can start from `h`: full attention has not been looked up, or has at least `h`. -/
structure Ready (c : HybridKVCacheCoordinator) (maxLen h : ℕ) (s : Scan) : Prop where
  le : h ≤ maxLen
  mult : h = maxLen ∨ c.lcmBlockSize ∣ h
  waiting : ∀ g ∈ c.attentionGroups, g.spec.isFullAttention = true →
    (∀ gid ∈ g.groupIds, s.hitBlocksByGroup gid = none) ∨
      (c.lcmBlockSize ∣ h ∧ Covers s.hitBlocksByGroup g (h ≤ ·))

theorem Ready.pass (hs : Ready c maxLen h s) :
    Pass c maxLen h [] c.attentionGroups { s with currHitLength := h } :=
  ⟨le_rfl, hs.mult, fun hne ↦ absurd rfl hne, by simp, hs.waiting⟩

theorem attentionGroups_ne_nil : c.attentionGroups ≠ [] := by
  intro h
  have := c.two_attention_groups
  rw [show Hybrid.attentionGroups c.kvCacheGroups = [] from h] at this
  simp at this

/-- The next turn starts from where a turn has ended. -/
theorem Pass.ready (hs : Pass c maxLen h c.attentionGroups [] s) (hmax : h ≤ maxLen) :
    Ready c maxLen s.currHitLength s := by
  have hdvd := hs.aligned attentionGroups_ne_nil
  refine ⟨hs.le.trans hmax, .inr hdvd, fun g hg _ ↦ .inr ⟨hdvd, ?_⟩⟩
  exact (hs.looked g hg).mono fun n hn ↦ hn.1

theorem searchLoop_pass (hc : Regular c) (hsimple : c.isSimpleHybrid = false) {fuel h'}
    (hs : Ready c maxLen h s) (hrun : c.searchLoop p blockHashes maxLen fuel h s = .ok (h', s')) :
    Pass c maxLen h' c.attentionGroups [] s' ∧ s'.currHitLength = h' ∧ h' ≤ maxLen := by
  induction fuel generalizing h s with
  | zero => cases hrun
  | succ fuel ih =>
    unfold searchLoop at hrun
    split at hrun
    · cases hrun
    next t ht =>
      have hpass := scanGroups_pass hc hs.le (nil_append _).symm hs.pass ht
      rw [hsimple] at hrun
      split at hrun
      next hge =>
        cases hrun
        exact ⟨hpass, le_antisymm hpass.le hge, hs.le⟩
      · rw [if_neg (by simp)] at hrun
        exact ih (hpass.ready hs.le) hrun

theorem searchLoop_error (hc : Regular c) (hp : p.hashBlockSize = c.hashBlockSize) {fuel}
    (hs : Ready c maxLen h s) (hfuel : h < fuel)
    (hrun : c.searchLoop p blockHashes maxLen fuel h s = .error e) :
    e = .indexError ∧ HashesTooShort c blockHashes maxLen := by
  induction fuel generalizing h s with
  | zero => omega
  | succ fuel ih =>
    unfold searchLoop at hrun
    split at hrun
    next herr =>
      cases hrun
      exact scanGroups_error hc hp hs.le (nil_append _).symm hs.pass herr
    next t ht =>
      have hpass := scanGroups_pass hc hs.le (nil_append _).symm hs.pass ht
      split at hrun
      · cases hrun
      split at hrun
      · cases hrun
      · exact ih (hpass.ready hs.le) (by omega) hrun

structure Coherent (c : HybridKVCacheCoordinator) (maxLen : ℕ) (out : List (List Ref) × ℕ) :
    Prop where
  le_max : out.2 ≤ maxLen
  aligned : c.lcmBlockSize ∣ out.2
  blocks : ∀ (gid : ℕ) (g : KVCacheGroupSpec), c.kvCacheGroups[gid]? = some g →
    ∃ blocks : List Ref, out.1[gid]? = some blocks ∧ blocks.length * g.kvCacheSpec.blockSize = out.2

theorem coherent_of_covers (hgs : c.attentionGroups = g0 :: rest) (hle : h ≤ maxLen)
    (hdvd : c.lcmBlockSize ∣ h) (hfirst : Covers s.hitBlocksByGroup g0 (h ≤ ·))
    (hexact : g0.spec.isFullAttention = false → Covers s.hitBlocksByGroup g0 (· = h))
    (hrest : ∀ g ∈ rest, Covers s.hitBlocksByGroup g (· = h)) :
    Coherent c maxLen ((range c.kvCacheGroups.length).map (c.finalBlocks h s), h) := by
  refine ⟨hle, hdvd, fun gid spec hspec ↦ ?_⟩
  have hgid : gid < c.kvCacheGroups.length := (List.getElem?_eq_some_iff.mp hspec).1
  obtain ⟨g, hg, hmem⟩ := mem_flatMap.mp ((mem_ids c).mpr hgid)
  obtain ⟨spec', hspec', hsame⟩ := (lists hg).spec gid hmem
  obtain rfl : spec = spec' := by simpa [hspec] using hspec'
  refine ⟨c.finalBlocks h s gid, by simp [hgid], ?_⟩
  have hnodup := c.ids_nodup
  rw [hgs] at hg hnodup
  rw [hsame, finalBlocks, hgs]
  dsimp only
  rcases mem_cons.mp hg with rfl | hg
  · split
    next hfull =>
      obtain ⟨blocks, hb, hn⟩ := hfirst gid hmem
      have hbs : g.spec.blockSize ∣ h := (blockSize_dvd_lcm (by simp [hgs])).trans hdvd
      have hlen : h / g.spec.blockSize ≤ blocks.length :=
        Nat.div_le_of_le_mul (by rwa [Nat.mul_comm])
      rw [hb, getD_some, length_take, min_eq_left hlen, Nat.div_mul_cancel hbs]
    next hfull =>
      obtain ⟨blocks, hb, hn⟩ := hexact (by simpa [hmem] using hfull) gid hmem
      rw [hb, getD_some, hn]
  · have hout : gid ∉ g0.groupIds := not_mem_of_nodup [] hnodup (.inr hg) hmem
    obtain ⟨blocks, hb, hn⟩ := hrest g hg gid hmem
    rw [if_neg (fun hm ↦ hout hm.2), hb, getD_some, hn]

theorem scanGroup_fresh (hfresh : ∀ gid ∈ g.groupIds, s.hitBlocksByGroup gid = none)
    (hrun : c.scanGroup p blockHashes maxLen idx g s = .ok s') :
    Covers s'.hitBlocksByGroup g (· = s'.currHitLength) ∧
      ∀ gid ∉ g.groupIds, s'.hitBlocksByGroup gid = s.hitBlocksByGroup gid := by
  unfold scanGroup at hrun
  dsimp only at hrun
  split at hrun
  next hfull => exact absurd hfresh (not_all_none hfull.2)
  next =>
    split at hrun
    · cases hrun
    · obtain rfl : _ = s' := by simpa using hrun
      exact ⟨covers_recordHits _ _ _ _, fun gid hgid ↦ recordHits_of_not_mem hgid⟩

theorem scanGroups_two {g1} (hgs : c.attentionGroups = [g0, g1])
    (hrun : c.scanGroups p blockHashes maxLen 0 c.attentionGroups ⟨h, [], fun _ ↦ none⟩ = .ok s') :
    Covers s'.hitBlocksByGroup g1 (· = s'.currHitLength) := by
  have hnodup := c.ids_nodup
  rw [hgs] at hrun hnodup
  unfold scanGroups at hrun
  split at hrun
  · cases hrun
  next t ht =>
    obtain ⟨-, hframe⟩ := scanGroup_fresh (by simp) ht
    unfold scanGroups at hrun
    split at hrun
    · cases hrun
    next u hu =>
      obtain rfl : u = s' := by simpa [scanGroups] using hrun
      refine (scanGroup_fresh (fun gid hgid ↦ ?_) hu).1
      exact hframe gid (not_mem_of_nodup [] hnodup (.inr (by simp)) hgid)

/-- At most one attention group is full attention, or the search stops after one turn. -/
def FullTruncated (c : HybridKVCacheCoordinator) : Prop :=
  (c.attentionGroups.filter (·.spec.isFullAttention)).length ≤ 1 ∨ c.attentionGroups.length = 2

/-- No Mamba group under the EAGLE rule has blocks as long as the alignment. -/
def EagleMambaSmall (c : HybridKVCacheCoordinator) : Prop :=
  ∀ g ∈ c.attentionGroups, KeepsWithin c g

instance (c : HybridKVCacheCoordinator) : Decidable (EagleMambaSmall c) :=
  inferInstanceAs (Decidable (∀ _ ∈ _, _))

theorem full_sorted (c : HybridKVCacheCoordinator) : c.attentionGroups.Pairwise fun a b ↦
    b.spec.isFullAttention = true → a.spec.isFullAttention = true := by
  refine pairwise_append.mpr ⟨?_, ?_, ?_⟩
  · exact pairwise_of_forall_mem_list fun a ha _ _ _ ↦ (mem_filter.mp ha).2
  · refine pairwise_of_forall_mem_list fun _ _ b hb hfull ↦ ?_
    have := (mem_filter.mp hb).2
    simp [hfull] at this
  · exact fun a ha _ _ _ ↦ (mem_filter.mp ha).2

theorem full_first (hgs : c.attentionGroups = g0 :: rest) (h : g0.spec.isFullAttention = false ∨
      (c.attentionGroups.filter (·.spec.isFullAttention)).length ≤ 1) :
    ∀ g ∈ rest, g.spec.isFullAttention = false := by
  have hsorted := full_sorted c
  rw [hgs] at hsorted h
  intro g hg
  rcases h with h | h
  · have := (pairwise_cons.mp hsorted).1 g hg
    simpa [h] using this
  by_contra hfull
  have hfull : g.spec.isFullAttention = true := by simpa using hfull
  have hfirst := (pairwise_cons.mp hsorted).1 g hg hfull
  rw [filter_cons, if_pos hfirst, length_cons] at h
  have : 0 < (rest.filter (·.spec.isFullAttention)).length :=
    length_pos_of_mem (mem_filter.mpr ⟨hg, hfull⟩)
  omega

/-- The search returns a coherent hit, or runs off the end of hashes that are too few for the hit
length asked for. -/
def Answers (c : HybridKVCacheCoordinator) (p : BlockPool) (blockHashes : List BlockHash)
    (maxLen : ℕ) : Prop :=
  (∃ out, c.findLongestCacheHit p blockHashes maxLen = .ok out ∧ Coherent c maxLen out) ∨
    (c.findLongestCacheHit p blockHashes maxLen = .error .indexError ∧
      HashesTooShort c blockHashes maxLen)

theorem answers_of_regular (hsearch : ∀ g ∈ c.attentionGroups, g.spec.kind.Searchable)
    (hfull : FullTruncated c) (heagle : EagleMambaSmall c) (hp : p.hashBlockSize = c.hashBlockSize)
    (blockHashes) (maxLen) : Answers c p blockHashes maxLen := by
  have hc : Regular c := ⟨hsearch, heagle⟩
  have hready : Ready c maxLen maxLen ⟨maxLen, [], fun _ ↦ none⟩ :=
    ⟨le_rfl, .inl rfl, fun _ _ _ ↦ .inl fun _ _ ↦ rfl⟩
  unfold Answers findLongestCacheHit
  cases hrun : c.searchLoop p blockHashes maxLen (maxLen + 1) maxLen ⟨maxLen, [], fun _ ↦ none⟩ with
  | error e =>
    obtain ⟨rfl, hshort⟩ := searchLoop_error hc hp hready (Nat.lt_succ_self _) hrun
    exact .inr ⟨rfl, hshort⟩
  | ok out =>
    obtain ⟨h, s⟩ := out
    refine .inl ⟨_, rfl, ?_⟩
    obtain ⟨g0, rest, hgs⟩ := exists_cons_of_ne_nil (attentionGroups_ne_nil)
    cases hsimple : c.isSimpleHybrid with
    | false =>
      obtain ⟨hpass, hcurr, hle⟩ := searchLoop_pass hc hsimple hready hrun
      have hdvd := hpass.aligned attentionGroups_ne_nil
      rw [hcurr] at hdvd
      have hexact : ∀ g ∈ c.attentionGroups, g.spec.isFullAttention = false →
          Covers s.hitBlocksByGroup g (· = h) := fun g hg hnot ↦
        (hpass.looked g hg).mono fun n hn ↦ le_antisymm (hn.2 hnot) (hcurr ▸ hn.1)
      have hrest := full_first hgs (by
        rcases hfull with hfull | hfull
        · exact .inr hfull
        · refine .inl ?_
          have hlen : rest.length = 1 := by simpa [hgs] using hfull
          simpa [isSimpleHybrid, hgs, hlen] using hsimple)
      exact coherent_of_covers hgs hle hdvd
        ((hpass.looked g0 (by simp [hgs])).mono fun n hn ↦ hcurr ▸ hn.1)
        (hexact g0 (by simp [hgs]))
        (fun g hg ↦ hexact g (by simp [hgs, hg]) (hrest g hg))
    | true =>
      -- two groups, the first of them full attention: one turn decides
      obtain ⟨g1, rfl⟩ : ∃ g1, rest = [g1] := by
        have hlen : rest.length = 1 := by
          simp only [isSimpleHybrid, hgs, decide_eq_true_eq] at hsimple
          simpa using hsimple.1
        exact length_eq_one_iff.mp hlen
      unfold searchLoop at hrun
      split at hrun
      · cases hrun
      next t ht =>
        have hpass := scanGroups_pass hc le_rfl (nil_append _).symm hready.pass ht
        obtain ⟨rfl, rfl⟩ : t.currHitLength = h ∧ t = s := by
          rw [hsimple] at hrun
          split at hrun
          next hge =>
            simp only [Except.ok.injEq, Prod.mk.injEq] at hrun
            exact ⟨(le_antisymm hpass.le hge).trans hrun.1, hrun.2⟩
          · simpa using hrun
        have hlast := scanGroups_two hgs ht
        exact coherent_of_covers hgs hpass.le (hpass.aligned attentionGroups_ne_nil)
          ((hpass.looked g0 (by simp [hgs])).mono fun n hn ↦ hn.1)
          (fun hnot ↦ by simp [isSimpleHybrid, hgs, hnot] at hsimple)
          (by simpa using hlast)

end VllmEngine.Core.HybridKVCacheCoordinator

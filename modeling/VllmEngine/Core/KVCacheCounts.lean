import VllmEngine.Core.HashInputs
import VllmEngine.Core.KVCacheRun
import VllmEngine.Core.PoolRun

namespace VllmEngine.Core.KVCacheManager

open Lib BlockHash BlockPool SingleTypeKVCacheManager List

variable {H : Hashing} {R : Request → Prop} {cfg : KVCacheManagerConfig} {owned : Ref → Prop}
  {null : Ref} {k k' : KVCacheManager} {p p' : BlockPool}

def sinkBlocks (k : KVCacheManager) : List Ref := k.singleTypeManagers.flatMap (·.sinkBlocks)

theorem SameShape.sinkBlocks_eq (h : SameShape k k') : k'.sinkBlocks = k.sinkBlocks := by
  have hsinks := congrArg (flatMap fun x ↦ x.2.2.2) h.fixed
  rwa [flatMap_map, flatMap_map] at hsinks

def blockAt (k : KVCacheManager) (g : ℕ) (id : ReqId) (i : ℕ) : Option Ref :=
  k.singleTypeManagers[g]?.bind fun m ↦ (m.table id)[i]?

theorem blockAt_eq_some {g id i b} : k.blockAt g id i = some b ↔
      ∃ m, k.singleTypeManagers[g]? = some m ∧ (m.table id)[i]? = some b :=
  Option.bind_eq_some_iff

theorem init_matches {groups ms coordinator} (hgroups : groups = cfg.kvCacheConfig.kvCacheGroups)
    (hcoord : getKvCacheCoordinator cfg = .ok coordinator) (hlen : ms.length = groups.length)
    (hms : ∀ j m, ms[j]? = some m → ∃ g, groups[j]? = some g ∧ New g j cfg.enableCaching m) :
    Matches ⟨cfg.maxModelLen, cfg.enableCaching, coordinator, ms⟩ := by
  subst hgroups
  have hgroup : ∀ (i : ℕ) m, ms[i]? = some m → m.kvCacheGroupId = i := by
    intro i m hi
    obtain ⟨g, -, hnew⟩ := hms i m hi
    exact hnew.group
  unfold getKvCacheCoordinator at hcoord
  dsimp only at hcoord
  split at hcoord
  · split at hcoord
    next g hone =>
      split at hcoord
      · cases hcoord
        refine ⟨hgroup, fun i m hi ↦ ?_, fun _ ↦ ?_⟩
        · obtain ⟨g', hg', hnew⟩ := hms i m hi
          rw [hone] at hg'
          cases i with
          | zero =>
            obtain rfl : g = g' := by simpa using hg'
            exact ⟨rfl, hnew.spec⟩
          | succ i => simp at hg'
        · simp [hlen, hone]
      · cases hcoord
    next =>
      split at hcoord
      next hc =>
        cases hcoord
        refine ⟨hgroup, fun i m hi ↦ ?_, fun _ ↦ hlen ▸ hc.2.2.2⟩
        obtain ⟨g', hg', hnew⟩ := hms i m hi
        exact ⟨g', hg', hnew.spec.symm⟩
      · cases hcoord
  next hcaching =>
    cases hcoord
    exact ⟨hgroup, fun _ _ _ ↦ trivial, fun hc ↦ absurd hc hcaching⟩

/-- The state of a run: the tables are in order, and can hold the blocks that are not set aside. -/
structure Accounted (R : Request → Prop) (n : ℕ) (k : KVCacheManager) (p : BlockPool) : Prop where
  sane : Sane R (Usable n k.sinkBlocks) (.blk 0) k p
  coordinated : Matches k
  numGpuBlocks : p.numGpuBlocks = n
  split : ∃ free, k.sinkBlocks ++ free = (range' 1 (n - 1)).map Ref.blk

theorem init_managers (h : KVCacheManager.init cfg = .ok (k, p)) :
    ∀ m ∈ k.singleTypeManagers, ∃ g ∈ cfg.kvCacheConfig.kvCacheGroups, ∃ i,
      New g i cfg.enableCaching m := by
  unfold KVCacheManager.init at h
  split at h
  · cases h
  next p0 hp0 =>
    obtain ⟨⟨free0, hstart0⟩, -, -⟩ := init_start hp0
    split at h
    · cases h
    · cases h
    next ms p1 coordinator hms hcoord =>
      obtain ⟨rfl, -⟩ : (⟨cfg.maxModelLen, cfg.enableCaching, coordinator, ms⟩ : KVCacheManager) = k ∧
          p1 = p := by simpa using h
      obtain ⟨-, -, -, hnew⟩ := (initManagers_start hstart0).ok hms
      intro m hm
      obtain ⟨i, hi⟩ := mem_iff_getElem?.mp hm
      obtain ⟨g, hg, hm⟩ := hnew i m hi
      exact ⟨g, mem_of_getElem? hg, _, hm⟩

theorem init_accounted
    (hR : ∀ g ∈ cfg.kvCacheConfig.kvCacheGroups, Distinct R cfg.hashBlockSize g.kvCacheSpec.blockSize)
    (h : KVCacheManager.init cfg = .ok (k, p)) : Accounted R cfg.kvCacheConfig.numBlocks k p := by
  have hmem := init_managers h
  unfold KVCacheManager.init at h
  split at h
  · cases h
  next p0 hp0 =>
    obtain ⟨⟨free0, hstart0⟩, hcaching, hsize⟩ := init_start hp0
    split at h
    · cases h
    · cases h
    next ms p1 coordinator hms hcoord =>
      obtain ⟨rfl, rfl⟩ : (⟨cfg.maxModelLen, cfg.enableCaching, coordinator, ms⟩ : KVCacheManager) = k ∧
          p1 = p := by simpa using h
      obtain ⟨hcfg, ⟨free, hstart⟩, hlen, hnew⟩ := (initManagers_start hstart0).ok hms
      simp only [nil_append, Nat.zero_add] at hstart hnew
      have hzero : ∀ b, occurrencesOf ms b = 0 := by
        intro b
        refine sum_eq_zero fun n hn ↦ ?_
        obtain ⟨m, hm, rfl⟩ := mem_map.mp hn
        obtain ⟨g, -, i, hm⟩ := hmem m hm
        rw [occurrences, hm.tables]
        rfl
      refine ⟨⟨⟨hstart.held.congr fun b _ ↦ hzero b, fun m hm ↦ ?_, fun m hm ↦ ?_⟩,
        fun m hm id ↦ ?_, ?_⟩, init_matches rfl hcoord hlen hnew, hstart.numGpuBlocks,
        ⟨free, hstart.split⟩⟩
      · obtain ⟨g, -, i, hm⟩ := hmem m hm
        exact ⟨fun id b hb ↦ by simp [hm.table_eq] at hb, fun id i b _ hb ↦ by simp [hm.table_eq] at hb⟩
      · obtain ⟨g, hg, i, hm⟩ := hmem m hm
        rw [blockSize, hm.spec,
          show p1.hashBlockSize = cfg.hashBlockSize from
            (congrArg Config.hashBlockSize hcfg).trans hsize]
        exact hR g hg
      · obtain ⟨g, -, i, hm⟩ := hmem m hm
        intro s _
        exact ⟨fun ha ↦ by simp [hm.allocated] at ha, fun i b _ hb ↦ by simp [hm.table_eq] at hb⟩
      · exact (congrArg Config.enableCaching hcfg).trans hcaching

section

variable (h : Reached H R cfg k p)
  (hR : ∀ g ∈ cfg.kvCacheConfig.kvCacheGroups, Distinct R cfg.hashBlockSize g.kvCacheSpec.blockSize)

include h hR

theorem Reached.accounted : Accounted R cfg.kvCacheConfig.numBlocks k p := by
  induction h with
  | init h => exact init_accounted hR h
  | call c h hRc hc hrun ih =>
    obtain ⟨hs, hshape, hcfg⟩ := (c.run_sane ih.sane ih.coordinated hRc hc H).ok hrun
    refine ⟨?_, ih.coordinated.congr hshape, ?_, ?_⟩
    · rw [hshape.sinkBlocks_eq]
      exact hs
    · exact (congrArg Config.numGpuBlocks hcfg).trans ih.numGpuBlocks
    · rw [hshape.sinkBlocks_eq]
      exact ih.split

theorem Reached.coordinator_eq : getKvCacheCoordinator cfg = .ok k.coordinator := by
  induction h with
  | init h =>
    unfold KVCacheManager.init at h
    split at h
    · cases h
    split at h
    · cases h
    · cases h
    next hcoord =>
      simp only [Except.ok.injEq, Prod.mk.injEq] at h
      rw [hcoord, ← h.1]
  | call c h hRc hc hrun ih =>
    have hacc := h.accounted hR
    rw [ih, ((c.run_sane hacc.sane hacc.coordinated hRc hc H).ok hrun).2.1.coordinator]

end

theorem Sane.same_place (h : Sane R owned null k p) (hm : Matches k) {b} (hb : b ≠ null)
    {g g' id id' i i'} (hat : k.blockAt g id i = some b) (hat' : k.blockAt g' id' i' = some b) :
    g = g' ∧ i = i' ∧ (id ≠ id' → (p.blockHash b).isSome) := by
  obtain ⟨m, hg, hi⟩ := blockAt_eq_some.mp hat
  obtain ⟨m', hg', hi'⟩ := blockAt_eq_some.mp hat'
  have hmem := mem_of_getElem? hg
  have hmem' := mem_of_getElem? hg'
  cases hkey : p.blockHash b with
  | none =>
    -- A block without a hash has one place only.
    obtain ⟨rest, hkept, hrest⟩ := h.joint.kept_at hg
    have hgg : g = g' := by
      by_contra hne
      have hpos := occurrencesOf_pos (hrest g' m' (Ne.symm hne) hg') (mem_of_getElem? hi')
      obtain ⟨-, -, hzero⟩ := hkept.unique hb hkey hi hi
      omega
    subst hgg
    obtain rfl := Option.some.inj (hg.symm.trans hg')
    obtain ⟨hid, hii, -⟩ := hkept.unique hb hkey hi hi'
    exact ⟨rfl, hii, fun hne ↦ absurd hid hne⟩
  | some key =>
    -- Its key names the group, and in the group the index.
    have hcaching : k.enableCaching = true := by
      by_contra hoff
      have hnone := h.joint.held.uncached (h.caching.trans (Bool.eq_false_of_not_eq_true hoff)) b
      simp [hkey] at hnone
    have hfits : ∀ (g : ℕ) m, k.singleTypeManagers[g]? = some m → g < 2 ^ 32 := fun g m hg ↦
      (List.getElem?_eq_some_iff.mp hg).1.trans (hm.fits hcaching)
    have hat := (h.joint.tables m hmem).keyed id i b key hi hkey
    have hat' := (h.joint.tables m' hmem').keyed id' i' b key hi' hkey
    rw [hm.group g m hg] at hat
    rw [hm.group g' m' hg'] at hat'
    have hgg : g = g' := by
      obtain ⟨_, _, -, -, -, hx⟩ := hat
      obtain ⟨_, _, -, -, -, hx'⟩ := hat'
      exact (make_inj (hfits g m hg) (hfits g' m' hg') (hx.symm.trans hx')).2
    subst hgg
    obtain rfl := Option.some.inj (hg.symm.trans hg')
    exact ⟨rfl, hat.index_eq (h.joint.distinct m hmem) hat', fun _ ↦ rfl⟩

theorem Accounted.numFree {n} (h : Accounted R n k p)
    (hempty : ∀ m ∈ k.singleTypeManagers, ∀ id, m.table id = []) :
    p.getNumFreeBlocks + k.sinkBlocks.length + 1 = n := by
  obtain ⟨L, hL, hheld⟩ := h.sane.joint.held.counted
  obtain ⟨free, hsplit⟩ := h.split
  have hzero : ∀ b, occurrencesOf k.singleTypeManagers b = 0 := by
    intro b
    refine sum_eq_zero fun x hx ↦ ?_
    obtain ⟨m, hm, rfl⟩ := mem_map.mp hx
    exact m.occurrences_eq_zero (hempty m hm) b
  have hnodup : (k.sinkBlocks ++ free).Nodup := by
    rw [hsplit]
    exact List.Nodup.map (fun _ _ h ↦ Ref.blk.inj h) nodup_range'
  have hperm : L.free.Perm free := by
    refine (perm_ext_iff_of_nodup hL.sound.nodup (nodup_append.mp hnodup).2.1).mpr fun b ↦ ?_
    rw [hL.sound.mem_free, ← usable_iff_mem hsplit]
    exact ⟨fun hb ↦ hb.1, fun hb ↦ ⟨hb, (hheld b hb.2.1).trans (hzero b)⟩⟩
  have hlen := congrArg length hsplit
  rw [length_append, length_map, length_range', ← hperm.length_eq] at hlen
  have hpos : 0 < n := by
    have hmem := h.sane.joint.held.mem_blocks (.blk 0) (.inr rfl)
    rw [blocks, h.numGpuBlocks] at hmem
    simpa using hmem
  rw [getNumFreeBlocks, hL.queue.count]
  omega

/-- In every state reached, the reference counts are the occurrences in the tables, a block has one
group and one index, and only blocks with a hash are shared. When no request holds a block, all are
free but the null block and the sink blocks. -/
theorem tables_account_for_references (h : Reached H R cfg k p)
    (hR : ∀ g ∈ cfg.kvCacheConfig.kvCacheGroups, Distinct R cfg.hashBlockSize g.kvCacheSpec.blockSize) :
    (∀ b ∈ p.blocks, b ≠ p.nullBlock → p.refCnt b = occurrencesOf k.singleTypeManagers b) ∧
      (∀ b, b ≠ p.nullBlock → ∀ g id i g' id' i', k.blockAt g id i = some b →
        k.blockAt g' id' i' = some b → g = g' ∧ i = i' ∧ (id ≠ id' → (p.blockHash b).isSome)) ∧
      ((∀ m ∈ k.singleTypeManagers, ∀ id, m.table id = []) →
        p.getNumFreeBlocks = p.numGpuBlocks - 1 - k.sinkBlocks.length) := by
  have hacc := h.accounted hR
  have hnull : p.nullBlock = .blk 0 := hacc.sane.joint.held.nullBlock
  rw [hnull]
  refine ⟨fun b _ hb ↦ ?_, fun b hb g id i g' id' i' hat hat' ↦ ?_, fun hempty ↦ ?_⟩
  · rw [hacc.sane.joint.held.refCnt hb]
  · exact hacc.sane.same_place hacc.coordinated hb hat hat'
  · have hfree := hacc.numFree hempty
    rw [hacc.numGpuBlocks]
    omega

def runCalls (H : Hashing) : List Call → KVCacheManager → BlockPool → Option
    (KVCacheManager × BlockPool)
  | [], k, p => some (k, p)
  | c :: cs, k, p =>
    match c.run H k p with
    | .ok k' p' => runCalls H cs k' p'
    | .error .. => none

def runFrom (H : Hashing) (cfg : KVCacheManagerConfig) (cs : List Call) :
    Option (KVCacheManager × BlockPool) :=
  match KVCacheManager.init cfg with
  | .ok (k, p) => runCalls H cs k p
  | .error _ => none

def NoAlign (k : KVCacheManager) : Prop := ∀ m ∈ k.singleTypeManagers, ∀ s, m.kind ≠ .mamba .align s

theorem covered_of_noAlign (h : NoAlign k) (c : Call) : c.Covered k p := by
  cases c with
  | newRequest request a =>
    intro hits n _ i m l hi _ s hs
    exact absurd hs (h m (mem_of_getElem? hi) s)
  | runningRequest | free | resetPrefixCache | newStepStarts => trivial

theorem SameShape.noAlign (h : SameShape k k') (hk : NoAlign k) : NoAlign k' := by
  intro m' hm' s hs
  obtain ⟨i, hi⟩ := mem_iff_getElem?.mp hm'
  obtain ⟨m, hm, hfixed⟩ := h.getElem? hi
  have hspec : m'.kvCacheSpec = m.kvCacheSpec := congrArg (·.1) hfixed
  rw [kind, hspec] at hs
  exact hk m (mem_of_getElem? hm) s hs

theorem Reached.runCalls (h : Reached H R cfg k p)
    (hR : ∀ g ∈ cfg.kvCacheConfig.kvCacheGroups, Distinct R cfg.hashBlockSize g.kvCacheSpec.blockSize)
    (hk : NoAlign k) {cs} (hcs : ∀ c ∈ cs, c.Of R)
    (hrun : runCalls H cs k p = some (k', p')) : Reached H R cfg k' p' := by
  induction cs generalizing k p with
  | nil =>
    obtain ⟨rfl, rfl⟩ : k = k' ∧ p = p' := by simpa [KVCacheManager.runCalls] using hrun
    exact h
  | cons c cs ih =>
    unfold KVCacheManager.runCalls at hrun
    split at hrun
    next k1 p1 hc =>
      have hof := hcs c mem_cons_self
      have hcov := covered_of_noAlign (p := p) hk c
      have hacc := h.accounted hR
      have hshape := ((c.run_sane hacc.sane hacc.coordinated hof hcov H).ok hc).2.1
      exact ih (.call c h hof hcov hc) (hshape.noAlign hk)
        (fun c hc ↦ hcs c (mem_cons_of_mem _ hc)) hrun
    · cases hrun

theorem reached_of_runFrom
    (hR : ∀ g ∈ cfg.kvCacheConfig.kvCacheGroups, Distinct R cfg.hashBlockSize g.kvCacheSpec.blockSize)
    (halign : ∀ g ∈ cfg.kvCacheConfig.kvCacheGroups, ∀ s, g.kvCacheSpec.kind ≠ .mamba .align s)
    {cs} (hcs : ∀ c ∈ cs, c.Of R) (hrun : runFrom H cfg cs = some (k, p)) :
    Reached H R cfg k p := by
  unfold runFrom at hrun
  split at hrun
  next k0 p0 hinit =>
    refine Reached.runCalls (.init hinit) hR (fun m hm s hs ↦ ?_) hcs hrun
    obtain ⟨g, hg, i, hnew⟩ := init_managers hinit m hm
    rw [kind, hnew.spec] at hs
    exact halign g hg s hs
  · cases hrun

def sinkConfig : KVCacheManagerConfig where
  kvCacheConfig := ⟨6, [⟨⟨.sinkFullAttention 2, 2, 0⟩, false⟩]⟩
  maxModelLen := 16
  hashBlockSize := 2

def shortRequest (requestId : ReqId) : Request :=
  { requestId, allTokenIds := [5, 6, 7], blockHashes := [[1]] }

def IsShort (r : Request) : Prop := r = shortRequest "r" ∨ r = shortRequest "s"

theorem isShort_distinct : ∀ g ∈ sinkConfig.kvCacheConfig.kvCacheGroups,
    Distinct IsShort sinkConfig.hashBlockSize g.kvCacheSpec.blockSize := by
  intro g hg r r' i i' _ hr hr' hi hi' _ _
  obtain rfl := mem_singleton.mp hg
  have htokens : ∀ r, IsShort r → r.numTokens = 3 := by
    rintro r (rfl | rfl) <;> rfl
  rw [htokens r hr] at hi
  rw [htokens r' hr'] at hi'
  have hi : (i + 1) * 2 ≤ 3 := hi
  have hi' : (i' + 1) * 2 ≤ 3 := hi'
  omega

/-- Once the request is freed, the sink block is still neither free nor in a table. -/
theorem sink_block_stays_reserved : ∃ k p, Reached byteHashing IsShort sinkConfig k p ∧
      (∀ m ∈ k.singleTypeManagers, ∀ id, m.table id = []) ∧
      p.getNumFreeBlocks ≠ p.numGpuBlocks - 1 := by
  have hrun : ∃ out ∈ runFrom byteHashing sinkConfig
      [.newRequest (shortRequest "r") ⟨3, 0, 0, false⟩, .free "r"],
        (∀ m ∈ out.1.singleTypeManagers, m.reqToBlocks.entries = []) ∧
          out.2.getNumFreeBlocks ≠ out.2.numGpuBlocks - 1 := by
    decide +kernel
  obtain ⟨⟨k, p⟩, hout, hempty, hfree⟩ := hrun
  refine ⟨k, p, reached_of_runFrom isShort_distinct (by simp [sinkConfig]) ?_ hout, fun m hm id ↦ ?_, hfree⟩
  · simp [Call.Of, IsShort]
  · simp [table, Dict.get?, hempty m hm, Dict.lookup]

theorem tables_account_for_shared_block : ∃ k p, Reached byteHashing IsShort sinkConfig k p ∧
      k.blockAt 0 "r" 0 = some (.blk 2) ∧ k.blockAt 0 "s" 0 = some (.blk 2) ∧ p.refCnt (.blk 2) = 2 ∧
      (∀ b ∈ p.blocks, b ≠ p.nullBlock → p.refCnt b = occurrencesOf k.singleTypeManagers b) ∧
      (p.blockHash (.blk 2)).isSome := by
  have hrun : ∃ out ∈ runFrom byteHashing sinkConfig
      [.newRequest (shortRequest "r") ⟨3, 0, 0, false⟩, .newRequest (shortRequest "s") ⟨1, 0, 0, false⟩],
        out.1.blockAt 0 "r" 0 = some (.blk 2) ∧ out.1.blockAt 0 "s" 0 = some (.blk 2) ∧
          out.2.refCnt (.blk 2) = 2 ∧ out.2.nullBlock = .blk 0 := by
    decide +kernel
  obtain ⟨⟨k, p⟩, hout, hr, hs, hcnt, hnull⟩ := hrun
  have hreached : Reached byteHashing IsShort sinkConfig k p :=
    reached_of_runFrom isShort_distinct (by simp [sinkConfig]) (by simp [Call.Of, IsShort]) hout
  obtain ⟨hcount, hplace, -⟩ := tables_account_for_references hreached isShort_distinct
  have hne : Ref.blk 2 ≠ p.nullBlock := by
    rw [show p.nullBlock = .blk 0 from hnull]
    decide
  exact ⟨k, p, hreached, hr, hs, hcnt, hcount, (hplace _ hne _ _ _ _ _ _ hr hs).2.2 (by decide)⟩

end VllmEngine.Core.KVCacheManager

import VllmEngine.Core.HitSources
import VllmEngine.Core.KVCacheStart

namespace VllmEngine.Core.KVCacheManager

open Lib BlockHash BlockPool SingleTypeKVCacheManager List

/-- The arguments of `allocate_slots` that the scheduler chooses without a KV connector. -/
structure StepArgs where
  numNewTokens : ℕ
  numLookaheadTokens : ℕ := 0
  numEncoderTokens : ℕ := 0
  fullSequenceMustFit : Bool := false

def StepArgs.slotArgs (a : StepArgs) (newComputedBlocks : KVCacheBlocks) (numNewComputedTokens : ℕ) :
    SlotArgs where
  numNewTokens := a.numNewTokens
  numNewComputedTokens
  newComputedBlocks
  numLookaheadTokens := a.numLookaheadTokens
  numEncoderTokens := a.numEncoderTokens
  fullSequenceMustFit := a.fullSequenceMustFit

/-- The calls of the scheduler: `get_computed_blocks` and `allocate_slots` for a new request,
`allocate_slots` for a running one, and those that take no slots. -/
inductive Call
  | newRequest (request : Request) (a : StepArgs)
  | runningRequest (request : Request) (a : StepArgs)
  | free (requestId : ReqId)
  | resetPrefixCache
  | newStepStarts

namespace Call

def run (H : Hashing) (k : KVCacheManager) : Call → ManagerM KVCacheManager
  | .newRequest request a => do
    let p ← get
    match k.getComputedBlocks p request with
    | .error e => throw e
    | .ok (newComputedBlocks, numNewComputedTokens) =>
      let out ← k.allocateSlots H request (a.slotArgs newComputedBlocks numNewComputedTokens)
      pure out.1
  | .runningRequest request a => do
    let out ← k.allocateSlots H request (a.slotArgs none 0)
    pure out.1
  | .free requestId => k.free requestId
  | .resetPrefixCache => do
    let _ ← onPool BlockPool.resetPrefixCache
    pure k
  | .newStepStarts => pure k.newStepStarts

def Of (R : Request → Prop) : Call → Prop
  | .newRequest request _ | .runningRequest request _ => R request
  | .free _ | .resetPrefixCache | .newStepStarts => True

def Covered (k : KVCacheManager) (p : BlockPool) : Call → Prop
  | .newRequest request a => ∀ hits n, k.getComputedBlocks p request = .ok (hits, n) →
      ∀ (i : ℕ) m l, k.singleTypeManagers[i]? = some m → ((a.slotArgs hits n).hits k)[i]? = some l →
        ∀ s, m.kind = .mamba .align s →
          l.length ≤ cdiv ((a.slotArgs hits n).numTokensMainModel k request) m.blockSize
  | .runningRequest .. | .free _ | .resetPrefixCache | .newStepStarts => True

end Call

/-- The states that calls with requests of `R` lead to. A call that raises ends the run. -/
inductive Reached (H : Hashing) (R : Request → Prop) (cfg : KVCacheManagerConfig) :
    KVCacheManager → BlockPool → Prop
  | init {k p} (h : KVCacheManager.init cfg = .ok (k, p)) : Reached H R cfg k p
  | call {k p k' p'} (c : Call) (h : Reached H R cfg k p) (hR : c.Of R) (hc : c.Covered k p)
      (hrun : c.run H k p = .ok k' p') : Reached H R cfg k' p'

variable {R : Request → Prop} {owned : Ref → Prop} {null : Ref} {k k' : KVCacheManager}
  {p p' : BlockPool}

structure Matches (k : KVCacheManager) : Prop where
  group : ∀ (i : ℕ) m, k.singleTypeManagers[i]? = some m → m.kvCacheGroupId = i
  spec : ∀ (i : ℕ) m, k.singleTypeManagers[i]? = some m →
    match k.coordinator with
    | .noPrefixCache _ => True
    | .unitary spec _ => i = 0 ∧ m.kvCacheSpec = spec
    | .hybrid c => ∃ g, c.kvCacheGroups[i]? = some g ∧ g.kvCacheSpec = m.kvCacheSpec
  fits : k.enableCaching = true → k.singleTypeManagers.length < 2 ^ 32

theorem SameShape.getElem? (h : SameShape k k') {i : ℕ} {m'}
    (hm' : k'.singleTypeManagers[i]? = some m') :
    ∃ m, k.singleTypeManagers[i]? = some m ∧ m'.fixed = m.fixed := by
  have hfixed := congrArg (·[i]?) h.fixed
  simp only [getElem?_map, hm', Option.map_some] at hfixed
  obtain ⟨m, hm, hmm'⟩ := Option.map_eq_some_iff.mp hfixed.symm
  exact ⟨m, hm, hmm'.symm⟩

theorem Matches.congr (h : Matches k) (hs : SameShape k k') : Matches k' := by
  refine ⟨fun i m' hm' ↦ ?_, fun i m' hm' ↦ ?_, fun hc ↦ ?_⟩
  · obtain ⟨m, hm, hfixed⟩ := hs.getElem? hm'
    exact (congrArg (·.2.1) hfixed).trans (h.group i m hm)
  · obtain ⟨m, hm, hfixed⟩ := hs.getElem? hm'
    rw [hs.coordinator, show m'.kvCacheSpec = m.kvCacheSpec from congrArg (·.1) hfixed]
    exact h.spec i m hm
  · have hlen := congrArg length hs.fixed
    rw [length_map, length_map] at hlen
    exact hlen ▸ h.fits (hs.caching ▸ hc)

section

variable (h : Sane R owned null k p)

include h

variable {m : SingleTypeKVCacheManager} {request : Request} {l : List Ref}

theorem hits_of_entries (hr : R request)
    (hl : ∀ i b, l[i]? = some b → HitEntry p request.blockHashes m.blockSize m.kvCacheGroupId
      (request.numTokens - 1) i b) : Hits R null m p l := by
  intro i b hb
  rcases hl i b hb with hn | ⟨x, hx, hle, hone⟩
  · exact .inl (hn.trans h.joint.held.nullBlock)
  · have hstored := BlockHashToBlockMap.stored_of_getOneBlock hone
    refine .inr ⟨_, (h.joint.held.indexed.stored _ b).mp hstored, request, x, hr, ?_, hx, rfl⟩
    exact hle.trans (Nat.sub_le _ _)

theorem findLongestCacheHit_hits (hm : Matches k) (hr : R request) {blocks} {n : ℕ}
    (hfind : k.findLongestCacheHit p request.blockHashes (request.numTokens - 1) = .ok (blocks, n))
    {i : ℕ} (hi : k.singleTypeManagers[i]? = some m)
    (hl : blocks[i]? = some l) : Hits R null m p l := by
  have hspec := hm.spec i m hi
  have hgroup := hm.group i m hi
  refine hits_of_entries h hr fun j b hb ↦ ?_
  unfold findLongestCacheHit at hfind
  split at hfind
  · simp only [Except.ok.injEq, Prod.mk.injEq] at hfind
    rw [← hfind.1] at hl
    obtain rfl := eq_of_mem_replicate (mem_of_getElem? hl)
    simp at hb
  next spec useEagle hc =>
    simp only [hc] at hspec
    obtain ⟨rfl, hspec⟩ := hspec
    dsimp only at hfind
    split at hfind
    · cases hfind
    next rows hrows =>
      simp only [Except.ok.injEq, Prod.mk.injEq] at hfind
      rw [← hfind.1] at hl
      cases hl
      rw [hgroup, blockSize, hspec]
      exact column_entry (CacheHit.Query.findLongestCacheHit_found hrows) rfl hb
  next c hc =>
    simp only [hc] at hspec
    obtain ⟨g, hg, hspec⟩ := hspec
    rw [hgroup, blockSize, ← hspec]
    exact HybridKVCacheCoordinator.findLongestCacheHit_fromCache hfind hg hl hb

theorem getComputedBlocks_hits (hm : Matches k) (hr : R request) {hits} {n : ℕ}
    (hget : k.getComputedBlocks p request = .ok (hits, n)) (a : StepArgs) {i : ℕ}
    (hi : k.singleTypeManagers[i]? = some m) (hl : ((a.slotArgs hits n).hits k)[i]? = some l) :
    Hits R null m p l := by
  have hempty : (replicate k.singleTypeManagers.length ([] : List Ref))[i]? = some l →
      Hits R null m p l := by
    intro hl j b hb
    obtain rfl := eq_of_mem_replicate (mem_of_getElem? hl)
    simp at hb
  unfold getComputedBlocks at hget
  split at hget
  · cases hget
    exact hempty hl
  split at hget
  · cases hget
  next blocks n' hfind =>
    cases hget
    unfold createKvCacheBlocks at hl
    split at hl
    · exact findLongestCacheHit_hits h hm hr hfind hi hl
    · exact hempty hl

theorem resetPrefixCache_sane : Ensures (onPool BlockPool.resetPrefixCache) p
      (fun _ p' ↦ Sane R owned null k p' ∧ p'.config = p.config) := by
  refine onPool_returns ((resetPrefixCache_held h.joint.held).mono ?_)
  rintro _ p' ⟨hheld, hcfg, hhash⟩
  have hun : ∀ m ∈ k.singleTypeManagers, Unnoticed null m p p' := fun m hm ↦
    ⟨hcfg, fun id b hb hn ↦ hhash b hn (occurrencesOf_pos hm hb)⟩
  refine ⟨⟨⟨hheld, fun m hm ↦ ?_, fun m hm ↦ ?_⟩, fun m hm id ↦ ?_, ?_⟩, hcfg⟩
  · exact (hun m hm).tables (h.joint.tables m hm) hheld.blockHash_null
  · rw [show p'.hashBlockSize = p.hashBlockSize from congrArg Config.hashBlockSize hcfg]
    exact h.joint.distinct m hm
  · exact (hun m hm).settled (h.settled m hm id)
  · exact (congrArg Config.enableCaching hcfg).trans h.caching

end

theorem newStepStarts_eq (m : SingleTypeKVCacheManager) :
    ∃ cached, m.newStepStarts = { m with cachedBlocksThisStep := cached } := by
  unfold SingleTypeKVCacheManager.newStepStarts
  split
  · exact ⟨[], rfl⟩
  all_goals exact ⟨m.cachedBlocksThisStep, rfl⟩

theorem newStepStarts_sane (h : Sane R owned null k p) :
    Sane R owned null k.newStepStarts p ∧ SameShape k k.newStepStarts := by
  have hcount : occurrencesOf k.newStepStarts.singleTypeManagers =
      occurrencesOf k.singleTypeManagers := by
    funext b
    simp only [occurrencesOf, newStepStarts, map_map]
    refine congrArg sum (map_congr_left fun m _ ↦ ?_)
    obtain ⟨cached, hm⟩ := newStepStarts_eq m
    simp only [Function.comp_apply, hm]
    rfl
  have hmem : ∀ m' ∈ k.newStepStarts.singleTypeManagers, ∃ m ∈ k.singleTypeManagers, ∃ cached,
      m' = { m with cachedBlocksThisStep := cached } := by
    intro m' hm'
    obtain ⟨m, hm, rfl⟩ := mem_map.mp hm'
    exact ⟨m, hm, newStepStarts_eq m⟩
  refine ⟨⟨⟨hcount ▸ h.joint.held, fun m' hm' ↦ ?_, fun m' hm' ↦ ?_⟩, fun m' hm' ↦ ?_, h.caching⟩,
    rfl, rfl, rfl, ?_⟩
  · obtain ⟨m, hm, cached, rfl⟩ := hmem m' hm'
    exact ⟨(h.joint.tables m hm).mem, (h.joint.tables m hm).keyed⟩
  · obtain ⟨m, hm, cached, rfl⟩ := hmem m' hm'
    exact h.joint.distinct m hm
  · obtain ⟨m, hm, cached, rfl⟩ := hmem m' hm'
    exact h.settled m hm
  simp only [newStepStarts, map_map]
  refine map_congr_left fun m _ ↦ ?_
  obtain ⟨cached, hm⟩ := newStepStarts_eq m
  simp only [Function.comp_apply, hm]
  rfl

theorem newRequest_hits (h : Sane R owned null k p) (hm : Matches k) {request} (hr : R request)
    {a} (hc : (Call.newRequest request a).Covered k p) {hits} {n : ℕ}
    (hget : k.getComputedBlocks p request = .ok (hits, n)) :
    HitsOf R null ((a.slotArgs hits n).numTokensMainModel k request) ((a.slotArgs hits n).hits k) k p :=
  fun i m l hi hl ↦ ⟨getComputedBlocks_hits h hm hr hget a hi hl, hc hits n hget i m l hi hl⟩

theorem runningRequest_hits (main) (a : StepArgs) :
    HitsOf R null main ((a.slotArgs none 0).hits k) k p := by
  intro i m l hi hl
  obtain rfl := eq_of_mem_replicate (mem_of_getElem? hl)
  exact ⟨by simp [Hits], by simp⟩

theorem Call.run_sane [DecidablePred owned] (h : Sane R owned null k p) (hm : Matches k) (c : Call)
    (hR : c.Of R) (hc : c.Covered k p) (H) :
    Ensures (c.run H k) p
      (fun k' p' ↦ Sane R owned null k' p' ∧ SameShape k k' ∧ p'.config = p.config) := by
  cases c with
  | newRequest request a =>
    refine .get_bind ?_
    split
    · exact .throw trivial
    next hits n hget =>
      refine .seq (allocateSlots_sane h hR rfl (newRequest_hits h hm hR hc hget) H) ?_
      exact fun out p' ho ↦ .pure ho
  | runningRequest request a =>
    refine .seq (allocateSlots_sane h hR rfl (runningRequest_hits _ a) H) ?_
    exact fun out p' ho ↦ .pure ho
  | free requestId => exact free_sane h requestId
  | resetPrefixCache =>
    refine .seq (resetPrefixCache_sane h) ?_
    exact fun _ p' hp' ↦ .pure ⟨hp'.1, .refl k, hp'.2⟩
  | newStepStarts => exact .pure ⟨(newStepStarts_sane h).1, (newStepStarts_sane h).2, rfl⟩

end VllmEngine.Core.KVCacheManager

import VllmEngine.Core.KVCacheSizing
import VllmEngine.Core.SoleRequest
import VllmEngine.Core.PoolRun

namespace VllmEngine.Core

open Lib KVCacheManager List Option BlockPool

/-- The spec of the manager of a full attention group. Its blocks are spread over the ranks that
share a context. -/
def FullAttentionSpec.kvCacheSpec (cfg : VllmConfig) (spec : FullAttentionSpec) : KVCacheSpec where
  kind :=
    match spec.sinkLen with
    | none => .fullAttention
    | some sinkLen => .sinkFullAttention sinkLen
  blockSize := spec.blockSize * cfg.worldSize

namespace Startup

def schedulerSpec (g : LayerGroup) (workers : List Worker) : Option FullAttentionSpec := do
  let w ← workers.head?
  match (g.project w).kvCacheSpec with
  | .layer spec => some spec
  | .uniformType specs => specs.kvCacheSpecs.head?.map (·.2)

structure ManagerOptions where
  enableCaching : Bool := true
  useEagle : Bool := false
  isEagleGroup : Bool := false
  maxNumBatchedTokens : Option ℕ := none
  enableKvCacheEvents : Bool := false
  useIntBlockHashes : Bool := false

def managerConfig (cfg : VllmConfig) (spec : FullAttentionSpec) (s : Sizes) (o : ManagerOptions) :
    KVCacheManagerConfig where
  kvCacheConfig := {
    numBlocks := s.numBlocks
    kvCacheGroups := [{ kvCacheSpec := spec.kvCacheSpec cfg, isEagleGroup := o.isEagleGroup }] }
  maxModelLen := s.maxModelLen
  hashBlockSize := spec.blockSize * cfg.worldSize
  maxNumBatchedTokens := o.maxNumBatchedTokens
  enableCaching := o.enableCaching
  useEagle := o.useEagle
  enableKvCacheEvents := o.enableKvCacheEvents
  useIntBlockHashes := o.useIntBlockHashes

end Startup

structure Chunk where
  request : Request
  numNewTokens : ℕ
  numLookaheadTokens : ℕ := 0
  fullSequenceMustFit : Bool := false

namespace Chunk

def args (c : Chunk) : SlotArgs where
  numNewTokens := c.numNewTokens
  numLookaheadTokens := c.numLookaheadTokens
  fullSequenceMustFit := c.fullSequenceMustFit

/-- A step of the request `id`, which stays below `maxModelLen`. There is no lookahead in the first
step. -/
structure Of (id : ReqId) (lookahead size maxModelLen : ℕ) (c : Chunk) : Prop where
  id : c.request.requestId = id
  positive : 0 < c.numNewTokens
  computed : c.request.numComputedTokens + c.numNewTokens < maxModelLen
  length : c.request.numTokens < maxModelLen
  lookahead : c.numLookaheadTokens = if c.request.numComputedTokens = 0 then 0 else lookahead
  hashed : c.request.numTokens / size ≤ c.request.blockHashes.length

/-- Every step starts within the tokens computed before it, of which some may have been rejected. -/
def Follow : ℕ → List Chunk → Prop
  | _, [] => True
  | done, c :: cs =>
    c.request.numComputedTokens ≤ done ∧ Follow (c.request.numComputedTokens + c.numNewTokens) cs

def serve (H : Hashing) : List Chunk → KVCacheManager → ManagerM (Option KVCacheManager)
  | [], k => pure (some k)
  | c :: cs, k => do
    let out ← k.allocateSlots H c.request c.args
    if out.2.isSome then serve H cs out.1 else pure none

def refused (H : Hashing) (cs : List Chunk) (k : KVCacheManager) (p : BlockPool) : Bool :=
  match serve H cs k p with
  | .ok none _ => true
  | _ => false

def demand (maxModelLen lookahead : ℕ) : ℕ :=
  if lookahead = 0 ∨ maxModelLen < 3 then maxModelLen - 1 else maxModelLen

variable {id : ReqId} {lookahead size maxModelLen cap : ℕ} {c : Chunk} {k : KVCacheManager}
  {p : BlockPool} {owned : Ref → Prop} {null : Ref} {H : Hashing} {cs : List Chunk}

theorem of_refused (h : refused H cs k p = true) : ∃ p', serve H cs k p = .ok none p' := by
  unfold refused at h
  split at h
  next p' hok => exact ⟨p', hok⟩
  · cases h

theorem Of.plain (h : c.Of id lookahead size maxModelLen) :
    Plain size maxModelLen c.request c.args :=
  ⟨h.positive, ⟨rfl, rfl⟩, rfl, h.length.le, h.hashed⟩

theorem numTokensNeedSlot_eq (c : Chunk) (k) :
    c.args.numTokensNeedSlot k c.request = min (min c.request.numComputedTokens k.maxModelLen +
      c.numNewTokens + c.numLookaheadTokens) k.maxModelLen := rfl

theorem Of.need_le (h : c.Of id lookahead size maxModelLen) (hk : k.maxModelLen = maxModelLen) :
    c.args.numTokensNeedSlot k c.request ≤ demand maxModelLen lookahead := by
  have hpos := h.positive
  have hcomp := h.computed
  have hlook := h.lookahead
  rw [numTokensNeedSlot_eq, hk]
  unfold demand
  split at hlook <;> split <;> omega

theorem Of.length_le (h : c.Of id lookahead size maxModelLen) :
    c.request.numTokens ≤ demand maxModelLen lookahead := by
  have hlen := h.length
  unfold demand
  split <;> omega

theorem serve_enough (hcs : ∀ c ∈ cs, c.Of id lookahead size maxModelLen)
    (h : Serves owned null id size cap maxModelLen k p)
    (hcap : cdiv (demand maxModelLen lookahead) size ≤ cap) :
    Succeeds (serve H cs k) p (fun out _ ↦ out.isSome = true) := by
  induction cs generalizing k p with
  | nil => exact .pure rfl
  | cons c cs ih =>
    have hc := hcs c (by simp)
    obtain rfl := hc.id
    have hneed := (cdiv_mono (hc.need_le h.maxModelLen) size).trans hcap
    have hfull := (cdiv_mono ((min_le_left _ k.maxModelLen).trans hc.length_le) size).trans hcap
    refine .seq (h.allocateSlots hc.plain hneed (fun _ ↦ hfull) H) fun out p' ho ↦ ?_
    rw [if_pos ho.1]
    exact ih (fun c hc ↦ hcs c (by simp [hc])) ho.2

theorem serve_short (hc : c.Of id lookahead size maxModelLen)
    (h : Serves owned null id size cap maxModelLen k p)
    (hcap : cap < cdiv (c.args.numTokensNeedSlot k c.request) size) :
    Succeeds (serve H (c :: cs) k) p (fun out _ ↦ out = none) := by
  obtain rfl := hc.id
  refine .seq (h.allocateSlots_short hc.plain hcap H) fun out p' ho ↦ ?_
  rw [ho]
  exact .pure rfl

def requestOf (id : ReqId) (n computed : ℕ) : Request where
  requestId := id
  allTokenIds := replicate n 0
  blockHashes := replicate n []
  numComputedTokens := computed

/-- The steps of a request of `maxModelLen - 1` tokens: all at once, or the last one with lookahead.
-/
def longest (id : ReqId) (maxModelLen lookahead : ℕ) : List Chunk :=
  let n := maxModelLen - 1
  if lookahead = 0 ∨ maxModelLen < 3 then [{ request := requestOf id n 0, numNewTokens := n }]
  else
    [{ request := requestOf id n 0, numNewTokens := n - 1 },
      { request := requestOf id n (n - 1), numNewTokens := 1, numLookaheadTokens := lookahead }]

theorem numTokens_requestOf (id) (n computed) :
    (requestOf id n computed).numTokens = n := length_replicate

theorem of_requestOf (id) (lookahead size) {computed new} (hnew : 0 < new)
    (hle : computed + new < maxModelLen) :
    Of id lookahead size maxModelLen
      { request := requestOf id (maxModelLen - 1) computed, numNewTokens := new,
        numLookaheadTokens := if computed = 0 then 0 else lookahead } := by
  refine ⟨rfl, hnew, hle, ?_, rfl, ?_⟩
  · rw [numTokens_requestOf]
    omega
  · rw [numTokens_requestOf, requestOf, length_replicate]
    exact Nat.div_le_self _ _

theorem longest_of (id) (lookahead size) (hlen : 1 < maxModelLen) :
    ∀ c ∈ longest id maxModelLen lookahead, c.Of id lookahead size maxModelLen := by
  unfold longest
  intro c hc
  split at hc
  · obtain rfl := mem_singleton.mp hc
    exact of_requestOf id lookahead size (by omega) (by omega)
  rcases mem_cons.mp hc with rfl | hc
  · exact of_requestOf id lookahead size (by omega) (by omega)
  obtain rfl := mem_singleton.mp hc
  have hlast : maxModelLen - 1 - 1 + 1 < maxModelLen := by omega
  have := of_requestOf id lookahead size Nat.one_pos hlast
  rwa [if_neg (by omega)] at this

theorem longest_follow (id) (maxModelLen lookahead) :
    Follow 0 (longest id maxModelLen lookahead) := by
  unfold longest
  split
  · exact ⟨le_rfl, trivial⟩
  · refine ⟨le_rfl, ?_, trivial⟩
    dsimp only [requestOf]
    omega

theorem serve_longest (lookahead) (h : Serves owned null id size cap maxModelLen k p)
    (hlen : 1 < maxModelLen) (hcap : cap < cdiv (demand maxModelLen lookahead) size) (H) :
    Succeeds (serve H (longest id maxModelLen lookahead) k) p (fun out _ ↦ out = none) := by
  have hof := longest_of id lookahead size hlen
  unfold longest demand at *
  split at hcap
  next hone =>
    rw [if_pos hone] at hof ⊢
    refine serve_short (hof _ (by simp)) h ?_
    rwa [numTokensNeedSlot_eq, h.maxModelLen, show min (min _ maxModelLen + _ + _) maxModelLen =
      maxModelLen - 1 by dsimp only [requestOf]; omega]
  next htwo =>
    rw [if_neg htwo] at hof ⊢
    have hlast := hof _ (mem_cons_of_mem _ (mem_singleton_self _))
    set first : Chunk := { request := requestOf id (maxModelLen - 1) 0, numNewTokens := _ }
    have hfirst := hof first (mem_cons_self ..)
    rcases Nat.lt_or_ge cap (cdiv (first.args.numTokensNeedSlot k first.request) size)
      with hshort | hneed
    · exact serve_short hfirst h hshort
    refine .seq (h.allocateSlots hfirst.plain hneed (fun hall ↦ nomatch hall) H) fun out p' ho ↦ ?_
    rw [if_pos ho.1]
    refine serve_short hlast ho.2 ?_
    rwa [numTokensNeedSlot_eq, ho.2.maxModelLen, show min (min _ maxModelLen + _ + _) maxModelLen =
      maxModelLen by dsimp only [requestOf]; omega]

end Chunk

namespace Startup

open LayerGroup

variable {cfg : VllmConfig} {g : LayerGroup} {workers : List Worker} {spec : FullAttentionSpec}

theorem schedulerSpec_blockSize (h : schedulerSpec g workers = some spec) :
    spec.blockSize = g.blockSize := by
  obtain ⟨w, -, h⟩ := bind_eq_some_iff.mp h
  rw [← project_blockSize g w, LayerGroup.blockSize]
  split at h
  next hspec =>
    rw [hspec]
    exact congrArg FullAttentionSpec.blockSize (some.inj h).symm
  next specs hspec =>
    rw [hspec]
    obtain ⟨l, hl, rfl⟩ := map_eq_some_iff.mp h
    exact specs.uniform l (mem_of_mem_head? hl)

theorem kvCacheSpec_attendsToAll (cfg : VllmConfig) (spec : FullAttentionSpec) :
    (spec.kvCacheSpec cfg).kind = .fullAttention ∨
      ∃ n, (spec.kvCacheSpec cfg).kind = .sinkFullAttention n := by
  unfold FullAttentionSpec.kvCacheSpec
  cases spec.sinkLen with
  | none => exact .inl rfl
  | some n => exact .inr ⟨n, rfl⟩

theorem init_managerConfig_serves {s o k p} (hspec : schedulerSpec g workers = some spec)
    (hs : getKvCacheConfigs cfg g workers = .ok s)
    (hk : init (managerConfig cfg spec s o) = .ok (k, p)) (id) :
    1 + reservedBlocks (spec.kvCacheSpec cfg) ≤ capacity cfg g workers ∧
      ∃ owned, Serves owned (.blk 0) id (g.tokensPerBlock cfg)
        (capacity cfg g workers - 1 - reservedBlocks (spec.kvCacheSpec cfg))
        (fittedMaxModelLen cfg g workers) k p := by
  have hsize := schedulerSpec_blockSize hspec
  obtain ⟨hblocks, hlen⟩ := getKvCacheConfigs_sizes (hsize ▸ spec.blockSize_pos) hs
  rw [← hblocks, ← hlen, tokensPerBlock, ← hsize]
  exact init_serves rfl (kvCacheSpec_attendsToAll cfg spec)
    (Nat.mul_pos spec.blockSize_pos (worldSize_pos cfg)) hk id

/-- A request that is alone runs to the end in whatever steps exactly if there is a block more than
its largest step and the sink take. The check at startup does not count the null block. -/
theorem sole_request_served_iff {s : Sizes} {o : ManagerOptions} {k : KVCacheManager}
    {p : BlockPool} (hspec : schedulerSpec g workers = some spec)
    (hs : getKvCacheConfigs cfg g workers = .ok s)
    (hk : init (managerConfig cfg spec s o) = .ok (k, p)) (H : Hashing) (id : ReqId)
    (lookahead : ℕ) :
    (∀ chunks, (∀ c ∈ chunks, Chunk.Of id lookahead (g.tokensPerBlock cfg) s.maxModelLen c) →
      Chunk.Follow 0 chunks → ∃ k' p', Chunk.serve H chunks k p = .ok (some k') p') ↔
    cdiv (Chunk.demand (fittedMaxModelLen cfg g workers) lookahead) (g.tokensPerBlock cfg) + 1 +
      reservedBlocks (spec.kvCacheSpec cfg) ≤ capacity cfg g workers := by
  have hsize := schedulerSpec_blockSize hspec
  obtain ⟨-, hlen⟩ := getKvCacheConfigs_sizes (hsize ▸ spec.blockSize_pos) hs
  obtain ⟨hroom, owned, hserves⟩ := init_managerConfig_serves hspec hs hk id
  rw [hlen]
  constructor
  · intro hall
    by_contra hshort
    have hpos : 1 < fittedMaxModelLen cfg g workers := by
      by_contra hle
      have hzero : Chunk.demand (fittedMaxModelLen cfg g workers) lookahead = 0 := by
        unfold Chunk.demand
        rw [if_pos (.inr (by omega))]
        omega
      rw [hzero, cdiv_zero] at hshort
      omega
    obtain ⟨k', p', hok⟩ := hall _ (Chunk.longest_of id lookahead _ hpos)
      (Chunk.longest_follow id _ lookahead)
    obtain ⟨out, p1, hout, hnone⟩ :=
      (Chunk.serve_longest lookahead hserves hpos (by omega) H).exists_ok
    rw [hok, hnone] at hout
    cases hout
  · intro hle chunks hof _
    obtain ⟨out, p', hout, hsome⟩ :=
      (Chunk.serve_enough hof hserves (by omega)).exists_ok
    obtain ⟨k', rfl⟩ := isSome_iff_exists.mp hsome
    exact ⟨k', p', hout⟩

def start (cfg : VllmConfig) (g : LayerGroup) (workers : List Worker) (o : ManagerOptions) :
    Option (Sizes × FullAttentionSpec × KVCacheManager × BlockPool) := do
  let s ← (getKvCacheConfigs cfg g workers).toOption
  let spec ← schedulerSpec g workers
  let out ← (init (managerConfig cfg spec s o)).toOption
  some (s, spec, out)

theorem of_start {o s k p} (h : start cfg g workers o = some (s, spec, k, p)) :
    schedulerSpec g workers = some spec ∧ getKvCacheConfigs cfg g workers = .ok s ∧
      init (managerConfig cfg spec s o) = .ok (k, p) := by
  obtain ⟨s', hs, h⟩ := bind_eq_some_iff.mp h
  obtain ⟨spec', hspec, h⟩ := bind_eq_some_iff.mp h
  obtain ⟨out, hout, h⟩ := bind_eq_some_iff.mp h
  cases h
  exact ⟨hspec, of_toOption_eq_some hs, of_toOption_eq_some hout⟩

theorem layerBlock_pos : 0 < 16 := by decide

def oneLayer : LayerGroup where
  layerNames := ["layers.0"]
  kvCacheSpec := .layer { blockSize := 16, pageSizeBytes := 1024, blockSize_pos := layerBlock_pos }

def twoBlocks : Worker where
  layerNames := ["layers.0"]
  availableMemory := 2048

def autoFit : VllmConfig where
  maxModelLen := 100
  originalMaxModelLen := -1
  dcp_pos := Nat.one_pos
  pcp_pos := Nat.one_pos

/-- The length is fitted to two blocks, one of which is the null block: a prompt of 31 tokens is
accepted, and refused when scheduled. -/
theorem fitted_request_refused : ∃ spec s k p, schedulerSpec oneLayer [twoBlocks] = some spec ∧
    getKvCacheConfigs autoFit oneLayer [twoBlocks] = .ok s ∧ s.maxModelLen = 32 ∧
    init (managerConfig autoFit spec s {}) = .ok (k, p) ∧
    ∃ p', Chunk.serve byteHashing
      [{ request := Chunk.requestOf "r" 31 0, numNewTokens := 31 }] k p = .ok none p' := by
  have hrun : ∃ out ∈ start autoFit oneLayer [twoBlocks] {}, out.1.maxModelLen = 32 ∧
      Chunk.refused byteHashing
        [{ request := Chunk.requestOf "r" 31 0, numNewTokens := 31 }] out.2.2.1 out.2.2.2 = true := by
    decide +kernel
  obtain ⟨⟨s, spec, k, p⟩, hstart, hlen, hserve⟩ := hrun
  obtain ⟨hspec, hs, hk⟩ := of_start hstart
  exact ⟨spec, s, k, p, hspec, hs, hlen, hk, Chunk.of_refused hserve⟩

theorem seventeen_tokens_served : ∃ spec s k p, schedulerSpec oneLayer [twoBlocks] = some spec ∧
    getKvCacheConfigs { maxModelLen := 17, originalMaxModelLen := 17 } oneLayer [twoBlocks] = .ok s ∧
    init (managerConfig { maxModelLen := 17, originalMaxModelLen := 17 } spec s {}) =
      .ok (k, p) ∧
    ∀ chunks, (∀ c ∈ chunks, Chunk.Of "r" 0 16 s.maxModelLen c) → Chunk.Follow 0 chunks →
      ∃ k' p', Chunk.serve byteHashing chunks k p = .ok (some k') p' := by
  have hrun : ∃ out ∈ start { maxModelLen := 17, originalMaxModelLen := 17 } oneLayer [twoBlocks] {},
      reservedBlocks (out.2.1.kvCacheSpec { maxModelLen := 17, originalMaxModelLen := 17 }) = 0 := by
    decide +kernel
  obtain ⟨⟨s, spec, k, p⟩, hstart, hreserved⟩ := hrun
  obtain ⟨hspec, hs, hk⟩ := of_start hstart
  refine ⟨spec, s, k, p, hspec, hs, hk, ?_⟩
  refine (sole_request_served_iff hspec hs hk byteHashing "r" 0).mpr ?_
  rw [hreserved]
  decide +kernel

end Startup

end VllmEngine.Core

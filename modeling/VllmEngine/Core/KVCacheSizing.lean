import VllmEngine.Core.TableShapes
import VllmEngine.Lib.Bisect
import Mathlib.Algebra.BigOperators.Ring.List

namespace VllmEngine.Core

open Lib List

/-- `FullAttentionSpec` and its subclasses, with the page size of the class and the length of the
sink of `SinkFullAttentionSpec`. -/
structure FullAttentionSpec where
  blockSize : ℕ
  pageSizeBytes : ℕ
  sinkLen : Option ℕ := none
  blockSize_pos : 0 < blockSize := by decide
  pageSize_pos : 0 < pageSizeBytes := by decide

/-- `UniformTypeKVCacheSpecs`: layers with one block size, whose pages differ. -/
structure UniformTypeKVCacheSpecs where
  blockSize : ℕ
  kvCacheSpecs : List (String × FullAttentionSpec)
  uniform : ∀ l ∈ kvCacheSpecs, l.2.blockSize = blockSize

inductive LayersSpec
  | layer (spec : FullAttentionSpec)
  | uniformType (specs : UniformTypeKVCacheSpecs)

/-- A `KVCacheGroupSpec` of full-attention layers, as `get_kv_cache_groups` makes it. -/
structure LayerGroup where
  layerNames : List String
  kvCacheSpec : LayersSpec
  isEagleGroup : Bool := false

/-- The settings that the sizing of the KV cache reads. An `originalMaxModelLen` of `-1` asks for
the largest that fits. -/
structure VllmConfig where
  maxModelLen : ℕ
  originalMaxModelLen : ℤ
  numGpuBlocksOverride : Option ℕ := none
  decodeContextParallelSize : ℕ := 1
  prefillContextParallelSize : ℕ := 1
  dcp_pos : 0 < decodeContextParallelSize := by decide
  pcp_pos : 0 < prefillContextParallelSize := by decide

/-- A worker: the names of its layers, and the memory that it has for their KV cache. -/
structure Worker where
  layerNames : List String
  availableMemory : ℤ

inductive StartupError
  | zeroDivision
  | noAvailableMemory
  | notEnoughMemory
  | cannotAutoFit
  | layersNotAssigned
  | emptyGroup
  | noWorkers
  deriving DecidableEq

namespace VllmConfig

variable (cfg : VllmConfig)

def worldSize : ℕ := cfg.decodeContextParallelSize * cfg.prefillContextParallelSize

end VllmConfig

namespace LayerGroup

def layerMemoryUsageBytes (cfg : VllmConfig) (maxModelLen : ℕ) (spec : FullAttentionSpec) : ℕ :=
  let maxModelLen := if 1 < cfg.worldSize then cdiv maxModelLen cfg.worldSize else maxModelLen
  cdiv maxModelLen spec.blockSize * spec.pageSizeBytes

variable (g : LayerGroup)

def maxMemoryUsageBytes (cfg : VllmConfig) (maxModelLen : ℕ) : ℕ :=
  match g.kvCacheSpec with
  | .uniformType specs =>
    (specs.kvCacheSpecs.map fun l ↦ layerMemoryUsageBytes cfg maxModelLen l.2).sum
  | .layer spec =>
    g.layerNames.length * spec.pageSizeBytes *
      cdiv (layerMemoryUsageBytes cfg maxModelLen spec) spec.pageSizeBytes

def poolBytesPerBlock : ℕ :=
  match g.kvCacheSpec with
  | .uniformType specs => (specs.kvCacheSpecs.map fun l ↦ l.2.pageSizeBytes).sum
  | .layer spec => spec.pageSizeBytes * g.layerNames.length

def blockSize : ℕ :=
  match g.kvCacheSpec with
  | .uniformType specs => specs.blockSize
  | .layer spec => spec.blockSize

/-- The restriction of `UniformTypeKVCacheSpecs` to the layers of a worker. -/
def restrict (specs : UniformTypeKVCacheSpecs) (names : List String) : UniformTypeKVCacheSpecs where
  blockSize := specs.blockSize
  kvCacheSpecs := specs.kvCacheSpecs.filter fun l ↦ l.1 ∈ names
  uniform l hl := specs.uniform l (mem_of_mem_filter hl)

def project (w : Worker) : LayerGroup :=
  let names := g.layerNames.filter (· ∈ w.layerNames)
  { layerNames := names
    kvCacheSpec :=
      match g.kvCacheSpec with
      | .uniformType specs => if names ≠ [] then .uniformType (restrict specs names) else .uniformType specs
      | .layer spec => .layer spec
    isEagleGroup := g.isEagleGroup && names ≠ [] }

end LayerGroup

namespace Startup

variable (cfg : VllmConfig)

def estimateMaxModelLen (g : LayerGroup) (availableMemory : ℤ) : ℕ :=
  bisect (fun modelLen ↦ decide ((g.maxMemoryUsageBytes cfg modelLen : ℤ) ≤ availableMemory))
    cfg.maxModelLen

def autoFitMaxModelLen (workers : List (LayerGroup × ℤ)) : Except StartupError ℕ :=
  let autoFitMax := workers.foldl (fun fit w ↦ min fit (estimateMaxModelLen cfg w.1 w.2)) cfg.maxModelLen
  if autoFitMax = 0 then .error .cannotAutoFit else .ok autoFitMax

/-- The `max_model_len` of the engine: the given one, or the largest that fits. -/
def settleMaxModelLen (workers : List (LayerGroup × ℤ)) : Except StartupError ℕ :=
  if cfg.originalMaxModelLen = -1 then autoFitMaxModelLen cfg workers else .ok cfg.maxModelLen

def checkEnoughKvCacheMemory (maxModelLen : ℕ) (w : LayerGroup × ℤ) : Except StartupError Unit :=
  if w.2 ≤ 0 then .error .noAvailableMemory
  else if w.2 < w.1.maxMemoryUsageBytes cfg maxModelLen then .error .notEnoughMemory
  else .ok ()

/-- The memory that `num_gpu_blocks_override` leaves room for. -/
def adjustMemory (w : LayerGroup × ℤ) : Except StartupError (LayerGroup × ℤ) :=
  match cfg.numGpuBlocksOverride with
  | none => .ok w
  | some override =>
    if w.1.poolBytesPerBlock = 0 then .error .zeroDivision
    else .ok (w.1, override * w.1.poolBytesPerBlock)

def mayOverrideNumBlocks (numBlocks : ℕ) : ℕ := cfg.numGpuBlocksOverride.getD numBlocks

/-- The number of blocks that `get_kv_cache_config_from_groups` finds, for one group. -/
def numBlocksFromGroup (w : LayerGroup × ℤ) : Except StartupError ℕ :=
  match w.1.kvCacheSpec with
  | .uniformType _ =>
    if w.1.poolBytesPerBlock = 0 then .error .zeroDivision
    else .ok (mayOverrideNumBlocks cfg (w.2 / w.1.poolBytesPerBlock).toNat)
  | .layer spec =>
    if w.1.layerNames.length = 0 then .error .emptyGroup
    else .ok (mayOverrideNumBlocks cfg (w.2 / spec.pageSizeBytes / w.1.layerNames.length).toNat)

/-- The last loops of `get_kv_cache_configs`, for the worker with the given layers. -/
def workerBlocks (w : Worker × LayerGroup × ℤ) : Except StartupError ℕ :=
  if w.2.1.layerNames.length ≠ w.1.layerNames.length then .error .layersNotAssigned
  else numBlocksFromGroup cfg w.2

def minNumBlocks : List ℕ → Except StartupError ℕ
  | [] => .error .noWorkers
  | n :: ns => .ok (ns.foldl min n)

/-- What `get_kv_cache_configs` settles: `max_model_len`, and the number of blocks. -/
structure Sizes where
  maxModelLen : ℕ
  numBlocks : ℕ

/-- `get_kv_cache_configs`, once the layers are in one group. -/
def getKvCacheConfigs (g : LayerGroup) (workers : List Worker) : Except StartupError Sizes := do
  let projected := workers.map fun w ↦ (g.project w, w.availableMemory)
  let adjusted ← projected.mapM (adjustMemory cfg)
  let maxModelLen ← settleMaxModelLen cfg adjusted
  adjusted.forM (checkEnoughKvCacheMemory cfg maxModelLen)
  let numBlocks ← (workers.zip adjusted).mapM (workerBlocks cfg)
  let minBlocks ← minNumBlocks numBlocks
  pure ⟨maxModelLen, minBlocks⟩

end Startup

namespace LayerGroup

variable {cfg : VllmConfig} {g : LayerGroup}

theorem worldSize_pos (cfg : VllmConfig) : 0 < cfg.worldSize := mul_pos cfg.dcp_pos cfg.pcp_pos

/-- The number of tokens in a block of the scheduler. -/
def tokensPerBlock (cfg : VllmConfig) (g : LayerGroup) : ℕ := g.blockSize * cfg.worldSize

theorem layerMemoryUsageBytes_eq (cfg : VllmConfig) (len) (spec : FullAttentionSpec) :
    layerMemoryUsageBytes cfg len spec =
      cdiv len (spec.blockSize * cfg.worldSize) * spec.pageSizeBytes := by
  unfold layerMemoryUsageBytes
  dsimp only
  split
  · rw [cdiv_cdiv len (worldSize_pos cfg) spec.blockSize_pos]
  · have := worldSize_pos cfg
    rw [show cfg.worldSize = 1 by omega, mul_one]

theorem maxMemoryUsageBytes_eq (cfg) (g : LayerGroup) (len) :
    g.maxMemoryUsageBytes cfg len = cdiv len (g.tokensPerBlock cfg) * g.poolBytesPerBlock := by
  unfold maxMemoryUsageBytes tokensPerBlock poolBytesPerBlock blockSize
  cases g.kvCacheSpec with
  | layer spec =>
    dsimp only
    rw [layerMemoryUsageBytes_eq, cdiv_mul_self _ spec.pageSize_pos]
    ring
  | uniformType specs =>
    rw [← sum_map_mul_left]
    refine congrArg sum (map_congr_left fun l hl ↦ ?_)
    rw [layerMemoryUsageBytes_eq, specs.uniform l hl]

theorem project_blockSize (g : LayerGroup) (w : Worker) : (g.project w).blockSize = g.blockSize := by
  unfold project blockSize
  cases g.kvCacheSpec with
  | layer spec => rfl
  | uniformType specs =>
    dsimp only
    by_cases hnames : g.layerNames.filter (· ∈ w.layerNames) = []
    · rw [if_neg (not_not.mpr hnames)]
    · rw [if_pos hnames]
      rfl

end LayerGroup

namespace Startup

open LayerGroup

variable {cfg : VllmConfig} {g : LayerGroup} {workers : List Worker}

def workerCapacity (cfg : VllmConfig) (g : LayerGroup) (w : Worker) : ℕ :=
  cfg.numGpuBlocksOverride.getD (w.availableMemory / (g.project w).poolBytesPerBlock).toNat

def capacity (cfg : VllmConfig) (g : LayerGroup) : List Worker → ℕ
  | [] => 0
  | w :: ws => (ws.map (workerCapacity cfg g)).foldl min (workerCapacity cfg g w)

def fittedMaxModelLen (cfg : VllmConfig) (g : LayerGroup) (workers : List Worker) : ℕ :=
  if cfg.originalMaxModelLen = -1 then
    min cfg.maxModelLen (capacity cfg g workers * g.tokensPerBlock cfg)
  else cfg.maxModelLen

variable {w w' : LayerGroup × ℤ} {adjusted : List (LayerGroup × ℤ)}

theorem numBlocksFromGroup_eq {n} (h : numBlocksFromGroup cfg w = .ok n) :
    0 < w.1.poolBytesPerBlock ∧
      n = cfg.numGpuBlocksOverride.getD (w.2 / w.1.poolBytesPerBlock).toNat := by
  unfold numBlocksFromGroup mayOverrideNumBlocks at h
  split at h
  · split at h
    · cases h
    next hne => exact ⟨pos_of_ne_zero hne, (Except.ok.inj h).symm⟩
  next spec hspec =>
    have hbytes : w.1.poolBytesPerBlock = spec.pageSizeBytes * w.1.layerNames.length := by
      rw [poolBytesPerBlock, hspec]
    split at h
    · cases h
    next hne =>
      rw [hbytes, ← Except.ok.inj h, Int.ediv_ediv_of_nonneg (by omega), Int.natCast_mul]
      exact ⟨mul_pos spec.pageSize_pos (pos_of_ne_zero hne), rfl⟩

theorem adjustMemory_eq (h : adjustMemory cfg w = .ok w') :
    w'.1 = w.1 ∧ (cfg.numGpuBlocksOverride = none → w'.2 = w.2) ∧
      ∀ n, cfg.numGpuBlocksOverride = some n → w'.2 = n * w.1.poolBytesPerBlock := by
  unfold adjustMemory at h
  split at h
  next hnone =>
    cases h
    exact ⟨rfl, fun _ ↦ rfl, fun n hn ↦ by simp [hnone] at hn⟩
  next override hsome =>
    split at h
    · cases h
    cases h
    refine ⟨rfl, fun hn ↦ by simp [hsome] at hn, fun n hn ↦ ?_⟩
    obtain rfl : override = n := by simpa [hsome] using hn
    rfl

theorem capacity_of_adjusted {w} (hadj : adjustMemory cfg (g.project w, w.availableMemory) = .ok w')
    (hpos : 0 < (g.project w).poolBytesPerBlock) :
    (w'.2 / (g.project w).poolBytesPerBlock).toNat = workerCapacity cfg g w := by
  obtain ⟨-, hnone, hsome⟩ := adjustMemory_eq hadj
  unfold workerCapacity
  cases hoverride : cfg.numGpuBlocksOverride with
  | none => rw [hnone hoverride, Option.getD_none]
  | some n =>
    rw [hsome n hoverride, Int.mul_ediv_cancel _ (by exact_mod_cast hpos.ne'),
      Option.getD_some, Int.toNat_natCast]

theorem estimateMaxModelLen_eq (hlen : 0 < cfg.maxModelLen)
    (hsize : 0 < w.1.tokensPerBlock cfg) (hpos : 0 < w.1.poolBytesPerBlock) (hmem : 0 ≤ w.2) :
    estimateMaxModelLen cfg w.1 w.2 =
      min cfg.maxModelLen ((w.2 / w.1.poolBytesPerBlock).toNat * w.1.tokensPerBlock cfg) := by
  refine bisect_eq_min hlen fun len ↦ ?_
  obtain ⟨mem, hmem⟩ := Int.eq_ofNat_of_zero_le hmem
  have hblocks : ((mem : ℤ) / w.1.poolBytesPerBlock).toNat = mem / w.1.poolBytesPerBlock := by
    rw [← Int.natCast_ediv, Int.toNat_natCast]
  rw [decide_eq_true_eq, maxMemoryUsageBytes_eq, hmem, ← cdiv_le_iff hsize, hblocks,
    Nat.le_div_iff_mul_le hpos]
  exact_mod_cast Iff.rfl

theorem foldl_min_le {α : Type} (f : α → ℕ) (l : List α) (b : ℕ) :
    l.foldl (fun fit a ↦ min fit (f a)) b ≤ b := by
  induction l generalizing b with
  | nil => exact le_rfl
  | cons a l ih => exact (ih _).trans (min_le_left _ _)

theorem foldl_min_fit (b size n : ℕ) (ns : List ℕ) :
    ns.foldl (fun fit n ↦ min fit (min b (n * size))) (min b (n * size)) =
      min b (ns.foldl min n * size) := by
  induction ns generalizing n with
  | nil => rfl
  | cons n' ns ih =>
    rw [foldl_cons, foldl_cons, ← ih, ← Nat.mul_min_mul_right]
    congr 1
    omega

structure Settled (cfg : VllmConfig) (g : LayerGroup) (w : Worker) (w' : LayerGroup × ℤ) : Prop where
  group : w'.1 = g.project w
  bytes : 0 < w'.1.poolBytesPerBlock
  blocks : (w'.2 / w'.1.poolBytesPerBlock).toNat = workerCapacity cfg g w

theorem settled_of_ok {numBlocks}
    (hadj : List.Forall₂ (fun w w' ↦ adjustMemory cfg (g.project w, w.availableMemory) = .ok w')
      workers adjusted)
    (hnum : List.Forall₂ (fun w n ↦ workerBlocks cfg w = .ok n) (workers.zip adjusted) numBlocks) :
    List.Forall₂ (Settled cfg g) workers adjusted ∧ numBlocks = workers.map (workerCapacity cfg g) := by
  induction hadj generalizing numBlocks with
  | nil =>
    cases hnum with
    | nil => exact ⟨.nil, rfl⟩
  | @cons w w' ws ws' hw _ ih =>
    cases hnum with
    | @cons _ n _ ns hn hns =>
      obtain ⟨hsettled, rfl⟩ := ih hns
      unfold workerBlocks at hn
      split at hn
      · cases hn
      obtain ⟨hpos, rfl⟩ := numBlocksFromGroup_eq hn
      have hgroup : w'.1 = g.project w := (adjustMemory_eq hw).1
      have hcap := capacity_of_adjusted hw (hgroup ▸ hpos)
      refine ⟨.cons ⟨hgroup, hpos, hgroup ▸ hcap⟩ hsettled, ?_⟩
      rw [map_cons]
      congr 1
      rw [hgroup, hcap]
      unfold workerCapacity
      cases cfg.numGpuBlocksOverride <;> rfl

theorem autoFit_eq (hlen : 0 < cfg.maxModelLen) (hsize : 0 < g.blockSize)
    (h : List.Forall₂ (Settled cfg g) workers adjusted) (hmem : ∀ w ∈ adjusted, 0 ≤ w.2) (b) :
    adjusted.foldl (fun fit w ↦ min fit (estimateMaxModelLen cfg w.1 w.2)) b =
      (workers.map (workerCapacity cfg g)).foldl
        (fun fit n ↦ min fit (min cfg.maxModelLen (n * g.tokensPerBlock cfg))) b := by
  induction h generalizing b with
  | nil => rfl
  | @cons w w' ws ws' hw _ ih =>
    have htokens : w'.1.tokensPerBlock cfg = g.tokensPerBlock cfg := by
      rw [tokensPerBlock, tokensPerBlock, hw.group, project_blockSize]
    have hpos : 0 < w'.1.tokensPerBlock cfg := by
      rw [htokens]
      exact mul_pos hsize (worldSize_pos cfg)
    rw [foldl_cons, map_cons, foldl_cons,
      estimateMaxModelLen_eq hlen hpos hw.bytes (hmem w' (by simp)), hw.blocks, htokens]
    exact ih (fun w hw ↦ hmem w (by simp [hw])) _

theorem getKvCacheConfigs_sizes {s} (hsize : 0 < g.blockSize)
    (h : getKvCacheConfigs cfg g workers = .ok s) :
    s.numBlocks = capacity cfg g workers ∧ s.maxModelLen = fittedMaxModelLen cfg g workers := by
  obtain ⟨adjusted, hadj, h⟩ := of_bind_eq_ok h
  obtain ⟨maxModelLen, hfit, h⟩ := of_bind_eq_ok h
  obtain ⟨_, hcheck, h⟩ := of_bind_eq_ok h
  obtain ⟨numBlocks, hnum, h⟩ := of_bind_eq_ok h
  obtain ⟨minBlocks, hmin, h⟩ := of_bind_eq_ok h
  cases h
  have hadj := forall₂_map_left_iff.mp (of_mapM_eq_ok hadj)
  obtain ⟨hsettled, rfl⟩ := settled_of_ok hadj (of_mapM_eq_ok hnum)
  cases workers with
  | nil => cases hmin
  | cons w ws =>
    have hblocks : minBlocks = capacity cfg g (w :: ws) := (Except.ok.inj hmin).symm
    refine ⟨hblocks, ?_⟩
    unfold settleMaxModelLen at hfit
    unfold fittedMaxModelLen
    split at hfit
    next hauto =>
      rw [if_pos hauto]
      unfold autoFitMaxModelLen at hfit
      dsimp only at hfit
      split at hfit
      · cases hfit
      next hne =>
        cases hfit
        have hmem : ∀ w ∈ adjusted, 0 ≤ w.2 := by
          intro w' hw'
          have hok := of_forM_eq_ok hcheck w' hw'
          unfold checkEnoughKvCacheMemory at hok
          split at hok
          · cases hok
          · omega
        have hlen : 0 < cfg.maxModelLen := (pos_of_ne_zero hne).trans_le (foldl_min_le _ _ _)
        rw [autoFit_eq hlen hsize hsettled hmem, map_cons, foldl_cons]
        rw [show min cfg.maxModelLen (min cfg.maxModelLen (workerCapacity cfg g w *
          g.tokensPerBlock cfg)) = min cfg.maxModelLen (workerCapacity cfg g w *
          g.tokensPerBlock cfg) by omega, foldl_min_fit]
        rfl
    next hgiven =>
      rw [if_neg hgiven]
      exact (Except.ok.inj hfit).symm

end Startup

end VllmEngine.Core

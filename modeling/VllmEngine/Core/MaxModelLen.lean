import VllmEngine.Core.KVCacheSizing
import Mathlib.Algebra.Order.BigOperators.Group.List

namespace VllmEngine.Core

open Lib SingleTypeKVCacheManager

/-- A spec with the size of its page, which its class computes. -/
structure SizedSpec where
  spec : KVCacheSpec
  pageSizeBytes : ℕ
  blockSize_pos : 0 < spec.blockSize := by decide
  pageSize_pos : 0 < pageSizeBytes := by decide

/-- The spec of a group: one for all its layers, or `UniformTypeKVCacheSpecs`. -/
inductive GroupSpec
  | layer (spec : SizedSpec)
  | uniformType (kvCacheSpecs : List SizedSpec)

structure SizedGroup where
  layerNames : List String
  kvCacheSpec : GroupSpec

structure SizingConfig extends VllmConfig where
  maxNumBatchedTokens : ℕ
  maxNumEncoderInputTokens : ℕ := 0
  mambaCacheMode : MambaCacheMode := .none

inductive SizingError
  | dcpSlidingWindow
  | pageSizes
  | emptySpecs

def SizingConfig.withLen (cfg : SizingConfig) (modelLen : ℕ) : SizingConfig :=
  { cfg with maxModelLen := modelLen }

namespace SizedSpec

def maxMemoryUsageBytes (cfg : SizingConfig) (s : SizedSpec) : ℕ :=
  match s.spec.kind with
  | .fullAttention | .sinkFullAttention _ =>
    let maxModelLen :=
      if 1 < cfg.worldSize then cdiv cfg.maxModelLen cfg.worldSize else cfg.maxModelLen
    cdiv maxModelLen s.spec.blockSize * s.pageSizeBytes
  | .slidingWindow _ | .chunkedLocalAttention _ =>
    let maxBlocks := maxAdmissionBlocks s.spec cfg.maxNumBatchedTokens
      cfg.maxModelLen
    maxBlocks.getD 0 * s.pageSizeBytes
  | .mamba _ numSpeculativeBlocks =>
    match cfg.mambaCacheMode with
    | .all => cdiv cfg.maxModelLen s.spec.blockSize * s.pageSizeBytes
    | .align => s.pageSizeBytes * (2 + numSpeculativeBlocks)
    | .none => s.pageSizeBytes * (1 + numSpeculativeBlocks)
  | .crossAttention => cdiv cfg.maxNumEncoderInputTokens s.spec.blockSize * s.pageSizeBytes

/-- The assertion of `SlidingWindowSpec.max_memory_usage_bytes`. -/
def supports (decodeContextParallelSize : ℕ) (s : SizedSpec) : Bool :=
  match s.spec.kind with
  | .slidingWindow _ => decodeContextParallelSize = 1
  | _ => true

end SizedSpec

namespace GroupSpec

def kvCacheSpecs : GroupSpec → List SizedSpec
  | .layer spec => [spec]
  | .uniformType specs => specs

def isUniformType : GroupSpec → Bool
  | .layer _ => false
  | .uniformType _ => true

variable (cfg : SizingConfig) (g : GroupSpec)

def pageSizeBytes : ℕ := (g.kvCacheSpecs.map (·.pageSizeBytes)).sum

def maxMemoryUsagePages : ℕ :=
  (g.kvCacheSpecs.map fun s ↦ cdiv (s.maxMemoryUsageBytes cfg) s.pageSizeBytes).foldr max 0

def maxMemoryUsageBytes : ℕ :=
  match g with
  | .layer spec => spec.maxMemoryUsageBytes cfg
  | .uniformType _ => g.maxMemoryUsagePages cfg * g.pageSizeBytes

def getPageSizes : List ℕ := (g.kvCacheSpecs.map (·.pageSizeBytes)).dedup

def getNumLayerTuples : ℕ :=
  (g.getPageSizes.map fun size ↦ (g.kvCacheSpecs.map (·.pageSizeBytes)).count size).foldr max 0

end GroupSpec

def maxMemoryUsageBytesFromGroups (cfg : SizingConfig) (groups : List SizedGroup) :
    Except SizingError ℕ :=
  let specs := groups.map (·.kvCacheSpec)
  let supported := specs.all fun g ↦
    g.kvCacheSpecs.all (·.supports cfg.decodeContextParallelSize)
  match specs with
  | [] => .ok 0
  | g :: gs =>
    if specs.all (·.isUniformType) then
      if gs.isEmpty then
        if supported then .ok (g.kvCacheSpecs.map (·.maxMemoryUsageBytes cfg)).sum
        else .error .dcpSlidingWindow
      else
        let layerTupleBytes := g.getPageSizes.sum
        let numLayerTuples := (specs.map (·.getNumLayerTuples)).foldr max 0
        if specs.any (·.kvCacheSpecs.isEmpty) then .error .emptySpecs
        else if supported then
          .ok (specs.map fun g ↦ numLayerTuples * g.maxMemoryUsagePages cfg * layerTupleBytes).sum
        else .error .dcpSlidingWindow
    else
      let groupSize := (groups.map (·.layerNames.length)).foldr max 0
      let pageSize := g.pageSizeBytes
      if specs.any (·.pageSizeBytes ≠ pageSize) then .error .pageSizes
      else if supported then
        .ok (groupSize * pageSize *
          (specs.map fun g ↦ cdiv (g.maxMemoryUsageBytes cfg) pageSize).sum)
      else .error .dcpSlidingWindow

section

variable (groups : List SizedGroup) (availableMemory : ℤ)

def fits (modelLen : ℕ) : EStateM SizingError SizingConfig Bool := do
  modify (·.withLen modelLen)
  match maxMemoryUsageBytesFromGroups (← get) groups with
  | .ok bytes => pure (decide ((bytes : ℤ) ≤ availableMemory))
  | .error e => throw e

def estimateLoop : ℕ → ℕ → ℕ → ℕ → EStateM SizingError SizingConfig ℕ
  | 0, _, _, result => pure result
  | n + 1, left, right, result =>
    if left ≤ right then do
      let mid := (left + right) / 2
      if ← fits groups availableMemory mid then estimateLoop n (mid + 1) right mid
      else estimateLoop n left (mid - 1) result
    else pure result

/-- The last `match` is the `finally` clause. -/
def estimateMaxModelLenFromGroups : EStateM SizingError SizingConfig ℕ := fun cfg ↦
  let originalMax := cfg.maxModelLen
  let search : EStateM SizingError SizingConfig ℕ := do
    if ← fits groups availableMemory 1 then
      estimateLoop groups availableMemory originalMax 1 originalMax 1
    else pure 0
  match search cfg with
  | .ok result cfg => .ok result (cfg.withLen originalMax)
  | .error e cfg => .error e (cfg.withLen originalMax)

end

variable {cfg : SizingConfig} {groups : List SizedGroup} {availableMemory : ℤ} {len len' : ℕ}

theorem SizedSpec.maxMemoryUsageBytes_mono (h : len ≤ len') (s : SizedSpec) :
    s.maxMemoryUsageBytes (cfg.withLen len) ≤ s.maxMemoryUsageBytes (cfg.withLen len') := by
  unfold maxMemoryUsageBytes
  cases hkind : s.spec.kind with
  | fullAttention | sinkFullAttention =>
    refine Nat.mul_le_mul_right _ (cdiv_mono ?_ _)
    change (if 1 < cfg.worldSize then cdiv len cfg.worldSize else len) ≤
      if 1 < cfg.worldSize then cdiv len' cfg.worldSize else len'
    split
    · exact cdiv_mono h _
    · exact h
  | slidingWindow | chunkedLocalAttention =>
    refine Nat.mul_le_mul_right _ ?_
    simp only [maxAdmissionBlocks, hkind, Option.getD_some]
    have hblocks (n : ℕ) : cdiv (min n len) s.spec.blockSize ≤ cdiv (min n len') s.spec.blockSize :=
      cdiv_mono (min_le_min_left n h) _
    simp only [SizingConfig.withLen, add_le_add_iff_right, hblocks]
  | mamba =>
    change (match cfg.mambaCacheMode with | .all => _ | .align => _ | .none => _) ≤
      match cfg.mambaCacheMode with | .all => _ | .align => _ | .none => _
    split
    · exact Nat.mul_le_mul_right _ (cdiv_mono h _)
    · exact le_rfl
    · exact le_rfl
  | crossAttention => exact le_rfl

theorem GroupSpec.maxMemoryUsagePages_mono (h : len ≤ len') (g : GroupSpec) :
    g.maxMemoryUsagePages (cfg.withLen len) ≤ g.maxMemoryUsagePages (cfg.withLen len') := by
  unfold maxMemoryUsagePages
  induction g.kvCacheSpecs with
  | nil => exact le_rfl
  | cons s specs ih => exact max_le_max (cdiv_mono (s.maxMemoryUsageBytes_mono h) _) ih

theorem GroupSpec.maxMemoryUsageBytes_mono (h : len ≤ len') (g : GroupSpec) :
    g.maxMemoryUsageBytes (cfg.withLen len) ≤ g.maxMemoryUsageBytes (cfg.withLen len') := by
  cases g with
  | layer s => exact s.maxMemoryUsageBytes_mono h
  | uniformType specs => exact Nat.mul_le_mul_right _ (maxMemoryUsagePages_mono h _)

/-- Whether the demand can be computed does not depend on the length, and it grows with it. -/
theorem maxMemoryUsageBytesFromGroups_cases (cfg : SizingConfig) (groups : List SizedGroup) :
    (∃ e, ∀ len, maxMemoryUsageBytesFromGroups (cfg.withLen len) groups = .error e) ∨
      ∃ demand : ℕ → ℕ, Monotone demand ∧
        ∀ len, maxMemoryUsageBytesFromGroups (cfg.withLen len) groups = .ok (demand len) := by
  have hdcp (len : ℕ) : (cfg.withLen len).decodeContextParallelSize =
      cfg.decodeContextParallelSize := rfl
  unfold maxMemoryUsageBytesFromGroups
  generalize groups.map (·.kvCacheSpec) = specs
  cases specs with
  | nil => exact .inr ⟨fun _ ↦ 0, monotone_const, fun _ ↦ rfl⟩
  | cons g gs =>
    simp only [hdcp]
    split_ifs
    · refine .inr ⟨_, fun len len' h ↦ ?_, fun _ ↦ rfl⟩
      exact List.sum_le_sum fun s _ ↦ s.maxMemoryUsageBytes_mono h
    · exact .inl ⟨_, fun _ ↦ rfl⟩
    · exact .inl ⟨_, fun _ ↦ rfl⟩
    · refine .inr ⟨_, fun len len' h ↦ ?_, fun _ ↦ rfl⟩
      refine List.sum_le_sum fun g _ ↦ Nat.mul_le_mul_right _ (Nat.mul_le_mul_left _ ?_)
      exact g.maxMemoryUsagePages_mono h
    · exact .inl ⟨_, fun _ ↦ rfl⟩
    · exact .inl ⟨_, fun _ ↦ rfl⟩
    · refine .inr ⟨_, fun len len' h ↦ ?_, fun _ ↦ rfl⟩
      refine Nat.mul_le_mul_left _ (List.sum_le_sum fun g _ ↦ cdiv_mono ?_ _)
      exact g.maxMemoryUsageBytes_mono h
    · exact .inl ⟨_, fun _ ↦ rfl⟩

/-- The demand of `modelLen` tokens is within the memory. -/
def Fits (cfg : SizingConfig) (groups : List SizedGroup) (availableMemory : ℤ) (modelLen : ℕ) :
    Prop :=
  ∃ bytes, maxMemoryUsageBytesFromGroups (cfg.withLen modelLen) groups = .ok bytes ∧
    (bytes : ℤ) ≤ availableMemory

theorem fits_eq (modelLen) : fits groups availableMemory modelLen cfg =
    match maxMemoryUsageBytesFromGroups (cfg.withLen modelLen) groups with
    | .ok bytes => .ok (decide ((bytes : ℤ) ≤ availableMemory)) (cfg.withLen modelLen)
    | .error e => .error e (cfg.withLen modelLen) := by
  change (match maxMemoryUsageBytesFromGroups (cfg.withLen modelLen) groups with
    | .ok bytes => pure (decide ((bytes : ℤ) ≤ availableMemory))
    | .error e => throw e : EStateM SizingError SizingConfig Bool) _ = _
  cases maxMemoryUsageBytesFromGroups (cfg.withLen modelLen) groups <;> rfl

section

variable {demand : ℕ → ℕ}
  (hdemand : ∀ len, maxMemoryUsageBytesFromGroups (cfg.withLen len) groups = .ok (demand len))
include hdemand

theorem fits_run (mem) (len modelLen) : fits groups mem modelLen (cfg.withLen len) =
      .ok (decide ((demand modelLen : ℤ) ≤ mem)) (cfg.withLen modelLen) := by
  have : maxMemoryUsageBytesFromGroups ((cfg.withLen len).withLen modelLen) groups = _ :=
    hdemand modelLen
  rw [fits_eq, this]
  rfl

theorem estimateLoop_run (mem) (n left right result len) :
    ∃ len', estimateLoop groups mem n left right result (cfg.withLen len) =
      .ok (bisectLoop (fun len ↦ decide ((demand len : ℤ) ≤ mem)) n left right result)
        (cfg.withLen len') := by
  induction n generalizing left right result len with
  | zero => exact ⟨len, rfl⟩
  | succ n ih =>
    unfold estimateLoop bisectLoop
    split
    · simp only [bind, EStateM.bind, fits_run hdemand]
      split
      · exact ih ..
      · exact ih ..
    · exact ⟨len, rfl⟩

theorem estimateMaxModelLenFromGroups_run (mem) : estimateMaxModelLenFromGroups groups mem cfg =
      .ok (bisect (fun len ↦ decide ((demand len : ℤ) ≤ mem)) cfg.maxModelLen) cfg := by
  have hrun : fits groups mem 1 cfg = _ := fits_run hdemand mem cfg.maxModelLen 1
  unfold estimateMaxModelLenFromGroups bisect
  simp only [bind, EStateM.bind, hrun]
  by_cases hone : decide ((demand 1 : ℤ) ≤ mem) = true
  · obtain ⟨len, hloop⟩ := estimateLoop_run hdemand mem cfg.maxModelLen 1 cfg.maxModelLen 1 1
    rw [if_pos hone, if_pos hone, hloop]
    rfl
  · rw [if_neg hone, if_neg hone]
    rfl

end

theorem estimateMaxModelLenFromGroups_greatest (cfg : SizingConfig) (groups : List SizedGroup)
    (availableMemory : ℤ) (hlen : 0 < cfg.maxModelLen) :
    (∃ e, (∀ len, maxMemoryUsageBytesFromGroups (cfg.withLen len) groups = .error e) ∧
        estimateMaxModelLenFromGroups groups availableMemory cfg = .error e cfg) ∨
      ∃ n, estimateMaxModelLenFromGroups groups availableMemory cfg = .ok n cfg ∧
        ((0 < n ∧ n ≤ cfg.maxModelLen ∧ Fits cfg groups availableMemory n ∧
            ∀ len ≤ cfg.maxModelLen, Fits cfg groups availableMemory len → len ≤ n) ∨
          n = 0 ∧ ∀ len, 0 < len → ¬ Fits cfg groups availableMemory len) := by
  rcases maxMemoryUsageBytesFromGroups_cases cfg groups with ⟨e, he⟩ | ⟨demand, hmono, hdemand⟩
  · refine .inl ⟨e, he, ?_⟩
    unfold estimateMaxModelLenFromGroups
    simp only [bind, EStateM.bind, fits_eq, he]
    rfl
  · have hfits (len : ℕ) :
        Fits cfg groups availableMemory len ↔ (demand len : ℤ) ≤ availableMemory := by
      simp [Fits, hdemand]
    refine .inr ⟨_, estimateMaxModelLenFromGroups_run hdemand availableMemory, ?_⟩
    simp only [hfits]
    have hdown : ∀ a b, a ≤ b → decide ((demand b : ℤ) ≤ availableMemory) = true →
        decide ((demand a : ℤ) ≤ availableMemory) = true := by
      intro a b hab hb
      have := hmono hab
      simp only [decide_eq_true_eq] at hb ⊢
      omega
    simpa using bisect_spec hlen hdown

def pairConfig : SizingConfig where
  maxModelLen := 10
  originalMaxModelLen := 10
  dcp_pos := one_pos
  pcp_pos := one_pos
  maxNumBatchedTokens := 2

def sizedPair : List SizedGroup :=
  [⟨["full"], .layer { spec := ⟨.fullAttention, 2, 0⟩, pageSizeBytes := 4 }⟩,
    ⟨["window"], .layer { spec := ⟨.slidingWindow 3, 2, 0⟩, pageSizeBytes := 4 }⟩]

theorem estimateMaxModelLenFromGroups_of_window :
    ∃ n, estimateMaxModelLenFromGroups sizedPair 30 pairConfig = .ok n pairConfig ∧
      Fits pairConfig sizedPair 30 n ∧
      ∀ len ≤ 10, Fits pairConfig sizedPair 30 len → len ≤ n := by
  have hone : Fits pairConfig sizedPair 30 1 := ⟨12, rfl, by decide⟩
  rcases estimateMaxModelLenFromGroups_greatest pairConfig sizedPair 30 (by decide) with
    ⟨e, he, -⟩ | ⟨n, hrun, ⟨-, -, hfit, hmax⟩ | ⟨-, hnone⟩⟩
  · obtain ⟨bytes, hbytes, -⟩ := hone
    cases (he 1).symm.trans hbytes
  · exact ⟨n, hrun, hfit, hmax⟩
  · exact absurd hone (hnone 1 one_pos)

end VllmEngine.Core

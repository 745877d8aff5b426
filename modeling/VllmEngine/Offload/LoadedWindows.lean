import VllmEngine.Offload.OffloadGroups

namespace VllmEngine.Offload

open VllmEngine.Core List SingleTypeKVCacheManager

structure GroupLoad where
  keysToLoad : List OffloadKey
  dstBlockIds : List Ref
  groupSize : ℕ
  blockIndex : ℕ

/-- The loop body of `update_state_after_alloc` over the groups. A block `isPending` if it is not
the null block and has no hash. -/
def groupLoad (isPending : Ref → Bool) (blockSizeFactor numLocallyComputedTokens numCachedTokens : ℕ)
    (g : LookupGroup) (groupBlocks : List Ref) : Except OffloadError GroupLoad :=
  let numGpuBlocks := cdiv numCachedTokens g.config.gpuBlockSize
  if groupBlocks.length < numGpuBlocks then .error .missingBlocks
  else
    let numLocallyComputedGpuBlocks := (groupBlocks.take numGpuBlocks).findIdx isPending
    if numLocallyComputedGpuBlocks * g.config.gpuBlockSize < numLocallyComputedTokens then
      .error .uncountedTokens
    else
      let numPendingGpuBlocks := numGpuBlocks - numLocallyComputedGpuBlocks
      if g.window.any fun size ↦ decide (size * blockSizeFactor < numPendingGpuBlocks) then
        .error .windowExceeded
      else
        let numBlocks := cdiv numCachedTokens g.blockSize
        if g.offloadKeys.length < numBlocks then .error .missingKeys
        else .ok {
          keysToLoad :=
            if numPendingGpuBlocks = 0 then []
            else (g.offloadKeys.take numBlocks).drop (numLocallyComputedGpuBlocks / blockSizeFactor)
          dstBlockIds := (groupBlocks.take numGpuBlocks).drop numLocallyComputedGpuBlocks
          groupSize := numPendingGpuBlocks
          blockIndex := numLocallyComputedGpuBlocks }

/-- The block with index `j` and `size` tokens has a token of the range from `start` to `stop`. -/
def Overlaps (size j start stop : ℕ) : Prop := start < (j + 1) * size ∧ j * size < stop

theorem overlaps_iff {size j start stop} (hsize : 0 < size) :
    Overlaps size j start stop ↔ start / size ≤ j ∧ j < cdiv stop size := by
  have hcdiv := not_congr (cdiv_le_iff (n := stop) (k := j) hsize)
  rw [Nat.not_le, Nat.not_le] at hcdiv
  rw [Overlaps, ← Nat.div_lt_iff_lt_mul hsize, Nat.lt_succ_iff, hcdiv]

def firstNeeded (s : KVCacheSpec) (numComputedTokens T : ℕ) : ℕ :=
  match s.kind with
  | .slidingWindow window => max numComputedTokens (T + 1 - window)
  -- the state after the last token
  | .mamba .. => max numComputedTokens (T - 1)
  | _ => numComputedTokens

def NeededHits (lookup : Lookup) (s : KVCacheSpec) (g : LookupGroup) (numComputedTokens T : ℕ) :
    Prop :=
  ∀ j, Overlaps g.blockSize j (firstNeeded s numComputedTokens T) T → HitAt lookup g.offloadKeys j

/-- The blocks that `allocate_slots` gives in a group: null blocks, hits, and new blocks to load. -/
def GivenBlocks (s : KVCacheSpec) (numComputedTokens n : ℕ) (isPending : Ref → Bool)
    (blocks : List Ref) : Prop :=
  ∃ (m : SingleTypeKVCacheManager) (null : Ref) (hits fresh : List Ref),
    m.kvCacheSpec = s ∧ blocks = m.tableOf null hits numComputedTokens n fresh ∧
    hits.length = numComputedTokens / s.blockSize ∧ isPending null = false ∧
    (∀ b ∈ hits, isPending b = false) ∧ (∀ b ∈ fresh, isPending b = true) ∧
    cdiv (numComputedTokens + n) s.blockSize ≤ blocks.length

def LoadsHits (lookup : Lookup) (blockSizeFactor : ℕ) (s : KVCacheSpec) (g : LookupGroup)
    (numComputedTokens n : ℕ) : Prop :=
  ∀ isPending blocks, GivenBlocks s numComputedTokens n isPending blocks →
    ∃ load, groupLoad isPending blockSizeFactor numComputedTokens (numComputedTokens + n) g blocks =
      .ok load ∧ ∀ key ∈ load.keysToLoad, lookup key = some true

/-- The windows of a group, in whole blocks, leave room for the start of a block at which another
group can end the hit. -/
def WindowsFit (spec : OffloadingSpec) : Prop :=
  ∀ s ∈ spec.kvCacheGroups, ∀ window, s.kind = .slidingWindow window → ∀ s' ∈ spec.kvCacheGroups,
      window + spec.offloadedBlockSize s ≤
        cdiv window (spec.offloadedBlockSize s) * spec.offloadedBlockSize s +
          Nat.gcd (spec.offloadedBlockSize s) (spec.offloadedBlockSize s') + 1

section

variable {B w T q r k : ℕ}

theorem le_cdiv_mul (n) (hB : 0 < B) : n ≤ cdiv n B * B := (cdiv_le_iff hB).mp (le_refl _)

theorem cdiv_eq_succ (hr : 0 < r) (hlt : r < B) : cdiv (q * B + r) B = q + 1 := by
  refine Nat.le_antisymm ((cdiv_le_iff (by omega)).mpr (by rw [Nat.succ_mul]; omega)) ?_
  have h := div_lt_cdiv (show q * B < q * B + r by omega) (show 0 < B by omega)
  rwa [Nat.mul_div_cancel _ (by omega)] at h

theorem sub_le_div (hB : 0 < B) (h : k * B ≤ T + q * B) : k ≤ T / B + q := by
  have := Nat.div_le_div_right (c := B) h
  rwa [Nat.mul_div_cancel _ hB, Nat.add_mul_div_right _ _ hB] at this

theorem window_covered (hB : 0 < B) (hT : T % B = 0 ∨ T % B + 1 = B ∨
    w + B ≤ cdiv w B * B + T % B + 1) : cdiv T B ≤ (T + 1 - w) / B + cdiv w B := by
  have hw := le_cdiv_mul w hB
  have hmod := Nat.mod_lt T hB
  have hdiv : T / B * B + T % B = T := by
    rw [Nat.mul_comm]
    exact Nat.div_add_mod T B
  apply sub_le_div hB
  by_cases hzero : T % B = 0
  · have hT' : T / B * B = T := by omega
    have hc : cdiv T B = T / B := by
      conv_lhs => rw [← hT']
      exact cdiv_mul_self _ hB
    rw [hc]
    omega
  · have hc : cdiv T B = T / B + 1 := by
      conv_lhs => rw [← hdiv]
      exact cdiv_eq_succ (by omega) hmod
    rw [hc, Nat.succ_mul]
    omega

end

variable {spec : OffloadingSpec} {req : OffloadRequest} {i numComputedTokens n T : ℕ}
  {s : KVCacheSpec} {g : LookupGroup} {lookup : Lookup}

theorem findIdx_take_append {p : Ref → Bool} {l l' : List Ref} {k} (hl : ∀ b ∈ l, p b = false)
    (hl' : ∀ b ∈ l', p b = true) (hk : k ≤ (l ++ l').length) (hle : l.length ≤ k) :
    ((l ++ l').take k).findIdx p = l.length := by
  rw [take_append, take_of_length_le hle, findIdx_append,
    findIdx_eq_length.mpr hl, if_neg (lt_irrefl _)]
  rw [length_append] at hk
  cases l' with
  | nil =>
    simp
  | cons b l' =>
    cases hsub : k - l.length with
    | zero => simp
    | succ k' =>
      rw [take_succ_cons, findIdx_cons, hl' b (by simp), cond_true, zero_add]

theorem tableOf_eq {m : SingleTypeKVCacheManager} (hm : m.kvCacheSpec = s)
    (hkind : s.kind ≠ .crossAttention) (hchunk : ∀ size, s.kind ≠ .chunkedLocalAttention size)
    (null : Ref) {hits} (hhits : hits.length = numComputedTokens / s.blockSize) (fresh : List Ref) :
    ∃ front, m.tableOf null hits numComputedTokens n fresh = front ++ fresh ∧
      (∀ b ∈ front, b = null ∨ b ∈ hits) ∧
      front.length = firstNeeded s numComputedTokens (numComputedTokens + n) / s.blockSize := by
  have hmk : m.kind = s.kind := congrArg KVCacheSpec.kind hm
  have hmb : m.blockSize = s.blockSize := congrArg KVCacheSpec.blockSize hm
  refine ⟨_, by rw [tableOf, if_neg (hmk ▸ hkind)], fun b hb ↦ ?_, ?_⟩
  · rcases mem_append.mp hb with hb | hb
    · exact .inl (eq_of_mem_replicate hb)
    · exact .inr (mem_of_mem_drop hb)
  have hmono : Monotone fun t : ℕ ↦ t / s.blockSize := fun _ _ h ↦ Nat.div_le_div_right h
  rw [length_padded, hhits, skippedBlocks, hmb,
    getNumSkippedTokens, hmk, firstNeeded, ← hmono.map_max]
  congr 1
  cases hk : s.kind with
  | fullAttention => exact zero_max _
  | sinkFullAttention sinkLen => exact zero_max _
  | slidingWindow window => exact max_comm _ _
  | chunkedLocalAttention size => exact absurd hk (hchunk size)
  | mamba mode blocks => exact max_comm _ _
  | crossAttention => exact absurd hk hkind

theorem le_firstNeeded (s) (numComputedTokens T) :
    numComputedTokens ≤ firstNeeded s numComputedTokens T := by
  unfold firstNeeded
  split
  · exact le_max_left _ _
  · exact le_max_left _ _
  · exact le_refl _

section

variable (hv : spec.Valid) (hs : s ∈ spec.kvCacheGroups) (h : GroupOf spec req i s g)
  (hdvd : s.blockSize ∣ numComputedTokens)
  (hkeys : numComputedTokens + n ≤ g.offloadKeys.length * g.blockSize)
  (hfirst : firstNeeded s numComputedTokens (numComputedTokens + n) ≤ numComputedTokens + n)
  (hcover : ∀ size ∈ g.window, cdiv (numComputedTokens + n) g.blockSize ≤
    firstNeeded s numComputedTokens (numComputedTokens + n) / g.blockSize + size)

include hv hs h hdvd hkeys hfirst hcover

theorem groupLoad_given {isPending : Ref → Bool} {blocks : List Ref}
    (hgiven : GivenBlocks s numComputedTokens n isPending blocks) :
    ∃ load, groupLoad isPending spec.blockSizeFactor numComputedTokens (numComputedTokens + n) g blocks =
      .ok load ∧ load.keysToLoad =
        if cdiv (numComputedTokens + n) s.blockSize -
          firstNeeded s numComputedTokens (numComputedTokens + n) / s.blockSize = 0 then []
        else (g.offloadKeys.take (cdiv (numComputedTokens + n) g.blockSize)).drop
          (firstNeeded s numComputedTokens (numComputedTokens + n) / g.blockSize) := by
  obtain ⟨m, null, hits, fresh, hm, hblocks, hhits, hnull, hpast, hfresh, hlen⟩ := hgiven
  have hgb := hv.blockSize_pos s hs
  have hB : 0 < g.blockSize := by
    rw [h.blockSize]
    exact hv.offloadedBlockSize_pos hs
  have hmul : g.blockSize = s.blockSize * spec.blockSizeFactor := h.blockSize
  have hkind : s.kind ≠ .crossAttention := by
    intro hk
    have := h.window
    simp [getSlidingWindowSizeInBlocks, hk] at this
  have hchunk : ∀ size, s.kind ≠ .chunkedLocalAttention size := by
    intro size hk
    have := h.window
    simp [getSlidingWindowSizeInBlocks, hk] at this
  obtain ⟨front, htable, hfront, hfl⟩ := tableOf_eq hm hkind hchunk null hhits fresh
  rw [hblocks, htable] at hlen ⊢
  have hle : front.length ≤ cdiv (numComputedTokens + n) s.blockSize := by
    rw [hfl]
    exact KVCacheManager.div_le_cdiv hfirst _
  have hidx : ((front ++ fresh).take (cdiv (numComputedTokens + n) s.blockSize)).findIdx isPending =
      front.length := by
    refine findIdx_take_append (fun b hb ↦ ?_) hfresh hlen hle
    rcases hfront b hb with rfl | hb
    · exact hnull
    · exact hpast b hb
  have hcounted : numComputedTokens ≤ front.length * s.blockSize := by
    have hdiv := Nat.div_le_div_right (c := s.blockSize)
      (le_firstNeeded s numComputedTokens (numComputedTokens + n))
    rw [← hfl] at hdiv
    calc numComputedTokens = numComputedTokens / s.blockSize * s.blockSize :=
          (Nat.div_mul_cancel hdvd).symm
      _ ≤ front.length * s.blockSize := Nat.mul_le_mul_right _ hdiv
  have hpart : front.length / spec.blockSizeFactor =
      firstNeeded s numComputedTokens (numComputedTokens + n) / g.blockSize := by
    rw [hfl, Nat.div_div_eq_div_mul, hmul]
  have hpending : ∀ size ∈ g.window,
      cdiv (numComputedTokens + n) s.blockSize - front.length ≤ size * spec.blockSizeFactor := by
    intro size hsize
    have hwhole : cdiv (numComputedTokens + n) s.blockSize ≤
        cdiv (numComputedTokens + n) g.blockSize * spec.blockSizeFactor := by
      rw [cdiv_le_iff hgb, mul_assoc, mul_comm spec.blockSizeFactor, ← hmul]
      exact le_cdiv_mul _ hB
    have hstart := Nat.div_mul_le_self front.length spec.blockSizeFactor
    have hend := Nat.mul_le_mul_right spec.blockSizeFactor (hcover size hsize)
    rw [← hpart, add_mul] at hend
    omega
  unfold groupLoad
  rw [h.gpuBlockSize]
  dsimp only
  rw [hidx, if_neg (not_lt.mpr hlen), if_neg (not_lt.mpr hcounted), if_neg,
    if_neg (not_lt.mpr ((cdiv_le_iff hB).mpr hkeys))]
  · refine ⟨_, rfl, ?_⟩
    rw [hpart, hfl]
  intro hany
  cases hw : g.window with
  | none => simp [hw] at hany
  | some size =>
    have := hpending size hw
    simp only [hw, Option.any_some, decide_eq_true_eq] at hany
    omega

theorem loadsHits_of_needed
    (hhit : NeededHits lookup s g numComputedTokens (numComputedTokens + n)) :
    LoadsHits lookup spec.blockSizeFactor s g numComputedTokens n := by
  intro isPending blocks hgiven
  obtain ⟨load, hload, hkeysToLoad⟩ := groupLoad_given hv hs h hdvd hkeys hfirst hcover hgiven
  have hB : 0 < g.blockSize := by
    rw [h.blockSize]
    exact hv.offloadedBlockSize_pos hs
  refine ⟨load, hload, fun key hkey ↦ ?_⟩
  rw [hkeysToLoad] at hkey
  split at hkey
  · cases hkey
  obtain ⟨j, hj⟩ := mem_iff_getElem?.mp hkey
  rw [getElem?_drop, getElem?_take] at hj
  split at hj
  next hlt =>
    obtain ⟨key', hkey', hhit'⟩ := hhit _ ((overlaps_iff hB).mpr ⟨Nat.le_add_right _ _, hlt⟩)
    obtain rfl := Option.some.inj (hj.symm.trans hkey')
    exact hhit'
  · cases hj

end

end VllmEngine.Offload

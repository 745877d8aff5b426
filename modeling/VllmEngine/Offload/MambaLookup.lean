import VllmEngine.Offload.LookupVerdict

namespace VllmEngine.Offload

open VllmEngine.Core List SchedulerOffloadConfig

variable {spec : OffloadingSpec} {cfg : SchedulerOffloadConfig} {req : OffloadRequest}
  {i numComputedTokens n N : ℕ} {s : KVCacheSpec} {g : LookupGroup} {lookup : Lookup}
  {st : LookupState} {mode : MambaCacheMode} {blocks : ℕ}

section

variable (hv : spec.Valid)

include hv

section

variable (hcfg : fromSpec spec = .ok cfg)

include hcfg

theorem Settled.dvd (hreq : req.Hashed spec.hashBlockSize)
    (h : Settled lookup numComputedTokens (requestGroups cfg req)
      (startTokens (requestGroups cfg req) req.numTokens) st)
    (hg : g ∈ requestGroups cfg req) (hgs : GroupOf spec req i s g) (hw : g.window ≠ none)
    (hall : ∀ s' ∈ spec.kvCacheGroups, spec.offloadedBlockSize s ∣ spec.offloadedBlockSize s')
    (hN : spec.offloadedBlockSize s = 1 ∨
      (∃ s' ∈ spec.kvCacheGroups, ¬ spec.offloadedBlockSize s' ∣ req.numTokens) ∨
      ∃ s' ∈ spec.kvCacheGroups, req.numTokens ≤ spec.offloadedBlockSize s') :
    g.blockSize ∣ st.maxHitSizeTokens := by
  rw [hgs.blockSize]
  have hcomp := h.computed
  have hgroup : ∀ s' ∈ spec.kvCacheGroups, ∃ (i' : ℕ) (g' : LookupGroup),
      g' ∈ requestGroups cfg req ∧ GroupOf spec req i' s' g' := by
    intro s' hs'
    obtain ⟨i', hi'⟩ := mem_iff_getElem?.mp hs'
    obtain ⟨g', hg', hgs'⟩ := groups_of_spec hv hcfg hreq hi'
    exact ⟨i', g', mem_of_getElem? hg', hgs'⟩
  rcases h.form with heq | ⟨g', hg', hdvd⟩
  · rw [startTokens_of_window hg hw] at heq
    rcases hN with hone | ⟨s', hs', hnot⟩ | ⟨s', hs', hshort⟩
    · rw [hone]
      exact one_dvd _
    · -- the blocks of that group end one token before the request does
      obtain ⟨i', g', hg', hgs'⟩ := hgroup s' hs'
      have hkeys := h.keys g' hg'
      have hdiv := Nat.div_add_mod req.numTokens (spec.offloadedBlockSize s')
      have hmod : req.numTokens % spec.offloadedBlockSize s' ≠ 0 :=
        fun hzero ↦ hnot (Nat.dvd_of_mod_eq_zero hzero)
      rw [hgs'.length, hgs'.blockSize, mul_comm] at hkeys
      rw [show st.maxHitSizeTokens = spec.offloadedBlockSize s' *
        (req.numTokens / spec.offloadedBlockSize s') by omega]
      exact (hall s' hs').mul_right _
    · obtain ⟨i', g', hg', hgs'⟩ := hgroup s' hs'
      have hblock := h.block g' hg'
      rw [startTokens_of_window hg hw, hgs'.blockSize] at hblock
      omega
  · obtain ⟨i', s', hs', -, hgs'⟩ := spec_of_mem hv hcfg hreq hg'
    rw [hgs'.blockSize] at hdvd
    exact (hall s' (mem_of_getElem? hs')).trans hdvd

section

variable (hi : spec.kvCacheGroups[i]? = some s) (hk : s.kind = .mamba mode blocks)

include hi hk

end

end

end

def fullAndMamba : OffloadingSpec where
  hashBlockSize := 4
  kvCacheGroups := [⟨.fullAttention, 4, 0⟩, ⟨.mamba .align 0, 4, 0⟩]

end VllmEngine.Offload

import Mathlib.Data.Int.GCD
import Mathlib.Algebra.Order.BigOperators.Group.List
import VllmEngine.Offload.LoadedWindows

namespace VllmEngine.Offload

open VllmEngine.Core List SchedulerOffloadConfig

variable {spec : OffloadingSpec} {cfg : SchedulerOffloadConfig} {req : OffloadRequest}
  {i numComputedTokens start n T : ℕ} {s : KVCacheSpec} {g : LookupGroup} {lookup : Lookup}
  {st : LookupState}

theorem GroupOf.window_eq (h : GroupOf spec req i s g) {window}
    (hk : s.kind = .slidingWindow window) :
    0 < window ∧ g.window = some (cdiv window g.blockSize) := by
  have hw := h.window
  simp only [getSlidingWindowSizeInBlocks, hk] at hw
  split at hw
  next hpos =>
    rw [h.blockSize]
    exact ⟨hpos, (Except.ok.inj hw).symm⟩
  · cases hw

theorem startTokens_of_window (hg : g ∈ requestGroups cfg req) (hw : g.window ≠ none) :
    startTokens (requestGroups cfg req) req.numTokens = req.numTokens - 1 := by
  unfold startTokens
  rw [if_neg (ne_nil_of_mem (mem_slidingWindowGroups.mpr ⟨hg, hw⟩))]

theorem mod_succ_eq {M B} (hB : 0 < B) (h : (M + 1) % B = 0) : M % B + 1 = B := by
  have hlt := Nat.mod_lt M hB
  by_contra hne
  rw [← Nat.mod_add_mod, Nat.mod_eq_of_lt (by omega)] at h
  omega

theorem Settled.residue (hv : spec.Valid) (hcfg : fromSpec spec = .ok cfg)
    (hreq : req.Hashed spec.hashBlockSize)
    (h : Settled lookup numComputedTokens (requestGroups cfg req)
      (startTokens (requestGroups cfg req) req.numTokens) st) (hg : g ∈ requestGroups cfg req)
    (hw : g.window ≠ none) (hgs : GroupOf spec req i s g) (hpos : 0 < g.blockSize) :
    st.maxHitSizeTokens % g.blockSize = 0 ∨ st.maxHitSizeTokens % g.blockSize + 1 = g.blockSize ∨
      ∃ s' ∈ spec.kvCacheGroups, Nat.gcd g.blockSize (spec.offloadedBlockSize s') ≤
        st.maxHitSizeTokens % g.blockSize := by
  rcases h.form with heq | ⟨g', hg', hdvd⟩
  · have hkeys := h.keys g hg
    have hcomp := h.computed
    have hdiv := Nat.div_add_mod req.numTokens g.blockSize
    rw [startTokens_of_window hg hw] at heq
    rw [hgs.length, ← hgs.blockSize, mul_comm] at hkeys
    rcases eq_zero_or_pos (req.numTokens % g.blockSize) with hzero | hone
    · refine .inr (.inl (mod_succ_eq hpos ?_))
      rwa [show st.maxHitSizeTokens + 1 = req.numTokens by omega]
    · left
      rw [show st.maxHitSizeTokens = g.blockSize * (req.numTokens / g.blockSize) by omega]
      exact Nat.mul_mod_right _ _
  · obtain ⟨i', s', hs', -, hgs'⟩ := spec_of_mem hv hcfg hreq hg'
    rw [hgs'.blockSize] at hdvd
    rcases eq_zero_or_pos (st.maxHitSizeTokens % g.blockSize) with hzero | hmod
    · exact .inl hzero
    · refine .inr (.inr ⟨s', mem_of_getElem? hs', Nat.le_of_dvd hmod ?_⟩)
      exact (Nat.dvd_mod_iff (Nat.gcd_dvd_left _ _)).mpr ((Nat.gcd_dvd_right _ _).trans hdvd)

theorem needed_of_confirmed (hpos : 0 < g.blockSize)
    (hconf : Confirmed lookup numComputedTokens g T)
    (hge : numComputedTokens ≤ firstNeeded s numComputedTokens T) (hcover : ∀ size ∈ g.window,
      cdiv T g.blockSize ≤ firstNeeded s numComputedTokens T / g.blockSize + size) :
    NeededHits lookup s g numComputedTokens T := by
  intro j hj
  obtain ⟨hfrom, hto⟩ := (overlaps_iff hpos).mp hj
  refine hconf j ((Nat.div_le_div_right hge).trans hfrom) hto fun size hsize ↦ ?_
  have := hcover size hsize
  omega

theorem firstNeeded_le (hwindow : s.kind ≠ .slidingWindow 0) (hle : numComputedTokens ≤ T) :
    firstNeeded s numComputedTokens T ≤ T := by
  unfold firstNeeded
  split
  next window hk =>
    have : window ≠ 0 := by
      rintro rfl
      exact hwindow hk
    omega
  · omega
  · exact hle

theorem Settled.covered (hv : spec.Valid) (hcfg : fromSpec spec = .ok cfg)
    (hreq : req.Hashed spec.hashBlockSize) (hfit : WindowsFit spec)
    (h : Settled lookup numComputedTokens (requestGroups cfg req)
      (startTokens (requestGroups cfg req) req.numTokens) st)
    (hs : s ∈ spec.kvCacheGroups) (hg : g ∈ requestGroups cfg req) (hgs : GroupOf spec req i s g)
    {window} (hk : s.kind = .slidingWindow window) :
    cdiv st.maxHitSizeTokens g.blockSize ≤
      firstNeeded s numComputedTokens st.maxHitSizeTokens / g.blockSize +
        cdiv window g.blockSize := by
  have hpos : 0 < g.blockSize := by
    rw [hgs.blockSize]
    exact hv.offloadedBlockSize_pos hs
  have hw := (hgs.window_eq hk).2
  have hwin : cdiv st.maxHitSizeTokens g.blockSize ≤
      (st.maxHitSizeTokens + 1 - window) / g.blockSize + cdiv window g.blockSize := by
    apply window_covered hpos
    rcases h.residue hv hcfg hreq hg (by simp [hw]) hgs hpos with hzero | hlast | ⟨s', hs', hgcd⟩
    · exact .inl hzero
    · exact .inr (.inl hlast)
    · have := hfit s hs window hk s' hs'
      rw [← hgs.blockSize] at this
      exact .inr (.inr (by omega))
  have hle : st.maxHitSizeTokens + 1 - window ≤
      firstNeeded s numComputedTokens st.maxHitSizeTokens := by
    rw [firstNeeded, hk]
    exact le_max_right _ _
  exact hwin.trans (Nat.add_le_add_right (Nat.div_le_div_right hle) _)

def AnswersSoundly (spec : OffloadingSpec) (cfg : SchedulerOffloadConfig) : Prop :=
  ∀ (req : OffloadRequest) (numComputedTokens : ℕ) (lookup : Lookup)
    (blocksBeingLoaded : List OffloadKey), req.Hashed spec.hashBlockSize →
    (∀ s ∈ spec.kvCacheGroups, s.blockSize ∣ numComputedTokens) →
    ∃ r, lookupTokens lookup blocksBeingLoaded req (requestGroups cfg req) numComputedTokens = .ok r ∧
      ∀ n, r = some n → 0 < n → ∀ (i : ℕ) s g, spec.kvCacheGroups[i]? = some s →
        (requestGroups cfg req)[i]? = some g →
        NeededHits lookup s g numComputedTokens (numComputedTokens + n) ∧
          LoadsHits lookup spec.blockSizeFactor s g numComputedTokens n

theorem answersSoundly_of_fit (hv : spec.Valid) (hcfg : fromSpec spec = .ok cfg)
    (hattention : ∀ s ∈ spec.kvCacheGroups, ∀ mode blocks, s.kind ≠ .mamba mode blocks)
    (hfit : WindowsFit spec) : AnswersSoundly spec cfg := by
  intro req numComputedTokens lookup blocksBeingLoaded hreq hdvd
  obtain ⟨r, hr, hout⟩ := lookupTokens_outcome (filled_of_spec hv hcfg hreq) lookup blocksBeingLoaded
    numComputedTokens
  refine ⟨r, hr, fun n hn hpos i s g hs hg ↦ ?_⟩
  obtain ⟨st, rfl, hd, hset⟩ := hout n hn hpos
  obtain ⟨s', hs', hgs⟩ := spec_of_group hv hcfg hreq hg
  obtain rfl := Option.some.inj (hs.symm.trans hs')
  have hmem := mem_of_getElem? hs
  have hgmem := mem_of_getElem? hg
  have hB : 0 < g.blockSize := by
    rw [hgs.blockSize]
    exact hv.offloadedBlockSize_pos hmem
  have hcount := hset.counted
  have hT : numComputedTokens + st.numHitTokens = st.maxHitSizeTokens := by omega
  have hge := le_firstNeeded s numComputedTokens st.maxHitSizeTokens
  have hcover : ∀ size ∈ g.window, cdiv st.maxHitSizeTokens g.blockSize ≤
      firstNeeded s numComputedTokens st.maxHitSizeTokens / g.blockSize + size := by
    intro size hsize
    cases hk : s.kind with
    | slidingWindow window =>
      obtain rfl := Option.some.inj ((hgs.window_eq hk).2.symm.trans hsize)
      exact hset.covered hv hcfg hreq hfit hmem hgmem hgs hk
    | mamba mode blocks => exact absurd hk (hattention s hmem mode blocks)
    | _ =>
      have hw := hgs.window
      simp only [getSlidingWindowSizeInBlocks, hk] at hw
      simp_all
  have hneeded := needed_of_confirmed hB (hset.confirmed hd g hgmem) hge hcover
  rw [← hT] at hcover hneeded
  refine ⟨hneeded, loadsHits_of_needed hv hmem hgs (hdvd s hmem) ?_ ?_ hcover hneeded⟩
  · rw [hT]
    exact hset.keys g hgmem
  · refine firstNeeded_le (fun hk ↦ ?_) (Nat.le_add_right _ _)
    exact lt_irrefl 0 (hgs.window_eq hk).1

theorem exists_length {B B'} (hB' : 0 < B') (hgcd : Nat.gcd B B' < B) (K) :
    ∃ T, K ≤ T ∧ B' ∣ T ∧ T % B = Nat.gcd B B' := by
  rw [Nat.gcd_comm] at hgcd
  obtain ⟨m, -, hm⟩ := Nat.exists_mul_mod_eq_gcd hgcd
  refine ⟨B' * (m + B * K), ?_, Nat.dvd_mul_right _ _, ?_⟩
  · have hpos : 0 < B := by omega
    calc K ≤ B * K := Nat.le_mul_of_pos_left K hpos
      _ ≤ m + B * K := Nat.le_add_left _ _
      _ ≤ B' * (m + B * K) := Nat.le_mul_of_pos_left _ hB'
  · rw [Nat.mul_add, Nat.mul_left_comm, Nat.add_mul_mod_self_left, hm, Nat.gcd_comm]

theorem fit_of_answersSoundly (hv : spec.Valid)
    (hcfg : fromSpec spec = .ok cfg) (h : AnswersSoundly spec cfg) :
    WindowsFit spec := by
  intro s hs window hk s' hs'
  by_contra hnot
  have hB := hv.offloadedBlockSize_pos hs
  have hB' := hv.offloadedBlockSize_pos hs'
  generalize hBeq : spec.offloadedBlockSize s = B at *
  obtain ⟨i, hi⟩ := mem_iff_getElem?.mp hs
  obtain ⟨i', hi'⟩ := mem_iff_getElem?.mp hs'
  have hw := le_cdiv_mul window hB
  obtain ⟨T, hK, hdvd, hmod⟩ := exists_length (B := B) hB' (by omega)
    ((spec.kvCacheGroups.map spec.offloadedBlockSize).sum + cdiv window B * B)
  have hsum : ∀ s1 ∈ spec.kvCacheGroups, spec.offloadedBlockSize s1 ≤
      (spec.kvCacheGroups.map spec.offloadedBlockSize).sum := fun s1 hs1 ↦
    single_le_sum (fun _ _ ↦ Nat.zero_le _) _ (mem_map_of_mem hs1)
  have hdiv : T / B * B + T % B = T := by
    rw [mul_comm]
    exact Nat.div_add_mod T B
  have hWle : cdiv window B ≤ T / B := (Nat.le_div_iff_mul_le hB).mpr (by omega)
  have hgcd : 0 < Nat.gcd B (spec.offloadedBlockSize s') := Nat.gcd_pos_of_pos_left _ hB
  have hcdiv : cdiv T B = T / B + 1 := by
    conv_lhs => rw [← hdiv]
    exact cdiv_eq_succ (by omega) (by omega)
  set req := unaryRequest spec.hashBlockSize
    (T + (spec.kvCacheGroups.map spec.offloadedBlockSize).sum) with hreqeq
  have hreq : req.Hashed spec.hashBlockSize := unaryRequest_hashed _ _
  obtain ⟨g, hg, hgs⟩ := groups_of_spec hv hcfg hreq hi
  obtain ⟨g', hg', hgs'⟩ := groups_of_spec hv hcfg hreq hi'
  have hgB : g.blockSize = B := hgs.blockSize.trans hBeq
  obtain ⟨-, hgw⟩ := hgs.window_eq hk
  rw [hgB] at hgw
  have hlen : T / B - cdiv window B < g.offloadKeys.length := by
    have hle := hsum s hs
    rw [hgs.length, hBeq]
    have := Nat.div_le_div_right (c := B)
      (show T + B ≤ T + (spec.kvCacheGroups.map spec.offloadedBlockSize).sum by omega)
    rw [Nat.add_div_right _ hB] at this
    change _ < (T + (spec.kvCacheGroups.map spec.offloadedBlockSize).sum) / B
    omega
  have hkey := getElem?_eq_getElem hlen
  generalize g.offloadKeys[T / B - cdiv window B] = key at hkey
  have hrun := lookupTokens_stops hv hcfg [key] hi' hg' hdvd
    (fun s1 hs1 ↦ (hsum s1 hs1).trans (by omega))
    (fun s1 hs1 ↦ Nat.add_le_add_left (hsum s1 hs1) T) (by
      intro g1 hg1 j key1 hkey1 hj hwin hmem
      obtain rfl := mem_singleton.mp hmem
      obtain ⟨i1, s1, hs1, hget1, hgs1⟩ := spec_of_mem hv hcfg hreq hg1
      obtain ⟨rfl, rfl⟩ := unary_key_inj hv hs1 hi hgs1 hgs hkey1 hkey
      obtain rfl := Option.some.inj (hg.symm.trans hget1)
      have := hwin _ hgw
      rw [hgB, hcdiv] at this
      omega)
  obtain ⟨r, hr, hout⟩ := h req 0 _ [] hreq fun s1 _ ↦ Nat.dvd_zero _
  obtain rfl := Except.ok.inj (hrun.symm.trans hr)
  have hneeded := (hout T rfl (by omega) i s g hi hg).1
  rw [Nat.zero_add] at hneeded
  obtain ⟨key', hkey', hhit⟩ := hneeded (T / B - cdiv window B) ((overlaps_iff (hgB ▸ hB)).mpr (by
    rw [hgB, hcdiv, firstNeeded, hk]
    refine ⟨?_, by omega⟩
    dsimp only
    rw [Nat.zero_max, Nat.div_le_iff_le_mul_add_pred hB, Nat.mul_sub, Nat.mul_comm B (T / B),
      mul_comm B (cdiv window B)]
    omega))
  obtain rfl := Option.some.inj (hkey.symm.trans hkey')
  simp [allBut] at hhit

/-- Without Mamba groups, `_lookup` always ends and finds only what can be loaded exactly when the
windows of each group, in whole blocks, leave room for the start of a block at which another group
can end the hit. -/
theorem lookup_loads_hits_iff (hv : spec.Valid)
    (hcfg : fromSpec spec = .ok cfg)
    (hattention : ∀ s ∈ spec.kvCacheGroups, ∀ mode blocks, s.kind ≠ .mamba mode blocks) :
    AnswersSoundly spec cfg ↔ WindowsFit spec :=
  ⟨fit_of_answersSoundly hv hcfg, answersSoundly_of_fit hv hcfg hattention⟩

def fullAndWindow (blockSize : ℕ) : OffloadingSpec where
  hashBlockSize := blockSize
  kvCacheGroups := [⟨.fullAttention, blockSize, 0⟩, ⟨.slidingWindow 4, 4, 0⟩]

def fullAndWindowConfig (blockSize : ℕ) : SchedulerOffloadConfig where
  kvGroupConfigs := [⟨0, blockSize, blockSize, blockSize / blockSize, none⟩,
    ⟨1, 4, 4, 4 / blockSize, some 1⟩]
  blockSizeFactor := 1

theorem fullAndWindow_valid {blockSize} (hpos : 0 < blockSize) (hdvd : blockSize ∣ 4) :
    (fullAndWindow blockSize).Valid := by
  refine ⟨hpos, one_pos, ?_, ?_, by simp [fullAndWindow]⟩
  · simpa [fullAndWindow] using hpos
  · simpa [fullAndWindow] using hdvd

theorem fullAndWindow_fromSpec (blockSize) :
    fromSpec (fullAndWindow blockSize) = .ok (fullAndWindowConfig blockSize) := by
  simp [fromSpec, fullAndWindow, fullAndWindowConfig, groupOffloadConfig,
    getSlidingWindowSizeInBlocks, cdiv, zipIdx, pure, Except.pure, bind, Except.bind]

def missedWindow : Lookup :=
  allBut [makeOffloadKey (replicate 3 0) 0, makeOffloadKey (replicate 1 0) 1]

/-- The manager holds three blocks of full attention and the second block of the window: the hit of
six tokens needs the first block of the window too. `update_state_after_alloc` finds more blocks
than it expects. -/
theorem window_block_not_checked : (fullAndWindow 2).Valid ∧
    fromSpec (fullAndWindow 2) = .ok (fullAndWindowConfig 2) ∧
    (lookupTokens missedWindow [] (unaryRequest 2 9)
      (requestGroups (fullAndWindowConfig 2) (unaryRequest 2 9)) 0).toOption = some (some 6) ∧
    ∃ g, (requestGroups (fullAndWindowConfig 2) (unaryRequest 2 9))[1]? = some g ∧
      ¬ NeededHits missedWindow ⟨.slidingWindow 4, 4, 0⟩ g 0 6 ∧
      groupLoad (fun _ ↦ true) 1 0 6 g [.blk 1, .blk 2] = .error .windowExceeded := by
  refine ⟨fullAndWindow_valid (by decide) (by decide), fullAndWindow_fromSpec 2, by decide +kernel, _,
    rfl, fun h ↦ ?_, rfl⟩
  obtain ⟨key, hkey, hhit⟩ := h 0 ⟨by decide, by decide⟩
  cases hkey
  exact absurd hhit (by decide)

theorem lookup_loads_hits_of_equal_blocks :
    (fullAndWindow 4).Valid ∧ AnswersSoundly (fullAndWindow 4) (fullAndWindowConfig 4) := by
  have hv : (fullAndWindow 4).Valid := fullAndWindow_valid (by decide) (by decide)
  refine ⟨hv, (lookup_loads_hits_iff hv (fullAndWindow_fromSpec 4) ?_).mpr ?_⟩
  · simp [fullAndWindow]
  · simp [WindowsFit, fullAndWindow, OffloadingSpec.offloadedBlockSize, cdiv]

end VllmEngine.Offload

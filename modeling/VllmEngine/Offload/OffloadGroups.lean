import VllmEngine.Core.CacheContent
import VllmEngine.Core.ExternalSurvival
import VllmEngine.Offload.LookupMaximal

namespace VllmEngine.Offload

open VllmEngine.Core BlockHash List SchedulerOffloadConfig Option

namespace OffloadingSpec

def offloadedBlockSize (spec : OffloadingSpec) (s : KVCacheSpec) : ℕ :=
  s.blockSize * spec.blockSizeFactor

structure Valid (spec : OffloadingSpec) : Prop where
  hashBlockSize_pos : 0 < spec.hashBlockSize
  factor_pos : 0 < spec.blockSizeFactor
  blockSize_pos : ∀ s ∈ spec.kvCacheGroups, 0 < s.blockSize
  divides : ∀ s ∈ spec.kvCacheGroups, spec.hashBlockSize ∣ s.blockSize
  group_ids_fit : spec.kvCacheGroups.length ≤ 2 ^ 32

variable {spec : OffloadingSpec} {s : KVCacheSpec}

theorem Valid.offloadedBlockSize_pos (h : spec.Valid) (hs : s ∈ spec.kvCacheGroups) :
    0 < spec.offloadedBlockSize s := mul_pos (h.blockSize_pos s hs) h.factor_pos

def hashFactor (spec : OffloadingSpec) (s : KVCacheSpec) : ℕ :=
  spec.offloadedBlockSize s / spec.hashBlockSize

theorem Valid.hash_mul_hashFactor (h : spec.Valid) (hs : s ∈ spec.kvCacheGroups) :
    spec.hashBlockSize * spec.hashFactor s = spec.offloadedBlockSize s :=
  Nat.mul_div_cancel' (Dvd.dvd.mul_right (h.divides s hs) _)

theorem Valid.hashFactor_pos (h : spec.Valid) (hs : s ∈ spec.kvCacheGroups) :
    0 < spec.hashFactor s := by
  have := h.offloadedBlockSize_pos hs
  rw [← h.hash_mul_hashFactor hs] at this
  exact Nat.pos_of_mul_pos_left this

end OffloadingSpec

/-- The request has the hash of every full block of its tokens. -/
def OffloadRequest.Hashed (hashBlockSize : ℕ) (req : OffloadRequest) : Prop :=
  req.blockHashes.length = req.numTokens / hashBlockSize

/-- The group `i` of a request, as it follows from the spec. -/
structure GroupOf (spec : OffloadingSpec) (req : OffloadRequest) (i : ℕ) (s : KVCacheSpec)
    (g : LookupGroup) : Prop where
  gpuBlockSize : g.config.gpuBlockSize = s.blockSize
  blockSize : g.blockSize = spec.offloadedBlockSize s
  window : getSlidingWindowSizeInBlocks s (spec.offloadedBlockSize s) = .ok g.window
  length : g.offloadKeys.length = req.numTokens / spec.offloadedBlockSize s
  keys : ∀ j, j < g.offloadKeys.length → g.offloadKeys[j]? =
    some (makeOffloadKey (req.blockHashes.getD (spec.hashFactor s - 1 + j * spec.hashFactor s) []) i)

section

variable {spec : OffloadingSpec} {cfg : SchedulerOffloadConfig} {req : OffloadRequest} {i : ℕ}
  {s : KVCacheSpec} {g : LookupGroup}

theorem fromSpec_configs (h : fromSpec spec = .ok cfg) :
    List.Forall₂ (fun s config ↦ groupOffloadConfig spec s.2 s.1 = .ok config)
      spec.kvCacheGroups.zipIdx cfg.kvGroupConfigs ∧
    cfg.blockSizeFactor = spec.blockSizeFactor := by
  obtain ⟨configs, hconfigs, h⟩ := Lib.of_bind_eq_ok h
  cases h
  exact ⟨Lib.of_mapM_eq_ok hconfigs, rfl⟩

theorem length_islice (hashes) {k} (hk : 0 < k) :
    (islice hashes (k - 1) k).length = hashes.length / k := by
  rw [islice, length_map, length_range, cdiv]
  rcases lt_or_ge hashes.length k with h | h
  · rw [Nat.div_eq_of_lt h, Nat.div_eq_of_lt (by omega)]
  · congr 1
    omega

theorem groupOf_request (hv : spec.Valid) (hreq : req.Hashed spec.hashBlockSize)
    (hs : s ∈ spec.kvCacheGroups) {config} (hconfig : groupOffloadConfig spec i s = .ok config) :
    GroupOf spec req i s ⟨config, updateOffloadKeys req config []⟩ := by
  obtain ⟨window, hwindow, hconfig⟩ := Lib.of_bind_eq_ok hconfig
  cases hconfig
  have hk := hv.hashFactor_pos hs
  have hslice := length_islice req.blockHashes hk
  have hlen : (islice req.blockHashes (spec.hashFactor s - 1) (spec.hashFactor s)).length =
      req.numTokens / spec.offloadedBlockSize s := by
    rw [hslice, hreq, Nat.div_div_eq_div_mul, hv.hash_mul_hashFactor hs]
  have hkeys : updateOffloadKeys req
        { groupIdx := i, gpuBlockSize := s.blockSize
          offloadedBlockSize := s.blockSize * spec.blockSizeFactor
          hashBlockSizeFactor := s.blockSize * spec.blockSizeFactor / spec.hashBlockSize
          slidingWindowSizeInBlocks := window } [] =
      (islice req.blockHashes (spec.hashFactor s - 1) (spec.hashFactor s)).map fun hash ↦
        makeOffloadKey hash i := by
    rw [updateOffloadKeys, nil_append, length_nil, mul_zero, zero_add]
    rfl
  refine ⟨rfl, rfl, hwindow, ?_, ?_⟩
  · rw [hkeys, length_map, hlen]
  rw [hkeys]
  intro j hj
  rw [length_map, islice, length_map, length_range] at hj
  rw [getElem?_map, islice, getElem?_map, getElem?_range hj]
  rfl

theorem groups_of_spec (hv : spec.Valid) (hcfg : fromSpec spec = .ok cfg)
    (hreq : req.Hashed spec.hashBlockSize) (hs : spec.kvCacheGroups[i]? = some s) :
    ∃ g, (requestGroups cfg req)[i]? = some g ∧ GroupOf spec req i s g := by
  have hzip : spec.kvCacheGroups.zipIdx[i]? = some (s, i) := by
    rw [getElem?_zipIdx, hs]
    simp
  obtain ⟨config, hget, hconfig⟩ :=
    KVCacheManager.getElem?_of_forall₂ (fromSpec_configs hcfg).1 hzip
  refine ⟨_, ?_, groupOf_request hv hreq (mem_of_getElem? hs) hconfig⟩
  rw [requestGroups, getElem?_map, hget]
  rfl

theorem spec_of_group (hv : spec.Valid) (hcfg : fromSpec spec = .ok cfg)
    (hreq : req.Hashed spec.hashBlockSize) (hg : (requestGroups cfg req)[i]? = some g) :
    ∃ s, spec.kvCacheGroups[i]? = some s ∧ GroupOf spec req i s g := by
  have hlt := (List.getElem?_eq_some_iff.mp hg).1
  rw [requestGroups, length_map, ← (fromSpec_configs hcfg).1.length_eq, length_zipIdx] at hlt
  obtain ⟨g', hg', h⟩ := groups_of_spec hv hcfg hreq (getElem?_eq_getElem hlt)
  obtain rfl := some.inj (hg.symm.trans hg')
  exact ⟨_, getElem?_eq_getElem hlt, h⟩

theorem spec_of_mem (hv : spec.Valid) (hcfg : fromSpec spec = .ok cfg)
    (hreq : req.Hashed spec.hashBlockSize) (hg : g ∈ requestGroups cfg req) :
    ∃ (i : ℕ) (s : KVCacheSpec), spec.kvCacheGroups[i]? = some s ∧
      (requestGroups cfg req)[i]? = some g ∧ GroupOf spec req i s g := by
  obtain ⟨i, hi⟩ := mem_iff_getElem?.mp hg
  obtain ⟨s, hs, h⟩ := spec_of_group hv hcfg hreq hi
  exact ⟨i, s, hs, hi, h⟩

theorem cdiv_pos {n size} (hn : 0 < n) (hsize : 0 < size) : 0 < cdiv n size :=
  (Nat.zero_le _).trans_lt (div_lt_cdiv hn hsize)

theorem getSlidingWindowSizeInBlocks_pos {B window} (hB : 0 < B)
    (h : getSlidingWindowSizeInBlocks s B = .ok window) : ∀ size ∈ window, 0 < size := by
  intro size hsize
  unfold getSlidingWindowSizeInBlocks at h
  split at h
  next w _ =>
    split at h
    next hw =>
      cases h
      cases hsize
      exact cdiv_pos hw hB
    · cases h
  · cases h
    cases hsize
    exact one_pos
  · cases h
    cases hsize
  · cases h
    cases hsize
  · cases h
  · cases h

theorem filled_of_spec (hv : spec.Valid) (hcfg : fromSpec spec = .ok cfg)
    (hreq : req.Hashed spec.hashBlockSize) : Filled req.numTokens (requestGroups cfg req) := by
  refine ⟨fun g hg ↦ ?_, fun g hg ↦ ?_, fun g hg ↦ ?_⟩
  all_goals obtain ⟨i, s, hs, -, h⟩ := spec_of_mem hv hcfg hreq hg
  · rw [h.blockSize]
    exact hv.offloadedBlockSize_pos (mem_of_getElem? hs)
  · exact getSlidingWindowSizeInBlocks_pos (hv.offloadedBlockSize_pos (mem_of_getElem? hs)) h.window
  · rw [h.blockSize, h.length]

end

def unaryRequest (hashBlockSize n : ℕ) : OffloadRequest where
  numTokens := n
  blockHashes := unaryHashes (n / hashBlockSize)

section

variable {spec : OffloadingSpec} {cfg : SchedulerOffloadConfig} {n i i' j j' : ℕ}
  {s s' : KVCacheSpec} {g g' : LookupGroup} {key : OffloadKey}

theorem unaryRequest_hashed (hashBlockSize n) :
    (unaryRequest hashBlockSize n).Hashed hashBlockSize := by
  simp [OffloadRequest.Hashed, unaryRequest, unaryHashes]

theorem GroupOf.unary_key (hv : spec.Valid) (hs : s ∈ spec.kvCacheGroups)
    (h : GroupOf spec (unaryRequest spec.hashBlockSize n) i s g) (hkey : g.offloadKeys[j]? = some key) :
    key = makeOffloadKey (List.replicate (spec.hashFactor s - 1 + j * spec.hashFactor s) 0) i := by
  have hj := (List.getElem?_eq_some_iff.mp hkey).1
  have hk := hv.hashFactor_pos hs
  rw [h.keys j hj] at hkey
  cases hkey
  rw [h.length, ← hv.hash_mul_hashFactor hs, ← Nat.div_div_eq_div_mul] at hj
  have hlt : spec.hashFactor s - 1 + j * spec.hashFactor s < n / spec.hashBlockSize := by
    have hle := (Nat.le_div_iff_mul_le hk).mp hj
    rw [Nat.succ_mul] at hle
    simp only [unaryRequest] at hle
    omega
  congr 1
  rw [getD_eq_getElem?_getD, unaryRequest, unaryHashes, getElem?_map, getElem?_range hlt]
  rfl

theorem unary_key_inj (hv : spec.Valid) (hs : spec.kvCacheGroups[i]? = some s)
    (hs' : spec.kvCacheGroups[i']? = some s')
    (h : GroupOf spec (unaryRequest spec.hashBlockSize n) i s g)
    (h' : GroupOf spec (unaryRequest spec.hashBlockSize n) i' s' g')
    (hkey : g.offloadKeys[j]? = some key) (hkey' : g'.offloadKeys[j']? = some key) :
    i = i' ∧ j = j' := by
  have hi := (List.getElem?_eq_some_iff.mp hs).1
  have hi' := (List.getElem?_eq_some_iff.mp hs').1
  have hfit := hv.group_ids_fit
  have heq := (h.unary_key hv (mem_of_getElem? hs) hkey).symm.trans
    (h'.unary_key hv (mem_of_getElem? hs') hkey')
  obtain ⟨hhash, rfl⟩ := make_inj (by omega) (by omega) heq
  obtain rfl := some.inj (hs.symm.trans hs')
  have hlen := congrArg length hhash
  rw [length_replicate, length_replicate] at hlen
  exact ⟨rfl, Nat.eq_of_mul_eq_mul_right (hv.hashFactor_pos (mem_of_getElem? hs)) (by omega)⟩

def allBut (missing : List OffloadKey) : Lookup := fun key ↦ some !missing.contains key

theorem hitAt_allBut {missing} (hkey : g.offloadKeys[j]? = some key) :
    HitAt (allBut missing) g.offloadKeys j ↔ key ∉ missing := by
  constructor
  · rintro ⟨key', hkey', hhit⟩
    obtain rfl := some.inj (hkey.symm.trans hkey')
    simpa [allBut] using hhit
  · intro hnot
    exact ⟨key, hkey, by simp [allBut, hnot]⟩

theorem lookupTokens_stops (hv : spec.Valid) (hcfg : fromSpec spec = .ok cfg)
    {T} (missing) (hs : spec.kvCacheGroups[i]? = some s)
    (hg : (requestGroups cfg (unaryRequest spec.hashBlockSize n))[i]? = some g)
    (hdvd : spec.offloadedBlockSize s ∣ T)
    (hblock : ∀ s' ∈ spec.kvCacheGroups, spec.offloadedBlockSize s' ≤ T)
    (hlong : ∀ s' ∈ spec.kvCacheGroups, T + spec.offloadedBlockSize s' ≤ n)
    (hmissing : ∀ g' ∈ requestGroups cfg (unaryRequest spec.hashBlockSize n), ∀ j key,
      g'.offloadKeys[j]? = some key → j < cdiv T g'.blockSize →
      (∀ size, g'.window = some size → cdiv T g'.blockSize ≤ j + size) → key ∉ missing) :
    lookupTokens (allBut (g.offloadKeys.drop (T / g.blockSize) ++ missing)) []
      (unaryRequest spec.hashBlockSize n) (requestGroups cfg (unaryRequest spec.hashBlockSize n)) 0 =
        .ok (some T) := by
  have hreq := unaryRequest_hashed spec.hashBlockSize n
  have hf := filled_of_spec hv hcfg hreq
  have hgm := mem_of_getElem? hg
  obtain ⟨s0, hs0, hgs⟩ := spec_of_group hv hcfg hreq hg
  obtain rfl := some.inj (hs.symm.trans hs0)
  have hkeys : ∀ g' ∈ requestGroups cfg (unaryRequest spec.hashBlockSize n),
      T ≤ g'.offloadKeys.length * g'.blockSize := by
    intro g' hg'
    obtain ⟨i', s', hs', -, h'⟩ := spec_of_mem hv hcfg hreq hg'
    have hpos := hv.offloadedBlockSize_pos (mem_of_getElem? hs')
    have hle := hlong s' (mem_of_getElem? hs')
    have hmod := Nat.mod_lt n hpos
    have hdiv := Nat.div_add_mod n (spec.offloadedBlockSize s')
    rw [mul_comm] at hdiv
    rw [h'.length, h'.blockSize]
    change T ≤ n / spec.offloadedBlockSize s' * spec.offloadedBlockSize s'
    omega
  have hr : Reachable (allBut (g.offloadKeys.drop (T / g.blockSize) ++ missing)) 0
      (requestGroups cfg (unaryRequest spec.hashBlockSize n)) T := by
    refine ⟨fun key ↦ by simp [allBut], fun g' hg' j _ hj hwin ↦ ?_, hkeys, fun g' hg' ↦ ?_⟩
    · obtain ⟨i', s', hs', -, h'⟩ := spec_of_mem hv hcfg hreq hg'
      have hlt := hj.trans_le ((cdiv_le_iff (hf.blockSize_pos g' hg')).mpr (hkeys g' hg'))
      have hkey := getElem?_eq_getElem hlt
      rw [hitAt_allBut hkey, mem_append, not_or]
      refine ⟨fun hmem ↦ ?_, hmissing g' hg' j _ hkey hj hwin⟩
      obtain ⟨l, hl⟩ := mem_iff_getElem?.mp hmem
      rw [getElem?_drop] at hl
      obtain ⟨rfl, rfl⟩ := unary_key_inj hv hs' hs h' hgs hkey hl
      obtain rfl := some.inj (hs.symm.trans hs')
      obtain ⟨k, rfl⟩ := hdvd
      have hpos := hv.offloadedBlockSize_pos (mem_of_getElem? hs)
      rw [h'.blockSize, hgs.blockSize, Nat.mul_comm, cdiv_mul_self k hpos,
        Nat.mul_div_cancel _ hpos] at hj
      omega
    · obtain ⟨i', s', hs', -, h'⟩ := spec_of_mem hv hcfg hreq hg'
      rw [zero_add, h'.blockSize]
      exact hblock s' (mem_of_getElem? hs')
  have hstart : T ≤ startTokens (requestGroups cfg (unaryRequest spec.hashBlockSize n))
      (unaryRequest spec.hashBlockSize n).numTokens := by
    have hpos := hv.offloadedBlockSize_pos (mem_of_getElem? hs)
    have hle := hlong s (mem_of_getElem? hs)
    have hn : T ≤ n - 1 := by omega
    unfold startTokens
    split
    · exact hn.trans (Nat.sub_le _ _)
    · exact hn
  obtain ⟨n', hrun, hn', hT⟩ := lookupTokens_reaches hf (ne_nil_of_mem hgm) hr hstart
  obtain ⟨r, hrun', hsettled⟩ := lookupTokens_outcome hf
    (allBut (g.offloadKeys.drop (T / g.blockSize) ++ missing)) [] 0
  obtain rfl := Except.ok.inj (hrun.symm.trans hrun')
  obtain ⟨st, rfl, hd, hset⟩ := hsettled n' rfl hn'
  have hcount := hset.counted
  have hconf := hset.confirmed hd g hgm
  have hmiss : ∀ j, T / g.blockSize ≤ j → ¬ HitAt
      (allBut (g.offloadKeys.drop (T / g.blockSize) ++ missing)) g.offloadKeys j := by
    rintro j hj ⟨key, hkey, hhit⟩
    have hmem : key ∈ g.offloadKeys.drop (T / g.blockSize) := by
      refine mem_iff_getElem?.mpr ⟨j - T / g.blockSize, ?_⟩
      rw [getElem?_drop, Nat.add_sub_cancel' hj]
      exact hkey
    simp [allBut, hmem] at hhit
  have hle := hconf.le_of_misses (hf.blockSize_pos g hgm) (hf.window_pos g hgm)
    (hgs.blockSize ▸ hdvd) (Nat.zero_le _) hmiss
  rw [hrun]
  congr 2
  omega

end

end VllmEngine.Offload

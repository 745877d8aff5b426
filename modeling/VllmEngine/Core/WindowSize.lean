import VllmEngine.Core.WindowTables

namespace VllmEngine.Core

open Lib BlockHash BlockPool List KVCacheManager

def NullsFirst (null : Ref) (lo : ℕ) (t : List Ref) : Prop :=
  ∃ z, lo ≤ z ∧ z ≤ t.length ∧ ∀ i b, t[i]? = some b → (b = null ↔ i < z)

def numHeldBlocks (null : Ref) (t : List Ref) : ℕ := t.countP (· ≠ null)

section

variable {null : Ref} {lo lo' n : ℕ} {t t' : List Ref}

theorem NullsFirst.mono (h : NullsFirst null lo t) (hlo : lo' ≤ lo) : NullsFirst null lo' t := by
  obtain ⟨z, hz, hlen, hiff⟩ := h
  exact ⟨z, hlo.trans hz, hlen, hiff⟩

theorem nullsFirst_nil (null) : NullsFirst null 0 [] :=
  ⟨0, le_rfl, le_rfl, fun i b hb ↦ by simp at hb⟩

theorem NullsFirst.append (h : NullsFirst null lo t) (h' : null ∉ t') :
    NullsFirst null lo (t ++ t') := by
  obtain ⟨z, hz, hlen, hiff⟩ := h
  refine ⟨z, hz, by rw [length_append]; omega, fun i b hb ↦ ?_⟩
  rw [getElem?_append] at hb
  split at hb
  · exact hiff i b hb
  next hi =>
    have hne : b ≠ null := fun heq ↦ h' (heq ▸ mem_of_getElem? hb)
    exact iff_of_false hne (by omega)

theorem NullsFirst.padded (h : NullsFirst null lo t) (n) :
    NullsFirst null n (replicate n null ++ t.drop n) := by
  obtain ⟨z, -, hlen, hiff⟩ := h
  refine ⟨max n z, le_max_left _ _, ?_, fun i b hb ↦ ?_⟩
  · rw [length_append, length_replicate, length_drop]
    omega
  rw [getElem?_append, length_replicate] at hb
  split at hb
  next hi =>
    rw [getElem?_replicate_of_lt hi] at hb
    exact iff_of_true (Option.some.inj hb).symm (by omega)
  next hi =>
    rw [getElem?_drop, show n + (i - n) = i by omega] at hb
    rw [hiff i b hb]
    omega

theorem getElem?_removeLoop_of_nullsFirst {z i} (hn : n ≤ t.length)
    (h : ∀ i b, i < n → t[i]? = some b → (b = null ↔ i < z)) :
    (SingleTypeKVCacheManager.removeLoop null n t).2[i]? = if i < n then some null else t[i]? := by
  induction n generalizing t with
  | zero => rfl
  | succ n ih =>
    obtain ⟨b, hb⟩ : ∃ b, t[n]? = some b := ⟨_, getElem?_eq_getElem (by omega)⟩
    unfold SingleTypeKVCacheManager.removeLoop
    rw [hb]
    dsimp only
    split
    next hnull =>
      -- everything in front of a null block is null already
      split
      next hi =>
        have hz := (h n b (by omega) hb).mp hnull
        have hlt : i < t.length := by omega
        rw [getElem?_eq_getElem hlt]
        exact congrArg some ((h i _ hi (getElem?_eq_getElem hlt)).mpr (by omega))
      · rfl
    next hne =>
      have hrec := ih (t := t.set n null) (by rw [length_set]; omega) fun j b' hj hb' ↦ by
        rw [getElem?_set_ne (by omega)] at hb'
        exact h j b' (by omega) hb'
      rw [hrec]
      rcases Nat.lt_trichotomy i n with hi | rfl | hi
      · rw [if_pos hi, if_pos (by omega)]
      · rw [if_neg (lt_irrefl _), if_pos (by omega), getElem?_set_self (by omega)]
      · rw [if_neg (by omega), if_neg (by omega), getElem?_set_ne (by omega)]

theorem NullsFirst.removeLoop (h : NullsFirst null lo t) (hn : n ≤ t.length) :
    NullsFirst null n (SingleTypeKVCacheManager.removeLoop null n t).2 := by
  obtain ⟨z, -, hlen, hiff⟩ := h
  have hlength := (SingleTypeKVCacheManager.removeLoop_pruned null n t).length
  refine ⟨max n z, le_max_left _ _, by omega, fun i b hb ↦ ?_⟩
  rw [getElem?_removeLoop_of_nullsFirst hn fun i b _ hb ↦ hiff i b hb] at hb
  split at hb
  next hi => exact iff_of_true (Option.some.inj hb).symm (by omega)
  next hi =>
    rw [hiff i b hb]
    omega

theorem NullsFirst.numHeldBlocks_le (h : NullsFirst null lo t) :
    numHeldBlocks null t ≤ t.length - lo := by
  obtain ⟨z, hz, hlen, hiff⟩ := h
  have hfront : (t.take z).countP (· ≠ null) = 0 := by
    rw [countP_eq_zero]
    intro b hb
    obtain ⟨i, hi⟩ := mem_iff_getElem?.mp hb
    rw [getElem?_take] at hi
    split at hi
    next hlt => simpa using (hiff i b hi).mpr hlt
    · cases hi
  have hrest : (t.drop z).countP (· ≠ null) ≤ t.length - z := by
    rw [← length_drop]
    exact countP_le_length
  have hsplit : (t.take z ++ t.drop z).countP (· ≠ null) =
      (t.take z).countP (· ≠ null) + (t.drop z).countP (· ≠ null) := countP_append
  rw [take_append_drop] at hsplit
  unfold numHeldBlocks
  omega

end

namespace SingleTypeKVCacheManager

variable {m m' : SingleTypeKVCacheManager} {id : ReqId} {null : Ref} {N U : ℕ}

/-- In a group with a sliding window, the null block has replaced everything before the window of
position `N`, and the table has blocks for at most `U` tokens. -/
def Slid (null : Ref) (id : ReqId) (N U : ℕ) (m : SingleTypeKVCacheManager) : Prop :=
  ∀ W, m.kind = .slidingWindow W →
    NullsFirst null (m.windowStart W N) (m.table id) ∧ (m.table id).length ≤ cdiv U m.blockSize

theorem windowStart_le_cdiv {W n} (hW : 0 < W) (hn : n ≤ U) :
    m.windowStart W n ≤ cdiv U m.blockSize :=
  (Nat.div_le_div_right (by omega : n + 1 - W ≤ n)).trans (div_le_cdiv hn m.blockSize)

def HitsInWindow (null : Ref) (U : ℕ) (hits : List Ref) (m : SingleTypeKVCacheManager) : Prop :=
  ∀ W, m.kind = .slidingWindow W → 0 < W ∧ NullsFirst null 0 hits ∧ hits.length ≤ cdiv U m.blockSize

theorem AppendsUpTo.nullsFirst {n size lo t t'} (h : AppendsUpTo null n size t t')
    (hn : n ≤ U) (ht : NullsFirst null lo t) (hlen : t.length ≤ cdiv U size) :
    NullsFirst null lo t' ∧ t'.length ≤ cdiv U size := by
  obtain ⟨new, hnew, rfl, hle⟩ := h
  exact ⟨ht.append hnew, hle.trans (max_le hlen (cdiv_mono hn size))⟩

theorem Supplied.slid {total need enters hit}
    (h : Supplied null id total need enters hit m m') (hU : max total need ≤ U)
    (hkept : (enters → (m.numCachedBlock.get? id).isSome) → Slid null id total U m)
    (hhits : ∀ l, hit m l → HitsInWindow null U l m) : Slid null id total U m' := by
  intro W hW
  rw [h.kind_eq] at hW
  obtain ⟨t, happ, hbase⟩ := h.self W hW
  rw [windowStart, h.blockSize_eq]
  rcases hbase with ⟨rfl, hcached⟩ | ⟨hits, hhit, rfl⟩
  · obtain ⟨hfirst, hlen⟩ := hkept hcached W hW
    exact happ.nullsFirst hU hfirst hlen
  obtain ⟨hpos, hfirst, hlen⟩ := hhits hits hhit W hW
  have hskip : m.getNumSkippedTokens total / m.blockSize = m.windowStart W total := by
    simp only [getNumSkippedTokens, hW, windowStart]
  refine happ.nullsFirst hU ?_ ?_
  · rw [hitTable, hskip]
    exact hfirst.padded _
  · rw [length_hitTable, hskip]
    exact max_le (windowStart_le_cdiv hpos ((le_max_left _ _).trans hU)) hlen

end SingleTypeKVCacheManager

namespace KVCacheManager

open SingleTypeKVCacheManager

variable {k : KVCacheManager} {id : ReqId} {p : BlockPool} {null : Ref} {N U : ℕ}
  {request : Request} {a : SlotArgs}

def Slid (null : Ref) (id : ReqId) (N U : ℕ) (k : KVCacheManager) : Prop :=
  ∀ m ∈ k.singleTypeManagers, m.Slid null id N U

/-- What `allocate_slots` needs so that the window moves on with the computed tokens, for slots of
at most `U` tokens. -/
structure SlotsInWindow (null : Ref) (U : ℕ) (request : Request) (a : SlotArgs) (k : KVCacheManager) :
    Prop where
  fits : a.numLocalComputedTokens request + a.numExternalComputedTokens ≤ k.maxModelLen
  total : a.numLocalComputedTokens request + a.numExternalComputedTokens ≤ U
  slots : a.numTokensNeedSlot k request ≤ U
  tables : ∀ m ∈ k.singleTypeManagers, ∀ W, m.kind = .slidingWindow W →
    NullsFirst null 0 (m.table request.requestId) ∧
      (m.table request.requestId).length ≤ cdiv U m.blockSize
  covered : ∀ m ∈ k.singleTypeManagers, ∀ W, m.kind = .slidingWindow W →
    m.windowStart W (a.numLocalComputedTokens request + a.numExternalComputedTokens) ≤
        (m.table request.requestId).length ∨
      a.Enters ∧ m.numCachedBlock.get? request.requestId = none
  hits : ∀ (i : ℕ) m l, k.singleTypeManagers[i]? = some m → (a.hits k)[i]? = some l →
    HitsInWindow null U l m

theorem SlotsInWindow.hits_of_swept {n k1} (h : SlotsInWindow null U request a k)
    (hswept : Each (Swept null id n) k k1) {m1 l}
    (hl : a.HitsOf k1 m1 l) : HitsInWindow null U l m1 := by
  obtain ⟨i, hi, hl⟩ := hl
  obtain ⟨m, hm, hQ⟩ := hswept.source hi
  have hhits : a.hits k1 = a.hits k := by rw [SlotArgs.hits, SlotArgs.hits, hswept.length]
  intro W hW
  rw [hQ.kind_eq] at hW
  rw [hQ.blockSize_eq]
  exact h.hits i m l hm (hhits ▸ hl) W hW

theorem allocateSlots_slid (hp : NullApart null p) (h : SlotsInWindow null U request a k) (H) :
    Ensures (k.allocateSlots H request a) p
      (fun out p' ↦ NullApart null p' ∧ Each (OnlyFor request.requestId) k out.1 ∧
        if out.2.isSome then
          Slid null request.requestId
            (a.numLocalComputedTokens request + a.numExternalComputedTokens) U out.1 ∧
          Reaches request.requestId (a.numTokensNeedSlot k request) out.1
        else Each (Trimmed request.requestId) k out.1 ∧ ∀ m ∈ out.1.singleTypeManagers,
          ∀ W, m.kind = .slidingWindow W → NullsFirst null 0 (m.table request.requestId)) := by
  refine (allocateSlots_supplied hp H).mono fun out p' ho ↦ ⟨ho.1, ?_⟩
  rcases ho.2 with ⟨hk, hnone⟩ | ⟨k1, hswept, hcase⟩
  · rw [hk, hnone]
    exact ⟨.refl (OnlyFor.refl _) k, .refl (Trimmed.refl _) k, fun m hm W hW ↦ (h.tables m hm W hW).1⟩
  rw [SlotArgs.totalComputedTokens, min_eq_left h.fits] at hswept
  have honly : Each (OnlyFor request.requestId) k k1 := hswept.mono fun _ _ h ↦ h.toOnlyFor
  split at hcase
  next hsome =>
    rw [if_pos hsome]
    refine ⟨honly.comp hcase fun _ _ _ h h' ↦ h.trans h'.toOnlyFor, fun m' hm' ↦ ?_, fun m' hm' W hW ↦ ?_⟩
    all_goals obtain ⟨m1, hm1, hQ⟩ := hcase.mem hm'
    · refine hQ.slid (max_le h.total h.slots) (fun hcached W hW ↦ ?_) fun l ↦ h.hits_of_swept hswept
      obtain ⟨m, hm, hsw⟩ := hswept.mem hm1
      have hkind : m.kind = .slidingWindow W := hsw.kind_eq ▸ hW
      obtain ⟨hfirst, hlen⟩ := h.tables m hm W hkind
      rw [hsw.length, windowStart, hsw.blockSize_eq, hsw.self W hkind]
      rcases h.covered m hm W hkind with hstart | ⟨henter, hnone⟩
      · rw [min_eq_left hstart]
        exact ⟨hfirst.removeLoop hstart, hlen⟩
      · have := hcached henter
        rw [hsw.cached W hkind, hnone] at this
        cases this
    · rw [hQ.blockSize_eq]
      exact hQ.reaches W (hQ.kind_eq ▸ hW)
  next hnone =>
    rw [if_neg hnone, hcase]
    refine ⟨honly, hswept.mono fun _ _ h ↦ h.toTrimmed, fun m1 hm1 W hW ↦ ?_⟩
    obtain ⟨m, hm, hsw⟩ := hswept.mem hm1
    have hkind : m.kind = .slidingWindow W := hsw.kind_eq ▸ hW
    rw [hsw.self W hkind]
    exact ((h.tables m hm W hkind).1.removeLoop (min_le_right _ _)).mono (Nat.zero_le _)

theorem init_maxModelLen {cfg pool} (h : init cfg = .ok (k, pool)) :
    k.maxModelLen = cfg.maxModelLen := by
  unfold init at h
  split at h
  · cases h
  split at h
  · cases h
  · cases h
  · cases h
    rfl

end KVCacheManager

end VllmEngine.Core

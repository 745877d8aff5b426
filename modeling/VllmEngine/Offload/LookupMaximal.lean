import VllmEngine.Offload.LookupInvariant

namespace VllmEngine.Offload

open VllmEngine.Core List

section

variable {lookup : Lookup} {keys : List OffloadKey} {n k size c : ℕ}

theorem prefixLoop_reaches (hans : ∀ key, lookup key ≠ none)
    (hhits : ∀ i, i < k → HitAt lookup keys i) :
    ∃ m, prefixLoop lookup keys false n = some m ∧ n + k ≤ m := by
  induction keys generalizing n k with
  | nil =>
    refine ⟨n, rfl, ?_⟩
    cases k with
    | zero => exact le_refl _
    | succ k =>
      obtain ⟨key, hkey, -⟩ := hhits 0 (Nat.succ_pos k)
      simp at hkey
  | cons key keys ih =>
    unfold prefixLoop
    split
    next hnone => exact absurd hnone (hans key)
    next hmiss =>
      refine ⟨n, rfl, ?_⟩
      cases k with
      | zero => exact le_refl _
      | succ k =>
        obtain ⟨key', hkey', hhit⟩ := hhits 0 (Nat.succ_pos k)
        obtain rfl : key = key' := by simpa using hkey'
        rw [hmiss] at hhit
        cases hhit
    · obtain ⟨m, hm, hle⟩ := ih (k := k - 1) fun i hi ↦ hhits (i + 1) (by omega)
      exact ⟨m, hm, by omega⟩

theorem windowLoop_reaches (hans : ∀ key, lookup key ≠ none) (hn : n ≤ keys.length) (hc : c < size)
    (hk : k ≤ n + c) (hwin : ∀ i, i < k → k ≤ i + size → HitAt lookup keys i) :
    ∃ e, windowLoop lookup size (keys.take n).reverse false c = some e ∧ k ≤ e := by
  induction n generalizing c with
  | zero => exact ⟨c, rfl, by omega⟩
  | succ n ih =>
    have hget := getElem?_eq_getElem (show n < keys.length by omega)
    rw [reverse_take_succ hget]
    unfold windowLoop
    split
    next hnone => exact absurd hnone (hans _)
    next hmiss =>
      refine ih (by omega) (by omega) ?_
      by_contra hlt
      obtain ⟨key, hkey, hhit⟩ := hwin n (by omega) (by omega)
      obtain rfl := Option.some.inj (hget.symm.trans hkey)
      rw [hmiss] at hhit
      cases hhit
    · split
      next hsize =>
        refine ⟨_, rfl, ?_⟩
        rw [length_reverse, length_take]
        omega
      next hsize => exact ih (by omega) (by omega) (by omega)

end

variable {lookup : Lookup} {numComputedTokens numTokens T : ℕ} {groups todo : List LookupGroup}
  {g : LookupGroup} {st : LookupState} {M : ℕ}

structure Reachable (lookup : Lookup) (numComputedTokens : ℕ) (groups : List LookupGroup) (T : ℕ) :
    Prop where
  answers : ∀ key, lookup key ≠ none
  confirmed : ∀ g ∈ groups, Confirmed lookup numComputedTokens g T
  keys : ∀ g ∈ groups, T ≤ g.offloadKeys.length * g.blockSize
  block : ∀ g ∈ groups, numComputedTokens + g.blockSize ≤ T

theorem candidates_hitAt {i} (hpos : 0 < g.blockSize)
    (hlen : M ≤ g.offloadKeys.length * g.blockSize)
    (hi : numComputedTokens / g.blockSize + i < cdiv M g.blockSize)
    (h : HitAt lookup g.offloadKeys (numComputedTokens / g.blockSize + i)) :
    HitAt lookup (g.candidates numComputedTokens M) i := by
  obtain ⟨key, hget, hkey⟩ := h
  have hle := (cdiv_le_iff hpos).mpr hlen
  refine ⟨key, ?_, hkey⟩
  rw [LookupGroup.candidates, getElem?_drop, getElem?_take, if_pos (by omega)]
  exact hget

theorem numHitBlocks_reaches (hans : ∀ key, lookup key ≠ none) (hpos : 0 < g.blockSize)
    (hsize : ∀ size ∈ g.window, 0 < size) (hlen : M ≤ g.offloadKeys.length * g.blockSize)
    (hle : T ≤ M) (hconf : Confirmed lookup numComputedTokens g T) :
    ∃ h, g.numHitBlocks lookup numComputedTokens M = some h ∧
      cdiv T g.blockSize ≤ numComputedTokens / g.blockSize + h := by
  have hcand := length_candidates numComputedTokens hlen hpos
  have hmono := cdiv_mono hle g.blockSize
  have hhit : ∀ i, i < cdiv T g.blockSize - numComputedTokens / g.blockSize →
      (∀ size, g.window = some size →
        cdiv T g.blockSize ≤ numComputedTokens / g.blockSize + i + size) →
      HitAt lookup (g.candidates numComputedTokens M) i := by
    intro i hi hwin
    refine candidates_hitAt hpos hlen (by omega) (hconf _ (by omega) (by omega) hwin)
  unfold LookupGroup.numHitBlocks
  split
  next hfull =>
    obtain ⟨m, hm, hreach⟩ := prefixLoop_reaches hans fun i hi ↦
      hhit i hi fun size hsome ↦ by
        rw [hfull] at hsome
        cases hsome
    exact ⟨m, hm, by omega⟩
  next size hw =>
    obtain ⟨e, he, hreach⟩ := windowLoop_reaches hans (le_refl _)
      (hsize size hw) (by omega) fun i hi hend ↦ hhit i hi fun size' hsome ↦ by
        obtain rfl := Option.some.inj (hw.symm.trans hsome)
        omega
    rw [take_length] at he
    exact ⟨e, he, by omega⟩

theorem tighten_deferLookup (M') :
    (tighten numComputedTokens groups g st false M').deferLookup = false := by
  unfold tighten
  dsimp only
  split
  · split
    · rfl
    · split <;> rfl
  · rfl

theorem lookupGroup_reaches (h : Reachable lookup numComputedTokens groups T) (hg : g ∈ groups)
    (hf : Filled numTokens groups) (hle : T ≤ st.maxHitSizeTokens) (hd : st.deferLookup = false) :
    ∃ st', lookupGroup lookup numComputedTokens groups numTokens g st = .ok st' ∧
      T ≤ st'.maxHitSizeTokens ∧ st'.deferLookup = false := by
  have hpos := hf.blockSize_pos g hg
  have hkeys := h.keys g hg
  have hblock := h.block g hg
  obtain ⟨hits, hhits, hreach⟩ := numHitBlocks_reaches (M := min st.maxHitSizeTokens
    (g.offloadKeys.length * g.blockSize)) h.answers hpos (hf.window_pos g hg)
    (min_le_right _ _) (le_min hle hkeys) (h.confirmed g hg)
  have hbound : T ≤ g.blockSize * (numComputedTokens / g.blockSize + hits) := by
    rw [mul_comm]
    exact (cdiv_le_iff hpos).mp hreach
  have hmin := le_min (le_min hle hkeys) hbound
  have hne : hits ≠ 0 := by
    intro hzero
    have := Nat.mul_div_le numComputedTokens g.blockSize
    rw [hzero, add_zero] at hbound
    omega
  unfold lookupGroup
  rw [if_neg (not_lt.mpr (hf.keys g hg)), if_neg (by omega), hhits]
  split
  next heq => exact absurd (Option.some.inj heq) hne
  next heq => cases heq
  next hits' _ heq =>
    cases heq
    rw [if_neg (by omega), hd]
    exact ⟨_, rfl, hmin, tighten_deferLookup _⟩

theorem lookupPass_reaches (h : Reachable lookup numComputedTokens groups T)
    (hmem : ∀ g ∈ todo, g ∈ groups) (hf : Filled numTokens groups) (st)
    (hle : T ≤ st.maxHitSizeTokens) (hd : st.deferLookup = false) :
    ∃ st', lookupPass lookup numComputedTokens groups numTokens todo st = .ok st' ∧
      T ≤ st'.maxHitSizeTokens ∧ st'.deferLookup = false := by
  induction todo generalizing st with
  | nil => exact ⟨st, rfl, hle, hd⟩
  | cons g todo ih =>
    obtain ⟨st1, hst1, hle1, hd1⟩ := lookupGroup_reaches h (hmem g (by simp)) hf hle hd
    unfold lookupPass
    rw [hst1]
    exact ih (fun g' hg' ↦ hmem g' (by simp [hg'])) st1 hle1 hd1

theorem lookupTokens_reaches {req} (hf : Filled req.numTokens groups)
    (hne : groups ≠ []) (hr : Reachable lookup numComputedTokens groups T)
    (hle : T ≤ startTokens groups req.numTokens) :
    ∃ n, lookupTokens lookup [] req groups numComputedTokens = .ok (some n) ∧ 0 < n ∧
      T ≤ numComputedTokens + n := by
  have hsome : lookupGroups groups ≠ [] := by
    obtain ⟨g, hg⟩ := exists_mem_of_ne_nil groups hne
    exact ne_nil_of_mem (mem_lookupGroups.mpr hg)
  have hready := ready_start lookup numComputedTokens groups (startTokens groups req.numTokens)
  have hfuel := Nat.lt_succ_of_le (startTokens_le groups req.numTokens)
  obtain ⟨-, hfalse⟩ | ⟨st, hrun, hs, hreach, hd⟩ := lookupLoop_rule (E := False)
    (P := fun st ↦ T ≤ st.maxHitSizeTokens ∧ st.deferLookup = false) hf
    (fun h hP ↦ .inr (lookupPass_reaches hr (fun _ hg ↦ h.mem hg) hf _ hP.1 hP.2)) hready
    ⟨hle, rfl⟩ hsome hfuel
  · exact hfalse.elim
  have hcount := hs.counted
  have hcomp := hs.computed
  refine ⟨st.numHitTokens, ?_, by omega, by omega⟩
  unfold lookupTokens
  rw [hrun]
  simp [hd]

theorem Confirmed.le_of_misses (h : Confirmed lookup numComputedTokens g M) (hpos : 0 < g.blockSize)
    (hsize : ∀ size ∈ g.window, 0 < size) (hdvd : g.blockSize ∣ T) (hcomp : numComputedTokens ≤ T)
    (hmiss : ∀ j, T / g.blockSize ≤ j → ¬ HitAt lookup g.offloadKeys j) : M ≤ T := by
  obtain ⟨k, rfl⟩ := hdvd
  rw [Nat.mul_div_cancel_left _ hpos] at hmiss
  rw [Nat.mul_comm, ← cdiv_le_iff hpos]
  by_contra hlt
  refine hmiss (cdiv M g.blockSize - 1) (by omega) (h _ ?_ (by omega) fun size hw ↦ ?_)
  · have := Nat.div_le_div_right (c := g.blockSize) hcomp
    rw [Nat.mul_div_cancel_left _ hpos] at this
    omega
  · have := hsize size hw
    omega

end VllmEngine.Offload

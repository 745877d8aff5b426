import VllmEngine.Core.TableShapes
import VllmEngine.Offload.OffloadLookup

namespace VllmEngine.Offload

open VllmEngine.Core List

def HitAt (lookup : Lookup) (keys : List OffloadKey) (i : ℕ) : Prop :=
  ∃ key, keys[i]? = some key ∧ lookup key = some true

section

variable {lookup : Lookup} {keys : List OffloadKey} {n m size c e : ℕ}

theorem prefixLoop_deferred : prefixLoop lookup keys true n = none := by
  induction keys generalizing n with
  | nil => rfl
  | cons key keys ih =>
    unfold prefixLoop
    split
    · exact ih
    · rfl
    · exact ih

theorem prefixLoop_hits (h : prefixLoop lookup keys false n = some m) :
    n ≤ m ∧ m ≤ n + keys.length ∧ ∀ i, n + i < m → HitAt lookup keys i := by
  induction keys generalizing n with
  | nil =>
    obtain rfl : n = m := by simpa [prefixLoop] using h
    exact ⟨le_refl _, le_refl _, fun i hi ↦ by omega⟩
  | cons key keys ih =>
    unfold prefixLoop at h
    split at h
    · rw [prefixLoop_deferred] at h
      cases h
    · obtain rfl : n = m := by simpa using h
      exact ⟨le_refl _, by omega, fun i hi ↦ by omega⟩
    next hkey =>
      obtain ⟨hle, hlen, hhits⟩ := ih h
      refine ⟨by omega, by rw [length_cons]; omega, fun i hi ↦ ?_⟩
      cases i with
      | zero => exact ⟨key, rfl, hkey⟩
      | succ i => exact hhits i (by omega)

theorem windowLoop_deferred : windowLoop lookup size keys true c = none := by
  induction keys generalizing c with
  | nil => rfl
  | cons key keys ih =>
    unfold windowLoop
    split
    · exact ih
    · exact ih
    · split
      · rfl
      · exact ih

theorem reverse_take_succ {key} (hn : keys[n]? = some key) :
    (keys.take (n + 1)).reverse = key :: (keys.take n).reverse := by
  rw [take_add_one, hn, reverse_append]
  rfl

theorem windowLoop_hits (hn : n ≤ keys.length) (hc : c < size)
    (hrun : ∀ i, n ≤ i → i < n + c → HitAt lookup keys i)
    (h : windowLoop lookup size (keys.take n).reverse false c = some e) :
    e ≤ n + c ∧ ∀ i, e ≤ i + size → i < e → HitAt lookup keys i := by
  induction n generalizing c with
  | zero =>
    obtain rfl : c = e := by simpa [windowLoop] using h
    exact ⟨by omega, fun i _ hi ↦ hrun i (Nat.zero_le _) (by omega)⟩
  | succ n ih =>
    have hget := getElem?_eq_getElem (show n < keys.length by omega)
    rw [reverse_take_succ hget] at h
    unfold windowLoop at h
    split at h
    · rw [windowLoop_deferred] at h
      cases h
    · obtain ⟨hle, hhits⟩ := ih (by omega) (by omega) (fun i hi hi' ↦ by omega) h
      exact ⟨by omega, hhits⟩
    next hkey =>
      have hrun' : ∀ i, n ≤ i → i < n + (c + 1) → HitAt lookup keys i := by
        intro i hi hi'
        rcases eq_or_lt_of_le hi with rfl | hlt
        · exact ⟨_, hget, hkey⟩
        · exact hrun i hlt (by omega)
      split at h
      next hsize =>
        obtain rfl : n + size = e := by
          simpa [length_take, min_eq_left (show n ≤ keys.length by omega)] using h
        exact ⟨by omega, fun i hi hi' ↦ hrun' i (by omega) (by omega)⟩
      next hsize =>
        obtain ⟨hle, hhits⟩ := ih (by omega) (by omega) hrun' h
        exact ⟨by omega, hhits⟩

end

section

variable {lookup : Lookup} {numComputedTokens numTokens : ℕ} {groups : List LookupGroup}
  {g : LookupGroup} {st st' : LookupState} {M M' : ℕ}

/-- The blocks of the group that a hit of the length `M` needs are hits: all for full attention, or
those of the window, in whole blocks. -/
def Confirmed (lookup : Lookup) (numComputedTokens : ℕ) (g : LookupGroup) (M : ℕ) : Prop :=
  ∀ j, numComputedTokens / g.blockSize ≤ j → j < cdiv M g.blockSize →
    (∀ size, g.window = some size → cdiv M g.blockSize ≤ j + size) → HitAt lookup g.offloadKeys j

theorem Confirmed.shorter (h : Confirmed lookup numComputedTokens g M) (hfull : g.window = none)
    (hle : M' ≤ M) : Confirmed lookup numComputedTokens g M' := by
  intro j hj hj' _
  refine h j hj (hj'.trans_le (cdiv_mono hle _)) fun size hsize ↦ ?_
  rw [hfull] at hsize
  cases hsize

theorem hitAt_candidates {i} (h : HitAt lookup (g.candidates numComputedTokens M) i) :
    HitAt lookup g.offloadKeys (numComputedTokens / g.blockSize + i) := by
  obtain ⟨key, hget, hkey⟩ := h
  rw [LookupGroup.candidates, getElem?_drop, getElem?_take] at hget
  split at hget
  · exact ⟨key, hget, hkey⟩
  · cases hget

theorem length_candidates (numComputedTokens) (hlen : M ≤ g.offloadKeys.length * g.blockSize)
    (hpos : 0 < g.blockSize) :
    (g.candidates numComputedTokens M).length =
      cdiv M g.blockSize - numComputedTokens / g.blockSize := by
  have hle := (cdiv_le_iff hpos).mpr hlen
  rw [LookupGroup.candidates, length_drop, length_take]
  omega

theorem cdiv_min_mul {k B} (hpos : 0 < B) : cdiv (min M (B * k)) B = min (cdiv M B) k := by
  rcases le_total M (B * k) with h | h
  · rw [min_eq_left h, min_eq_left ((cdiv_le_iff hpos).mpr (mul_comm B k ▸ h))]
  have hk : k ≤ cdiv M B := by
    by_contra hlt
    have hle := (cdiv_le_iff hpos).mp (show cdiv M B ≤ k - 1 by omega)
    have hmul : (k - 1) * B + B = B * k := by
      rw [Nat.mul_comm B k, ← Nat.succ_mul]
      congr 1
      omega
    omega
  rw [min_eq_right h, min_eq_right hk, mul_comm, cdiv_mul_self k hpos]

theorem numHitBlocks_confirmed (hpos : 0 < g.blockSize) (hsize : ∀ size ∈ g.window, 0 < size)
    (hlen : M ≤ g.offloadKeys.length * g.blockSize) {h}
    (hhits : g.numHitBlocks lookup numComputedTokens M = some h) :
    Confirmed lookup numComputedTokens g
      (min M (g.blockSize * (numComputedTokens / g.blockSize + h))) := by
  have hcand := length_candidates numComputedTokens hlen hpos
  intro j hj hj' hwin
  rw [cdiv_min_mul hpos] at hj' hwin
  have hshift : numComputedTokens / g.blockSize + (j - numComputedTokens / g.blockSize) = j := by
    omega
  rw [← hshift]
  apply hitAt_candidates
  unfold LookupGroup.numHitBlocks at hhits
  split at hhits
  · obtain ⟨-, -, hrun⟩ := prefixLoop_hits hhits
    exact hrun _ (by omega)
  next size hw =>
    rw [← take_length (l := g.candidates numComputedTokens M)] at hhits
    obtain ⟨hle, hrun⟩ := windowLoop_hits (le_refl _) (hsize size hw)
      (fun i hi hi' ↦ by omega) hhits
    have hend := hwin size hw
    exact hrun _ (by omega) (by omega)

structure GroupStep (lookup : Lookup) (numComputedTokens : ℕ) (g : LookupGroup) (st : LookupState)
    (deferLookup : Bool) (M' : ℕ) : Prop where
  le : M' ≤ st.maxHitSizeTokens
  keys : M' ≤ g.offloadKeys.length * g.blockSize
  block : numComputedTokens + g.blockSize ≤ M'
  form : M' = st.maxHitSizeTokens ∨ g.blockSize ∣ M'
  answered : deferLookup = true ∨
    deferLookup = st.deferLookup ∧ Confirmed lookup numComputedTokens g M'

theorem lookupGroup_step (hpos : 0 < g.blockSize) (hsize : ∀ size ∈ g.window, 0 < size)
    (h : lookupGroup lookup numComputedTokens groups numTokens g st = .ok st') :
    ∃ d M', GroupStep lookup numComputedTokens g st d M' ∧
      st' = tighten numComputedTokens groups g st d M' := by
  unfold lookupGroup at h
  dsimp only at h
  split at h
  · cases h
  have hform : min st.maxHitSizeTokens (g.offloadKeys.length * g.blockSize) = st.maxHitSizeTokens ∨
      g.blockSize ∣ min st.maxHitSizeTokens (g.offloadKeys.length * g.blockSize) := by
    rcases le_total st.maxHitSizeTokens (g.offloadKeys.length * g.blockSize) with hle | hle
    · exact .inl (min_eq_left hle)
    · right
      rw [min_eq_right hle]
      exact dvd_mul_left _ _
  split at h
  · cases h
  next hroom =>
    split at h
    · cases h
    · exact ⟨true, _, ⟨min_le_left _ _, min_le_right _ _, by omega, hform, .inl rfl⟩,
        (Except.ok.inj h).symm⟩
    next numHitBlocks hne hhits =>
      split at h
      · cases h
      next hroom' =>
        refine ⟨st.deferLookup, _, ⟨?_, ?_, by omega, ?_, .inr ⟨rfl, numHitBlocks_confirmed hpos hsize
          (min_le_right _ _) hhits⟩⟩, (Except.ok.inj h).symm⟩
        · exact (min_le_left _ _).trans (min_le_left _ _)
        · exact (min_le_left _ _).trans (min_le_right _ _)
        rcases le_total (min st.maxHitSizeTokens (g.offloadKeys.length * g.blockSize))
          (g.blockSize * (numComputedTokens / g.blockSize + numHitBlocks)) with hle | hle
        · rw [min_eq_left hle]
          exact hform
        · right
          rw [min_eq_right hle]
          exact dvd_mul_right _ _

/-- What is known during an iteration that started with the bound `M`: which groups have answered
for the bound, unless the outer loop goes on. -/
structure Underway (lookup : Lookup) (numComputedTokens : ℕ) (groups : List LookupGroup) (M : ℕ)
    (done todo : List LookupGroup) (st : LookupState) : Prop where
  answered : st.deferLookup = true ∨ st.lookupGroups = lookupGroups groups ∨
    (∀ g ∈ groups, g.window = none → g ∉ todo →
      Confirmed lookup numComputedTokens g st.maxHitSizeTokens) ∧
    (st.lookupGroups = slidingWindowGroups groups ∨ ∀ g ∈ done, g.window ≠ none →
      Confirmed lookup numComputedTokens g st.maxHitSizeTokens)
  counted : st.numHitTokens = st.maxHitSizeTokens - numComputedTokens ∨
    done = [] ∧ st.numHitTokens = 0
  again : st.lookupGroups = [] ∨ st.lookupGroups = slidingWindowGroups groups ∨
    st.lookupGroups = lookupGroups groups
  lowered : st.lookupGroups ≠ [] → st.maxHitSizeTokens < M
  le : st.maxHitSizeTokens ≤ M
  looked : st.lookedUpSlidingWindow = false → ∀ g ∈ done, g.window = none

variable {done todo : List LookupGroup}

theorem tighten_cases (numComputedTokens) (groups) (g : LookupGroup) (st) (d) (M') :
    let st' := tighten numComputedTokens groups g st d M'
    (¬ M' - numComputedTokens < st.numHitTokens ∧ st'.deferLookup = d ∧
      st'.lookupGroups = st.lookupGroups) ∨
    (M' - numComputedTokens < st.numHitTokens ∧ st'.lookupGroups = lookupGroups groups) ∨
    (M' - numComputedTokens < st.numHitTokens ∧ d = false ∧ st.lookupGroups = [] ∧
      st'.lookupGroups = slidingWindowGroups groups) ∨
    (d = false ∧ ¬ (st.lookedUpSlidingWindow = true ∧ st.lookupGroups = []) ∧
      st'.lookupGroups = st.lookupGroups) := by
  unfold tighten
  by_cases hlow : M' - numComputedTokens < st.numHitTokens
  · simp only [if_pos hlow]
    cases d with
    | true => exact .inr (.inl ⟨hlow, rfl⟩)
    | false =>
      by_cases hagain : st.lookedUpSlidingWindow = true ∧ st.lookupGroups = []
      · exact .inr (.inr (.inl ⟨hlow, rfl, hagain.2, by simp [hagain]⟩))
      · exact .inr (.inr (.inr ⟨rfl, hagain, by simp [hagain]⟩))
  · exact .inl ⟨hlow, by simp [hlow], by simp [hlow]⟩

section

variable (h : Underway lookup numComputedTokens groups M done (g :: todo) st)

include h

theorem Underway.full
    (hle : M' ≤ st.maxHitSizeTokens) (hg : Confirmed lookup numComputedTokens g M')
    (hdefer : st.deferLookup = false) (hall : st.lookupGroups ≠ lookupGroups groups) :
    ∀ g' ∈ groups, g'.window = none → g' ∉ todo → Confirmed lookup numComputedTokens g' M' := by
  intro g' hg' hfull hnot
  rcases h.answered with hd | ha | hc
  · rw [hdefer] at hd
    cases hd
  · exact absurd ha hall
  by_cases heq : g' = g
  · rw [heq]
    exact hg
  · exact (hc.1 g' hg' hfull (by simp [heq, hnot])).shorter hfull hle

theorem Underway.windows
    (hdefer : st.deferLookup = false) (hall : st.lookupGroups ≠ lookupGroups groups)
    (hsw : st.lookupGroups ≠ slidingWindowGroups groups) :
    ∀ g' ∈ done, g'.window ≠ none → Confirmed lookup numComputedTokens g' st.maxHitSizeTokens := by
  rcases h.answered with hd | ha | hc
  · rw [hdefer] at hd
    cases hd
  · exact absurd ha hall
  · exact hc.2.resolve_left hsw

theorem Underway.step {d} (hs : GroupStep lookup numComputedTokens g st d M') :
    Underway lookup numComputedTokens groups M (done ++ [g]) todo
      (tighten numComputedTokens groups g st d M') := by
  have hle := hs.le
  have hroom := hs.block
  have hM := h.le
  have hcount := h.counted
  have hlast : ∀ {P : LookupGroup → Prop}, (∀ g' ∈ done, P g') → P g → ∀ g' ∈ done ++ [g], P g' := by
    intro P hdone hg g' hg'
    rcases mem_append.mp hg' with hmem | hmem
    · exact hdone g' hmem
    · rw [mem_singleton.mp hmem]
      exact hg
  have hcases := tighten_cases numComputedTokens groups g st d M'
  refine ⟨?_, .inl rfl, ?_, fun hne ↦ ?_, hle.trans hM, fun hlook ↦ ?_⟩
  · rcases hcases with ⟨hsame, hd, hnext⟩ | ⟨-, hnext⟩ | ⟨-, hd, hnil, hnext⟩ | ⟨hd, hfirst, hnext⟩
    · rcases hs.answered with htrue | ⟨hdefer, hconf⟩
      · exact .inl (hd.trans htrue)
      by_cases hst : st.deferLookup = true
      · exact .inl (hd.trans (hdefer.trans hst))
      have hst : st.deferLookup = false := by simpa using hst
      by_cases hall : st.lookupGroups = lookupGroups groups
      · exact .inr (.inl (hnext.trans hall))
      refine .inr (.inr ⟨h.full hle hconf hst hall, ?_⟩)
      by_cases hsw : st.lookupGroups = slidingWindowGroups groups
      · exact .inl (hnext.trans hsw)
      refine .inr (hlast (fun g' hg' hwin ↦ ?_) fun _ ↦ hconf)
      -- nothing has been tightened since the other groups of this iteration answered
      have hnum : st.numHitTokens = st.maxHitSizeTokens - numComputedTokens := by
        rcases hcount with hnum | ⟨hnil, -⟩
        · exact hnum
        · rw [hnil] at hg'
          cases hg'
      have hM' : M' = st.maxHitSizeTokens := by omega
      exact hM' ▸ h.windows hst hall hsw g' hg' hwin
    · exact .inr (.inl hnext)
    · rcases hs.answered with htrue | ⟨hdefer, hconf⟩
      · rw [hd] at htrue
        cases htrue
      by_cases hall : st.lookupGroups = lookupGroups groups
      · have hnone := append_eq_nil_iff.mp (hall.symm.trans hnil)
        exact .inr (.inl (hnext.trans (hnone.2.trans (hnil.symm.trans hall))))
      exact .inr (.inr ⟨h.full hle hconf (hdefer.symm.trans hd) hall, .inl hnext⟩)
    · rcases hs.answered with htrue | ⟨hdefer, hconf⟩
      · rw [hd] at htrue
        cases htrue
      have hst := hdefer.symm.trans hd
      by_cases hall : st.lookupGroups = lookupGroups groups
      · exact .inr (.inl (hnext.trans hall))
      refine .inr (.inr ⟨h.full hle hconf hst hall, ?_⟩)
      by_cases hsw : st.lookupGroups = slidingWindowGroups groups
      · exact .inl (hnext.trans hsw)
      -- no window has been looked up in this iteration, so that there is none to look up again
      have hnil : st.lookupGroups = [] := by
        rcases h.again with hnil | hsw' | hall'
        · exact hnil
        · exact absurd hsw' hsw
        · exact absurd hall' hall
      have hlooked : st.lookedUpSlidingWindow = false := by simpa [hnil] using hfirst
      exact .inr (hlast (fun g' hg' hwin ↦ absurd (h.looked hlooked g' hg') hwin) fun _ ↦ hconf)
  · rcases hcases with ⟨-, -, hnext⟩ | ⟨-, hnext⟩ | ⟨-, -, -, hnext⟩ | ⟨-, -, hnext⟩
    · exact hnext ▸ h.again
    · exact .inr (.inr hnext)
    · exact .inr (.inl hnext)
    · exact hnext ▸ h.again
  · change M' < M
    rcases hcases with ⟨-, -, hnext⟩ | ⟨hlow, -⟩ | ⟨hlow, -⟩ | ⟨-, -, hnext⟩
    · exact hle.trans_lt (h.lowered (hnext ▸ hne))
    · omega
    · omega
    · exact hle.trans_lt (h.lowered (hnext ▸ hne))
  · obtain ⟨hbefore, hg⟩ : st.lookedUpSlidingWindow = false ∧ g.window = none := by
      simpa [tighten] using hlook
    exact hlast (h.looked hbefore) hg

end

structure Bounded (numComputedTokens : ℕ) (todo : List LookupGroup) (M M' : ℕ) : Prop where
  le : M' ≤ M
  keys : ∀ g ∈ todo, M' ≤ g.offloadKeys.length * g.blockSize
  form : M' = M ∨ ∃ g ∈ todo, g.blockSize ∣ M'
  block : ∀ g ∈ todo, numComputedTokens + g.blockSize ≤ M
  computed : todo ≠ [] → numComputedTokens < M'

theorem lookupPass_underway (hpos : ∀ g ∈ todo, 0 < g.blockSize)
    (hsize : ∀ g ∈ todo, ∀ size ∈ g.window, 0 < size)
    (h : Underway lookup numComputedTokens groups M done todo st)
    (hrun : lookupPass lookup numComputedTokens groups numTokens todo st = .ok st') :
    Underway lookup numComputedTokens groups M (done ++ todo) [] st' ∧
      Bounded numComputedTokens todo st.maxHitSizeTokens st'.maxHitSizeTokens := by
  induction todo generalizing done st with
  | nil =>
    cases hrun
    rw [append_nil]
    exact ⟨h, le_refl _, by simp, .inl rfl, by simp, fun hne ↦ absurd rfl hne⟩
  | cons g todo ih =>
    obtain ⟨st1, hst1, hrun⟩ := Lib.of_bind_eq_ok hrun
    obtain ⟨d, M', hs, rfl⟩ := lookupGroup_step (hpos g (by simp)) (hsize g (by simp)) hst1
    obtain ⟨hend, hb⟩ := ih (fun g' hg' ↦ hpos g' (by simp [hg']))
      (fun g' hg' ↦ hsize g' (by simp [hg'])) (h.step hs) hrun
    have hle : st'.maxHitSizeTokens ≤ M' := hb.le
    have hblock := hs.block
    have hposg := hpos g (by simp)
    refine ⟨by simpa using hend, hle.trans hs.le, fun g' hg' ↦ ?_, ?_, fun g' hg' ↦ ?_, fun _ ↦ ?_⟩
    · rcases mem_cons.mp hg' with rfl | hg'
      · exact hle.trans hs.keys
      · exact hb.keys g' hg'
    · rcases hb.form with heq | ⟨g', hg', hdvd⟩
      · rcases hs.form with heq' | hdvd
        · exact .inl (heq.trans heq')
        · exact .inr ⟨g, by simp, heq ▸ hdvd⟩
      · exact .inr ⟨g', by simp [hg'], hdvd⟩
    · rcases mem_cons.mp hg' with rfl | hg'
      · exact hblock.trans hs.le
      · exact (hb.block g' hg').trans hs.le
    · by_cases hnil : todo = []
      · subst hnil
        rcases hb.form with heq | ⟨g', hg', -⟩
        · change st'.maxHitSizeTokens = M' at heq
          omega
        · cases hg'
      · exact hb.computed hnil

theorem mem_slidingWindowGroups : g ∈ slidingWindowGroups groups ↔ g ∈ groups ∧ g.window ≠ none := by
  rw [slidingWindowGroups, mem_mergeSort, mem_filter, Option.isSome_iff_ne_none]

theorem mem_lookupGroups : g ∈ lookupGroups groups ↔ g ∈ groups := by
  rw [lookupGroups, mem_append, mem_slidingWindowGroups, mem_filter,
    Option.isNone_iff_eq_none, ← and_or_left]
  simp [em]

structure Filled (numTokens : ℕ) (groups : List LookupGroup) : Prop where
  blockSize_pos : ∀ g ∈ groups, 0 < g.blockSize
  window_pos : ∀ g ∈ groups, ∀ size ∈ g.window, 0 < size
  keys : ∀ g ∈ groups, numTokens / g.blockSize ≤ g.offloadKeys.length

/-- What holds before an iteration of the outer loop over `todo`, when the bound was `start` first.
-/
structure Ready (lookup : Lookup) (numComputedTokens : ℕ) (groups : List LookupGroup) (start : ℕ)
    (todo : List LookupGroup) (st : LookupState) : Prop where
  underway : Underway lookup numComputedTokens groups st.maxHitSizeTokens [] todo
    { st with lookupGroups := [], lookedUpSlidingWindow := false }
  todo_eq : todo = lookupGroups groups ∨ todo = slidingWindowGroups groups
  keys : ∀ g ∈ groups, g ∉ todo → st.maxHitSizeTokens ≤ g.offloadKeys.length * g.blockSize
  form : st.maxHitSizeTokens = start ∨ ∃ g ∈ groups, g.blockSize ∣ st.maxHitSizeTokens
  block : ∀ g ∈ groups, g ∉ todo → numComputedTokens + g.blockSize ≤ start
  le : st.maxHitSizeTokens ≤ start

structure Settled (lookup : Lookup) (numComputedTokens : ℕ) (groups : List LookupGroup) (start : ℕ)
    (st : LookupState) : Prop where
  confirmed : st.deferLookup = false →
    ∀ g ∈ groups, Confirmed lookup numComputedTokens g st.maxHitSizeTokens
  counted : st.numHitTokens = st.maxHitSizeTokens - numComputedTokens
  computed : numComputedTokens < st.maxHitSizeTokens
  keys : ∀ g ∈ groups, st.maxHitSizeTokens ≤ g.offloadKeys.length * g.blockSize
  form : st.maxHitSizeTokens = start ∨ ∃ g ∈ groups, g.blockSize ∣ st.maxHitSizeTokens
  block : ∀ g ∈ groups, numComputedTokens + g.blockSize ≤ start
  le : st.maxHitSizeTokens ≤ start

variable {start : ℕ}

theorem Ready.mem (h : Ready lookup numComputedTokens groups start todo st) (hg : g ∈ todo) :
    g ∈ groups := by
  rcases h.todo_eq with rfl | rfl
  · exact mem_lookupGroups.mp hg
  · exact (mem_slidingWindowGroups.mp hg).1

theorem Ready.windows_mem (h : Ready lookup numComputedTokens groups start todo st)
    (hg : g ∈ groups) (hw : g.window ≠ none) : g ∈ todo := by
  rcases h.todo_eq with rfl | rfl
  · exact mem_lookupGroups.mpr hg
  · exact mem_slidingWindowGroups.mpr ⟨hg, hw⟩

theorem ready_start (lookup) (numComputedTokens) (groups)
    (start) : Ready lookup numComputedTokens groups start (lookupGroups groups)
      { maxHitSizeTokens := start } := by
  refine ⟨⟨.inr (.inr ⟨fun g hg _ hnot ↦ absurd (mem_lookupGroups.mpr hg) hnot, .inr (by simp)⟩),
    .inr ⟨rfl, rfl⟩, .inl rfl, fun hne ↦ absurd rfl hne, le_refl _, by simp⟩,
    .inl rfl, ?_, .inl rfl, ?_, le_refl _⟩
  · exact fun g hg hnot ↦ absurd (mem_lookupGroups.mpr hg) hnot
  · exact fun g hg hnot ↦ absurd (mem_lookupGroups.mpr hg) hnot

section

variable (h : Ready lookup numComputedTokens groups start todo st)

include h

theorem Ready.bounded (hb : Bounded numComputedTokens todo st.maxHitSizeTokens M') :
    (∀ g ∈ groups, M' ≤ g.offloadKeys.length * g.blockSize) ∧
      (M' = start ∨ ∃ g ∈ groups, g.blockSize ∣ M') ∧
      (∀ g ∈ groups, numComputedTokens + g.blockSize ≤ start) ∧ M' ≤ start := by
  refine ⟨fun g hg ↦ ?_, ?_, fun g hg ↦ ?_, hb.le.trans h.le⟩
  · by_cases hmem : g ∈ todo
    · exact hb.keys g hmem
    · exact hb.le.trans (h.keys g hg hmem)
  · rcases hb.form with heq | ⟨g, hg, hdvd⟩
    · rw [heq]
      exact h.form
    · exact .inr ⟨g, h.mem hg, hdvd⟩
  · by_cases hmem : g ∈ todo
    · exact (hb.block g hmem).trans h.le
    · exact h.block g hg hmem

section

variable (hne : todo ≠ [])
  (hend : Underway lookup numComputedTokens groups st.maxHitSizeTokens todo [] st')
  (hb : Bounded numComputedTokens todo st.maxHitSizeTokens st'.maxHitSizeTokens)

include hne hend hb

theorem Ready.settled
    (hlast : st'.lookupGroups = []) : Settled lookup numComputedTokens groups start st' := by
  obtain ⟨hkeys, hform, hblock, hle⟩ := h.bounded hb
  refine ⟨fun hdefer g hg ↦ ?_, ?_, hb.computed hne, hkeys, hform, hblock, hle⟩
  · rcases hend.answered with hd | hall | ⟨hfull, hwin⟩
    · rw [hdefer] at hd
      cases hd
    · rw [← mem_lookupGroups, ← hall, hlast] at hg
      cases hg
    by_cases hw : g.window = none
    · exact hfull g hg hw (by simp)
    rcases hwin with hsw | hwin
    · have hmem := mem_slidingWindowGroups.mpr ⟨hg, hw⟩
      rw [← hsw, hlast] at hmem
      cases hmem
    · exact hwin g (h.windows_mem hg hw) hw
  · rcases hend.counted with hcount | ⟨hnil, -⟩
    · exact hcount
    · exact absurd hnil hne

theorem Ready.again (hmore : st'.lookupGroups ≠ []) :
    Ready lookup numComputedTokens groups start st'.lookupGroups st' := by
  obtain ⟨hkeys, hform, hblock, hle⟩ := h.bounded hb
  have hnext : st'.lookupGroups = lookupGroups groups ∨
      st'.lookupGroups = slidingWindowGroups groups := (hend.again.resolve_left hmore).symm
  refine ⟨⟨?_, ?_, .inl rfl, fun hnot ↦ absurd rfl hnot, le_refl _, by simp⟩, hnext,
    fun g hg _ ↦ hkeys g hg, hform, fun g hg _ ↦ hblock g hg, hle⟩
  · rcases hend.answered with hd | hall | ⟨hfull, -⟩
    · exact .inl hd
    · refine .inr (.inr ⟨fun g hg _ hnot ↦ absurd ?_ hnot, .inr (by simp)⟩)
      rw [hall]
      exact mem_lookupGroups.mpr hg
    · exact .inr (.inr ⟨fun g hg hw _ ↦ hfull g hg hw (by simp), .inr (by simp)⟩)
  · rcases hend.counted with hcount | ⟨hnil, -⟩
    · exact .inl hcount
    · exact absurd hnil hne

end

end

theorem lookupGroup_outcome (lookup) (numComputedTokens) (groups)
    (st) (hkeys : numTokens / g.blockSize ≤ g.offloadKeys.length) :
    lookupGroup lookup numComputedTokens groups numTokens g st = .error .noHit ∨
      ∃ st', lookupGroup lookup numComputedTokens groups numTokens g st = .ok st' := by
  unfold lookupGroup
  dsimp only
  rw [if_neg (not_lt.mpr hkeys)]
  split
  · exact .inl rfl
  split
  · exact .inl rfl
  · exact .inr ⟨_, rfl⟩
  · split
    · exact .inl rfl
    · exact .inr ⟨_, rfl⟩

theorem lookupPass_outcome (lookup) (numComputedTokens) (groups)
    (st) (hkeys : ∀ g ∈ todo, numTokens / g.blockSize ≤ g.offloadKeys.length) :
    lookupPass lookup numComputedTokens groups numTokens todo st = .error .noHit ∨
      ∃ st', lookupPass lookup numComputedTokens groups numTokens todo st = .ok st' := by
  induction todo generalizing st with
  | nil => exact .inr ⟨st, rfl⟩
  | cons g todo ih =>
    unfold lookupPass
    rcases lookupGroup_outcome lookup numComputedTokens groups st (hkeys g (by simp)) with
      h | ⟨st1, h⟩
    · rw [h]
      exact .inl rfl
    · rw [h]
      exact ih st1 fun g' hg' ↦ hkeys g' (by simp [hg'])

/-- The outer loop ends, since an iteration is only repeated for a smaller bound, with a bound that
all groups have confirmed, and keeps what every pass keeps. -/
theorem lookupLoop_rule {fuel} {P : LookupState → Prop} {E : Prop} (hf : Filled numTokens groups)
    (hpass : ∀ {todo st}, Ready lookup numComputedTokens groups start todo st → P st →
      let out := lookupPass lookup numComputedTokens groups numTokens todo
        { st with lookupGroups := [], lookedUpSlidingWindow := false }
      out = .error .noHit ∧ E ∨ ∃ st', out = .ok st' ∧ P st')
    (h : Ready lookup numComputedTokens groups start todo st) (hP : P st) (hne : todo ≠ [])
    (hfuel : st.maxHitSizeTokens < fuel) :
    lookupLoop lookup numComputedTokens groups numTokens fuel todo st = .error .noHit ∧ E ∨
      ∃ st', lookupLoop lookup numComputedTokens groups numTokens fuel todo st = .ok st' ∧
        Settled lookup numComputedTokens groups start st' ∧ P st' := by
  induction fuel generalizing todo st with
  | zero => omega
  | succ fuel ih =>
    obtain ⟨g, rest, rfl⟩ := exists_cons_of_ne_nil hne
    unfold lookupLoop
    rcases hpass h hP with ⟨hrun, hE⟩ | ⟨st1, hrun, hP⟩
    · rw [hrun]
      exact .inl ⟨rfl, hE⟩
    obtain ⟨hend, hb⟩ := lookupPass_underway (fun g' hg' ↦ hf.blockSize_pos g' (h.mem hg'))
      (fun g' hg' ↦ hf.window_pos g' (h.mem hg')) h.underway hrun
    rw [hrun]
    change lookupLoop lookup numComputedTokens groups numTokens fuel st1.lookupGroups st1 = _ ∧ E ∨
      ∃ st', lookupLoop lookup numComputedTokens groups numTokens fuel st1.lookupGroups st1 = _ ∧ _
    by_cases hlast : st1.lookupGroups = []
    · rw [hlast]
      refine .inr ⟨st1, ?_, h.settled hne hend hb hlast, hP⟩
      unfold lookupLoop
      rfl
    · have hlow := hend.lowered hlast
      exact ih (h.again hne hend hb hlast) hP hlast (by omega)

theorem startTokens_le (groups) (numTokens) :
    startTokens groups numTokens ≤ numTokens := by
  unfold startTokens
  split
  · exact le_refl _
  · exact Nat.sub_le _ _

theorem lookupTokens_outcome {req} (hf : Filled req.numTokens groups)
    (lookup) (blocksBeingLoaded) (numComputedTokens) :
    ∃ r, lookupTokens lookup blocksBeingLoaded req groups numComputedTokens = .ok r ∧
      ∀ n, r = some n → 0 < n → ∃ st, n = st.numHitTokens ∧ st.deferLookup = false ∧
        Settled lookup numComputedTokens groups (startTokens groups req.numTokens) st := by
  unfold lookupTokens
  by_cases hnil : lookupGroups groups = []
  · obtain rfl : groups = [] := eq_nil_iff_forall_not_mem.mpr fun g hg ↦ by
      rw [← mem_lookupGroups, hnil] at hg
      cases hg
    rw [hnil, lookupLoop]
    refine ⟨some 0, by simp, fun n hn hpos ↦ ?_⟩
    obtain rfl : 0 = n := by simpa using hn
    omega
  have hstart := startTokens_le groups req.numTokens
  rcases lookupLoop_rule (P := fun _ ↦ True) (E := True) hf (fun h _ ↦
    (lookupPass_outcome lookup numComputedTokens groups _ fun g hg ↦ hf.keys g (h.mem hg)).imp
      (⟨·, trivial⟩) (Exists.imp fun _ h ↦ ⟨h, trivial⟩))
    (ready_start lookup numComputedTokens groups (startTokens groups req.numTokens)) trivial hnil
    (Nat.lt_succ_of_le hstart) with ⟨hrun, -⟩ | ⟨st, hrun, hs, -⟩
  · rw [hrun]
    refine ⟨_, rfl, fun n hn hpos ↦ ?_⟩
    obtain rfl : 0 = n := by simpa using hn
    omega
  · rw [hrun]
    dsimp only
    split
    · exact ⟨_, rfl, fun n hn ↦ by cases hn⟩
    next hdefer =>
      split
      · exact ⟨_, rfl, fun n hn ↦ by cases hn⟩
      · refine ⟨_, rfl, fun n hn _ ↦ ⟨st, ?_, by simpa using hdefer, hs⟩⟩
        exact (Option.some.inj hn).symm

end

end VllmEngine.Offload

import VllmEngine.Core.CacheHitPatterns
import VllmEngine.Core.HitBlocks
import Mathlib.Order.Bounds.Basic

namespace VllmEngine.Core.CacheHit.Query

open BlockHash BlockPool

variable {q : Query} {rows : List Row} {window n m t : ℕ} {computed : List Row}

section

def dropped (q : Query) : ℕ := if q.useEagle then 1 else 0

/-- A hit of `n` blocks for a sliding window: it is aligned, and the blocks of its window are
cached, with one more that the EAGLE rule drops. -/
structure WindowHit (q : Query) (window n : ℕ) : Prop where
  aligned : q.alignmentTokens ∣ n * q.blockSize
  le : n + q.dropped ≤ q.maxLength / q.blockSize
  cached : ∀ i, n ≤ i + cdiv (window - 1) q.blockSize → i < n + q.dropped → q.Cached i

def windowHits (q : Query) (window : ℕ) : Set ℕ := insert 0 {n | q.WindowHit window n}

theorem postPopBlocks_add (t) : q.postPopBlocks t + q.dropped = t + 1 := by
  unfold postPopBlocks dropped
  split <;> rfl

theorem neededBlocks_eq (window) :
    q.neededBlocks window = cdiv (window - 1) q.blockSize + q.dropped := rfl

theorem cdiv_pos_of_window (hw : 2 ≤ window) (hpos : 0 < q.blockSize) :
    0 < cdiv (window - 1) q.blockSize := by
  by_contra hzero
  have := (cdiv_le_iff hpos).mp (not_lt.mp hzero)
  omega

theorem WindowHit.not_broken (h : q.WindowHit window n) (hw : 2 ≤ window) (hpos : 0 < q.blockSize)
    (ht : n + q.dropped = t + 1) :
    t < q.maxNumBlocks ∧ q.EndsAt t ∧ ¬ q.Broken (q.neededBlocks window) t := by
  have hpost : q.postPopBlocks t = n := by
    have := postPopBlocks_add (q := q) t
    omega
  have hneed := cdiv_pos_of_window hw hpos
  refine ⟨?_, ?_, ?_⟩
  · have hle := h.le
    unfold maxNumBlocks
    omega
  · rw [EndsAt, hpost]
    exact not_misaligned_iff.mpr h.aligned
  · rintro ⟨j, hj, hreach, hmiss⟩
    rw [neededBlocks_eq] at hreach
    exact hmiss (h.cached j (by omega) (by omega))

theorem windowHits_le (hw : 2 ≤ window) (hpos : 0 < q.blockSize) {bound}
    (habove : ∀ t, bound + q.dropped ≤ t → t < q.maxNumBlocks → q.EndsAt t →
      q.Broken (q.neededBlocks window) t) : bound ∈ upperBounds (q.windowHits window) := by
  rintro n (rfl | hhit)
  · exact Nat.zero_le bound
  · by_contra hlt
    obtain ⟨ht, hend, hrun⟩ := hhit.not_broken hw hpos (t := n + q.dropped - 1) (by omega)
    exact hrun (habove _ (by omega) ht hend)

theorem Matched.greatest (h : q.Matched (q.neededBlocks window) t computed) (hw : 2 ≤ window)
    (hpos : 0 < q.blockSize) : IsGreatest (q.windowHits window) (q.postPopBlocks t) := by
  have hpost := postPopBlocks_add (q := q) t
  constructor
  · refine .inr ⟨not_misaligned_iff.mp h.top, ?_, fun i hi hlt ↦ (h.run i ?_ ?_).cached⟩
    · exact hpost ▸ h.lt
    · omega
    · rw [neededBlocks_eq]
      omega
  · apply windowHits_le hw hpos
    intro t' ht' hmax hend
    exact h.above t' (by omega) hmax hend

theorem Scanned.greatest (h : q.Scanned (q.neededBlocks window) 0 m computed) (hw : 2 ≤ window)
    (hpos : 0 < q.blockSize) : IsGreatest (q.windowHits window) (m - q.dropped) := by
  have hdrop : q.dropped ≤ 1 := by
    unfold dropped
    split <;> omega
  constructor
  · rcases eq_zero_or_pos m with hm | hm
    · left
      omega
    have htop := h.top hm
    have hpost := postPopBlocks_add (q := q) (m - 1)
    rw [zero_add, EndsAt, not_misaligned_iff, show q.postPopBlocks (m - 1) = m - q.dropped by omega]
      at htop
    refine .inr ⟨htop, ?_, fun i _ hlt ↦ (h.run i (Nat.zero_le i) (by omega)).cached⟩
    have hle := h.le
    unfold maxNumBlocks at hle
    omega
  · apply windowHits_le hw hpos
    intro t ht hmax hend
    exact h.above t (by omega) hmax hend

theorem misaligned_succ (hal : q.blockSize ∣ q.alignmentTokens)
    (hne : q.blockSize ≠ q.alignmentTokens) (hn : ¬ q.misaligned n) : q.misaligned (n + 1) := by
  by_contra hsucc
  rw [not_misaligned_iff] at hn hsucc
  rw [Nat.add_mul, Nat.one_mul, Nat.dvd_add_right hn] at hsucc
  exact hne (Nat.dvd_antisymm hal hsucc)

/-- The run at the start is too short for the window. Under the EAGLE rule the alignment drops the
extra block, and the rule another one. -/
theorem shortHit_eq_iff (hal : q.blockSize ∣ q.alignmentTokens)
    (htop : 0 < m → q.EndsAt (m - 1)) : q.shortHit m = m - q.dropped ↔
      ¬ (q.useEagle = true ∧ q.blockSize ≠ q.alignmentTokens ∧ 0 < m - q.dropped) := by
  unfold shortHit dropped EndsAt postPopBlocks at *
  cases heagle : q.useEagle with
  | false =>
    simp only [heagle, Bool.false_eq_true, if_false, false_and, not_false_iff, iff_true] at htop ⊢
    rcases eq_zero_or_pos m with hm | hm
    · rw [hm]
      rfl
    · exact alignLoop_of_aligned (by have := htop hm; rwa [Nat.sub_add_cancel hm] at this)
  | true =>
    simp only [heagle, if_true, true_and] at htop ⊢
    by_cases hne : q.blockSize = q.alignmentTokens
    · have hall : ∀ k, q.alignLoop k = k := fun k ↦ alignLoop_of_aligned fun hmis ↦ hmis.1 hne
      simp [hall, hne]
    have hle := alignLoop_le (q := q) m
    match m, htop, hle with
    | 0, _, _ => simp [alignLoop]
    | 1, _, hle =>
      rw [show q.alignLoop 1 - 1 = 0 by omega]
      simp [alignLoop]
    | k + 2, htop, _ =>
      have haligned : ¬ q.misaligned (k + 1) := htop (by omega)
      have hmis := misaligned_succ hal hne haligned
      have hfirst : q.alignLoop (k + 2) = k + 1 := by
        rw [alignLoop, if_pos hmis, alignLoop_of_aligned haligned]
      have hsecond := alignLoop_le (q := q) k
      rw [hfirst, Nat.add_sub_cancel]
      constructor
      · intro heq
        omega
      · intro hnot
        exact absurd ⟨hne, by omega⟩ hnot

def LongestIsShort (q : Query) (window : ℕ) : Prop :=
  ∃ n, 0 < n ∧ n < cdiv (window - 1) q.blockSize ∧ IsGreatest (q.windowHits window) n

/-- The lookup of a sliding window returns if the hashes reach far enough, and returns the longest
hit, unless under the EAGLE rule blocks are smaller than the alignment and that hit is shorter than
the window. -/
theorem sliding_window_hit_longest_iff (hw : 2 ≤ window) (hpos : 0 < q.blockSize)
    (hal : q.blockSize ∣ q.alignmentTokens) :
    (¬ q.TooShort → ∃ rows, q.findLongestCacheHit (.slidingWindow window) = .ok rows) ∧
      ∀ rows, q.findLongestCacheHit (.slidingWindow window) = .ok rows →
        (IsGreatest (q.windowHits window) rows.length ↔
          ¬ (q.useEagle = true ∧ q.blockSize ≠ q.alignmentTokens ∧ q.LongestIsShort window)) := by
  constructor
  · intro hlong
    cases h : q.findLongestCacheHit (.slidingWindow window) with
    | ok rows => exact ⟨rows, rfl⟩
    | error e =>
      have hk : (SpecKind.slidingWindow window).Searchable := trivial
      exact absurd (findLongestCacheHit_error hk h).2 hlong
  · intro rows h
    obtain ⟨computed, ⟨t, ht, rfl⟩ | ⟨m, hm, rfl⟩⟩ := slidingWindow_cases h
    · have hgreat := ht.greatest hw hpos
      rw [ht.length_eq]
      refine iff_of_true hgreat ?_
      rintro ⟨-, -, n, -, hlt, hn⟩
      rw [IsGreatest.unique hn hgreat] at hlt
      have hlong := ht.long
      have hpost := postPopBlocks_add (q := q) t
      rw [neededBlocks_eq] at hlong
      omega
    · have hgreat := hm.greatest hw hpos
      have hpart : q.LongestIsShort window ↔ 0 < m - q.dropped := by
        constructor
        · rintro ⟨n, hn, -, hn'⟩
          rwa [← IsGreatest.unique hn' hgreat]
        intro hn
        refine ⟨_, hn, ?_, hgreat⟩
        have hshort := hm.short (by omega)
        rw [neededBlocks_eq] at hshort
        omega
      have htop : 0 < m → q.EndsAt (m - 1) := by simpa using hm.top
      rw [hm.length_eq, hpart, ← shortHit_eq_iff hal htop]
      constructor
      · intro hlen
        exact IsGreatest.unique hlen hgreat
      · intro hlen
        rw [hlen]
        exact hgreat

def prefixOps : List PoolOp :=
  let request : Request :=
    { requestId := "r", allTokenIds := List.replicate 7 5, blockHashes := [[1], [2], [3]] }
  [.getNewBlocks 3, .cacheFullBlocks request [.blk 1, .blk 2, .blk 3] 0 3 2 0]

def prefixQuery (p0 : BlockPool) (useEagle : Bool) : Query where
  pool := runOps byteHashing prefixOps p0
  blockHashes := [[1], [2], [3]]
  kvCacheGroupIds := [0]
  blockSize := 2
  useEagle
  alignmentTokens := 4
  maxLength := 6

/-- All three blocks are cached, so that under the EAGLE rule two are a hit of a window of nine
tokens. The lookup drops the third block for the alignment, and then another one. -/
theorem sliding_window_hit_not_longest : ∃ p0, init 5 true 2 false false = .ok p0 ∧
    (prefixQuery p0 true).findLongestCacheHit (.slidingWindow 9) = .ok [] ∧
      IsGreatest ((prefixQuery p0 true).windowHits 9) 2 := by
  refine ⟨_, rfl, by decide +kernel, .inr ⟨by decide, by decide, fun i _ hi ↦ ?_⟩, ?_⟩
  · match i, hi with
    | 0, _ | 1, _ | 2, _ => exact ⟨_, rfl⟩
  · rintro n (rfl | hn)
    · exact Nat.zero_le 2
    · exact Nat.le_of_succ_le_succ hn.le

theorem sliding_window_hit_longest_without_eagle : ∃ p0, init 5 true 2 false false = .ok p0 ∧
    (prefixQuery p0 false).findLongestCacheHit (.slidingWindow 9) = .ok [[.blk 1], [.blk 2]] ∧
      IsGreatest ((prefixQuery p0 false).windowHits 9) 2 := by
  obtain ⟨p0, hinit, hrows⟩ : ∃ p0, init 5 true 2 false false = .ok p0 ∧
      (prefixQuery p0 false).findLongestCacheHit (.slidingWindow 9) = .ok [[.blk 1], [.blk 2]] :=
    ⟨_, rfl, by decide +kernel⟩
  have hiff := (sliding_window_hit_longest_iff (show 2 ≤ 9 by decide)
    (show 0 < 2 by decide) (show 2 ∣ 4 by decide)).2 _ hrows
  exact ⟨p0, hinit, hrows, hiff.mpr fun h ↦ Bool.false_ne_true h.1⟩

end

section

def Listed (q : Query) (i : ℕ) : Prop :=
  ∃ x row, (hashList q.blockHashes q.pool.hashBlockSize q.blockSize)[i]? = some x ∧
    q.pool.getCachedBlock x q.kvCacheGroupIds = some row

/-- A hit of `n` blocks: for full attention all are cached, for a sliding window those in the window
of the next token, for Mamba the last one. -/
def ValidHit (q : Query) : SpecKind → ℕ → Prop
  | .fullAttention, n | .sinkFullAttention _, n => ∀ i < n, q.Listed i
  | .slidingWindow window, n => ∀ i < n, n ≤ i + cdiv (window - 1) q.blockSize → q.Cached i
  | .mamba .., n => ∀ i, i + 1 = n → q.Cached i
  | .chunkedLocalAttention _, _ | .crossAttention, _ => False

def validHits (q : Query) (kind : SpecKind) : Set ℕ :=
  {n | n ≤ q.maxNumBlocks ∧ ¬ q.misaligned n ∧ q.ValidHit kind n}

theorem le_fullLoop_length (hashes) (h : ∀ i < n, ∃ x row, hashes[i]? = some x ∧
      q.pool.getCachedBlock x q.kvCacheGroupIds = some row) : n ≤ (q.fullLoop hashes).length := by
  induction hashes generalizing n with
  | nil =>
    by_contra hn
    obtain ⟨x, row, hx, -⟩ := h 0 (pos_of_ne_zero (by simpa [fullLoop] using hn))
    cases hx
  | cons x hashes ih =>
    cases n with
    | zero => exact Nat.zero_le _
    | succ n =>
      obtain ⟨x', row, hx, hrow⟩ := h 0 n.succ_pos
      obtain rfl : x = x' := by simpa using hx
      have hrest := ih fun i hi ↦ by simpa using h (i + 1) (Nat.succ_lt_succ hi)
      rw [fullLoop, hrow, List.length_cons]
      exact Nat.succ_le_succ hrest

theorem fullAttention_greatest (heagle : q.useEagle = false) :
    IsGreatest {n | n ≤ q.maxNumBlocks ∧ ¬ q.misaligned n ∧ ∀ i < n, q.Listed i}
      q.fullAttention.length := by
  set hashes := hashList q.blockHashes q.pool.hashBlockSize q.blockSize with hhashes
  have hlen : q.fullAttention.length =
      q.alignLoop (q.fullLoop (hashes.take q.maxNumBlocks)).length := by
    unfold fullAttention
    rw [heagle]
    exact aligned_length _
  have hle := alignLoop_le (q := q) (q.fullLoop (hashes.take q.maxNumBlocks)).length
  constructor
  · refine ⟨fullAttention_bounded.le, fullAttention_bounded.aligned, fun i hi ↦ ?_⟩
    obtain ⟨row, hrow⟩ : ∃ row, (q.fullLoop (hashes.take q.maxNumBlocks))[i]? = some row :=
      ⟨_, List.getElem?_eq_getElem (by omega)⟩
    obtain ⟨x, hx, hget⟩ := fullLoop_sourced _ hrow
    rw [List.getElem?_take] at hx
    split at hx
    · exact ⟨x, row, hx, hget⟩
    · cases hx
  · rintro n ⟨hmax, hal, hlisted⟩
    rw [hlen]
    refine le_alignLoop (le_fullLoop_length _ fun i hi ↦ ?_) hal
    obtain ⟨x, row, hx, hrow⟩ := hlisted i hi
    exact ⟨x, row, by rw [List.getElem?_take, if_pos (by omega), hx], hrow⟩

theorem mambaLoop_greatest {l} (h : q.mambaLoop l = .ok rows) :
    IsGreatest {n | n ≤ l ∧ ¬ q.misaligned n ∧ ∀ i, i + 1 = n → q.Cached i} rows.length := by
  obtain ⟨hal, hle⟩ := mambaLoop_spec h
  refine ⟨⟨hle, hal, fun i hi ↦ (mambaLoop_hitAt h hi).cached⟩, ?_⟩
  clear hal hle
  induction l with
  | zero =>
    rintro n ⟨hn, -, -⟩
    exact hn.trans (Nat.zero_le _)
  | succ l ih =>
    rintro n ⟨hn, hal, hlast⟩
    rcases lt_or_eq_of_le hn with hlt | rfl
    · unfold mambaLoop at h
      split at h
      · cases h
      · exact ih h ⟨Nat.le_of_lt_succ hlt, hal, hlast⟩
      split at h
      · exact ih h ⟨Nat.le_of_lt_succ hlt, hal, hlast⟩
      · cases h
        simpa using hlt.le
    · obtain ⟨row, hrow⟩ := hlast l rfl
      rw [mambaLoop, hrow] at h
      simp only [hal, if_false] at h
      cases h
      simp

theorem slidingWindow_greatest (heagle : q.useEagle = false) (hw : 2 ≤ window)
    (hpos : 0 < q.blockSize) (h : q.slidingWindow window = .ok rows) :
    IsGreatest (q.validHits (.slidingWindow window)) rows.length := by
  have hdrop : q.dropped = 0 := by rw [dropped, heagle]; rfl
  have hlongest : IsGreatest (q.windowHits window) rows.length := by
    obtain ⟨computed, ⟨t, ht, rfl⟩ | ⟨m, hm, rfl⟩⟩ := slidingWindow_cases h
    · rw [ht.length_eq]
      exact ht.greatest hw hpos
    have htop : 0 < m → q.EndsAt (m - 1) := by simpa using hm.top
    rw [hm.length_eq, shortHit, heagle, if_neg Bool.false_ne_true]
    have hgreat := hm.greatest hw hpos
    have haligned : ¬ q.misaligned m := by
      intro hmis
      rcases Nat.eq_zero_or_pos m with hz | hz
      · rw [hz] at hmis
        exact hmis.2 (by simp)
      · have hend := htop hz
        rw [EndsAt, postPopBlocks, heagle, if_neg Bool.false_ne_true, Nat.sub_add_cancel hz] at hend
        exact hend hmis
    rwa [hdrop, Nat.sub_zero, ← alignLoop_of_aligned haligned] at hgreat
  have hiff : q.windowHits window = q.validHits (.slidingWindow window) := by
    ext n
    constructor
    · rintro (rfl | hn)
      · exact ⟨Nat.zero_le _, by simp [misaligned], fun i hi ↦ by omega⟩
      have hle := hn.le
      rw [hdrop] at hle
      exact ⟨hle, not_misaligned_iff.mpr hn.aligned, fun i hi hreach ↦
        hn.cached i hreach (by omega)⟩
    · rintro ⟨hle, hal, hcached⟩
      refine .inr ⟨not_misaligned_iff.mp hal, by rw [hdrop]; exact hle, fun i hreach hi ↦ ?_⟩
      rw [hdrop] at hi
      exact hcached i hi hreach
  rwa [hiff] at hlongest

theorem findLongestCacheHit_greatest {kind} (hk : kind.Searchable)
    (hw : ∀ window, kind = .slidingWindow window → 2 ≤ window) (hpos : 0 < q.blockSize)
    (heagle : q.useEagle = false) (h : q.findLongestCacheHit kind = .ok rows) :
    IsGreatest (q.validHits kind) rows.length := by
  cases kind with
  | fullAttention | sinkFullAttention =>
    cases h
    exact fullAttention_greatest heagle
  | slidingWindow window => exact slidingWindow_greatest heagle (hw window rfl) hpos h
  | mamba mode spec => exact mambaLoop_greatest h
  | chunkedLocalAttention => exact hk.elim
  | crossAttention => exact hk.elim

theorem ValidHit.mono {spec : KVCacheSpec} (hfull : spec.isFullAttention = true)
    (h : q.ValidHit spec.kind n) (hm : m ≤ n) : q.ValidHit spec.kind m := by
  unfold KVCacheSpec.isFullAttention at hfull
  cases hkind : spec.kind with
  | fullAttention | sinkFullAttention =>
    rw [hkind] at h
    exact fun i hi ↦ h i (hi.trans_le hm)
  | slidingWindow | chunkedLocalAttention | mamba | crossAttention => simp [hkind] at hfull

end

end VllmEngine.Core.CacheHit.Query

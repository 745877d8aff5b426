import VllmEngine.Core.CacheHit

namespace VllmEngine.Core.CacheHit.Query

open BlockHash List

variable {q : Query} {n i : ℕ} {computed rows : List Row} {e : HitError}

theorem not_misaligned_iff : ¬ q.misaligned n ↔ q.alignmentTokens ∣ n * q.blockSize := by
  rw [misaligned, not_and_or, not_not, not_not, Nat.dvd_iff_mod_eq_zero]
  constructor
  · rintro (h | h)
    · rw [h, Nat.mul_mod_left]
    · exact h
  · exact Or.inr

theorem alignLoop_le (n) : q.alignLoop n ≤ n := by
  induction n with
  | zero => exact le_rfl
  | succ n ih =>
    unfold alignLoop
    split
    · omega
    · exact le_rfl

theorem alignLoop_aligned (n) : ¬ q.misaligned (q.alignLoop n) := by
  induction n with
  | zero => simp [alignLoop, misaligned]
  | succ n ih =>
    unfold alignLoop
    split
    · exact ih
    · assumption

theorem alignLoop_of_aligned (h : ¬ q.misaligned n) : q.alignLoop n = n := by
  cases n with
  | zero => rfl
  | succ n => rw [alignLoop, if_neg h]

theorem aligned_length (rows) : (q.aligned rows).length = q.alignLoop rows.length := by
  rw [aligned, length_take, min_eq_left (alignLoop_le _)]

/-- What every lookup promises: its result is aligned and within the limit, and when the class
applies the EAGLE rule, so is one more block. -/
structure Bounded (q : Query) (drops : Bool) (n : ℕ) : Prop where
  aligned : ¬ q.misaligned n
  le : n ≤ q.maxNumBlocks
  dropped : q.useEagle = true → drops = true → n ≠ 0 → n + 1 ≤ q.maxNumBlocks

theorem fullLoop_length_le (hashes) :
    (q.fullLoop hashes).length ≤ hashes.length := by
  induction hashes with
  | nil => exact le_rfl
  | cons h hashes ih =>
    unfold fullLoop
    split
    · simp
    · simpa using ih

/-- The rows that `fullAttention` aligns. -/
abbrev fullRows (q : Query) : List Row :=
  q.fullLoop ((hashList q.blockHashes q.pool.hashBlockSize q.blockSize).take q.maxNumBlocks)

theorem fullAttention_bounded : q.Bounded true q.fullAttention.length := by
  have hlen : q.fullRows.length ≤ q.maxNumBlocks :=
    (fullLoop_length_le _).trans (length_take_le _ _)
  change q.Bounded true (q.aligned (if q.useEagle then q.fullRows.dropLast else q.fullRows)).length
  split
  next he =>
    have hle := alignLoop_le (q := q) q.fullRows.dropLast.length
    rw [← aligned_length, length_dropLast] at hle
    exact ⟨aligned_length _ ▸ alignLoop_aligned _, by omega, fun _ _ hn ↦ by omega⟩
  next he =>
    have hle := alignLoop_le (q := q) q.fullRows.length
    rw [← aligned_length] at hle
    exact ⟨aligned_length _ ▸ alignLoop_aligned _, by omega, fun h ↦ absurd h he⟩

theorem slidingLoop_spec {needed out m found} (hlen : i + n ≤ computed.length)
    (halign : q.useEagle = false → 0 < n → ¬ q.misaligned (i + n))
    (h : q.slidingLoop needed i n computed = .ok (out, m, found)) :
    (found = true → out.length ≤ computed.length ∧ 0 < out.length ∧
        (q.useEagle = false → ¬ q.misaligned out.length)) ∧
      (found = false → out.length = computed.length ∧ m ≤ computed.length) := by
  induction i generalizing n computed with
  | zero =>
    obtain ⟨rfl, rfl, rfl⟩ := h
    exact ⟨by simp, fun _ ↦ ⟨rfl, by omega⟩⟩
  | succ i ih =>
    unfold slidingLoop at h
    split at h
    · cases h
    · exact ih (by omega) (by simp) h
    next row _ =>
      split at h
      next hskip =>
        obtain ⟨rfl, -⟩ := hskip
        exact ih (by omega) (by simp) h
      next hskip =>
        have halign' : q.useEagle = false → ¬ q.misaligned (i + (n + 1)) := by
          intro he hm
          rcases Nat.eq_zero_or_pos n with hn | hn
          · exact hskip ⟨hn, by simpa [postPopBlocks, he, hn] using hm⟩
          · exact halign he hn (by rwa [Nat.add_right_comm])
        split at h
        · cases h
          have hout : ((computed.set i row).take (i + (n + 1))).length = i + (n + 1) := by
            rw [length_take, length_set, min_eq_left (by omega)]
          refine ⟨fun _ ↦ ⟨by omega, by omega, fun he ↦ ?_⟩, by simp⟩
          rw [hout]
          exact halign' he
        · have hlen' : i + (n + 1) ≤ (computed.set i row).length := by
            rw [length_set]
            omega
          have hrec := ih hlen' (fun he _ ↦ halign' he) h
          simpa using hrec

theorem slidingWindow_bounded {window}
    (h : q.slidingWindow window = .ok rows) : q.Bounded true rows.length := by
  unfold slidingWindow at h
  dsimp only at h
  split at h
  · cases h
  next computed m found hloop =>
    have hspec := slidingLoop_spec (by simp) (by simp) hloop
    simp only [length_replicate] at hspec
    -- the rows before the EAGLE drop
    have hrows : (if found = true then computed else q.aligned (computed.take m)).length ≤
          q.maxNumBlocks ∧
        (q.useEagle = false →
          ¬ q.misaligned (if found = true then computed else q.aligned (computed.take m)).length) := by
      cases found with
      | true => simpa using ⟨(hspec.1 rfl).1, (hspec.1 rfl).2.2⟩
      | false =>
        have hle := alignLoop_le (q := q) (computed.take m).length
        rw [length_take] at hle
        refine ⟨?_, fun _ ↦ ?_⟩
        · simp only [Bool.false_eq_true, if_false, aligned_length, length_take]
          have := (hspec.2 rfl).1
          omega
        · simp only [Bool.false_eq_true, if_false, aligned_length]
          exact alignLoop_aligned _
    simp only [Except.ok.injEq] at h
    subst h
    split
    next he =>
      have hle := alignLoop_le (q := q)
        (if found = true then computed else q.aligned (computed.take m)).dropLast.length
      rw [← aligned_length, length_dropLast] at hle
      exact ⟨aligned_length _ ▸ alignLoop_aligned _, by omega, fun _ _ hn ↦ by omega⟩
    next he => exact ⟨hrows.2 (by simpa using he), hrows.1, fun h ↦ absurd h he⟩

theorem mambaLoop_spec (h : q.mambaLoop i = .ok rows) :
    ¬ q.misaligned rows.length ∧ rows.length ≤ i := by
  induction i with
  | zero =>
    obtain rfl : [] = rows := by simpa [mambaLoop] using h
    exact ⟨by simp [misaligned], le_rfl⟩
  | succ i ih =>
    unfold mambaLoop at h
    split at h
    · cases h
    · exact ⟨(ih h).1, (ih h).2.trans (Nat.le_succ i)⟩
    split at h
    · exact ⟨(ih h).1, (ih h).2.trans (Nat.le_succ i)⟩
    next hal =>
      obtain rfl : _ = rows := by simpa using h
      simpa using hal

theorem findLongestCacheHit_bounded {kind} (hk : kind.Searchable)
    (h : q.findLongestCacheHit kind = .ok rows) : q.Bounded (!kind.isMamba) rows.length := by
  cases kind with
  | fullAttention | sinkFullAttention =>
    obtain rfl : _ = rows := by simpa [findLongestCacheHit] using h
    exact fullAttention_bounded
  | slidingWindow window => exact slidingWindow_bounded h
  | mamba mode spec =>
    obtain ⟨hal, hle⟩ := mambaLoop_spec h
    exact ⟨hal, hle, fun _ hd ↦ by simp [SpecKind.isMamba] at hd⟩
  | chunkedLocalAttention => exact hk.elim
  | crossAttention => exact hk.elim

def TooShort (q : Query) : Prop :=
  q.blockSize = q.pool.hashBlockSize ∧ q.blockHashes.length < q.maxNumBlocks

theorem cachedAt_error (hi : i < q.maxNumBlocks)
    (h : q.cachedAt i = .error e) : e = .indexError ∧ q.TooShort := by
  unfold cachedAt hashAt at h
  split at h
  next hnone =>
    split at hnone
    next hsize => exact ⟨by simpa using h.symm, hsize, by simp at hnone; omega⟩
    · cases hnone
  · cases h

theorem slidingLoop_error {needed}
    (hi : i ≤ q.maxNumBlocks) (h : q.slidingLoop needed i n computed = .error e) :
    e = .indexError ∧ q.TooShort := by
  induction i generalizing n computed with
  | zero => cases h
  | succ i ih =>
    unfold slidingLoop at h
    split at h
    next herr =>
      cases h
      exact cachedAt_error (by omega) herr
    · exact ih (by omega) h
    split at h
    · exact ih (by omega) h
    · split at h
      · cases h
      · exact ih (by omega) h

theorem mambaLoop_error (hi : i ≤ q.maxNumBlocks)
    (h : q.mambaLoop i = .error e) : e = .indexError ∧ q.TooShort := by
  induction i with
  | zero => cases h
  | succ i ih =>
    unfold mambaLoop at h
    split at h
    next herr =>
      cases h
      exact cachedAt_error (by omega) herr
    · exact ih (by omega) h
    · split at h
      · exact ih (by omega) h
      · cases h

theorem findLongestCacheHit_error {kind} (hk : kind.Searchable)
    (h : q.findLongestCacheHit kind = .error e) : e = .indexError ∧ q.TooShort := by
  cases kind with
  | fullAttention => cases h
  | sinkFullAttention => cases h
  | slidingWindow window =>
    simp only [findLongestCacheHit, slidingWindow] at h
    split at h
    next herr =>
      cases h
      exact slidingLoop_error le_rfl herr
    · cases h
  | mamba mode spec => exact mambaLoop_error le_rfl h
  | chunkedLocalAttention => exact hk.elim
  | crossAttention => exact hk.elim

end VllmEngine.Core.CacheHit.Query

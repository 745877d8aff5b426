import VllmEngine.Core.CacheHitSpec
import VllmEngine.Core.CacheContent
import VllmEngine.Lib.Chain

namespace VllmEngine.Core.CacheHit.Query

open BlockHash List

structure Shows (q : Query) (f : ℕ → Bool) : Prop where
  cached : ∀ i < q.maxNumBlocks, ∃ o, q.cachedAt i = .ok o ∧ o.isSome = f i
  scanned : (q.fullLoop ((hashList q.blockHashes q.pool.hashBlockSize q.blockSize).take
    q.maxNumBlocks)).length = ((range q.maxNumBlocks).takeWhile f).length

variable {q : Query} {f : ℕ → Bool}

theorem fullLoop_length (hashes) : (q.fullLoop hashes).length =
    (hashes.takeWhile fun h ↦ (q.pool.getCachedBlock h q.kvCacheGroupIds).isSome).length := by
  induction hashes with
  | nil => rfl
  | cons h hashes ih =>
    unfold fullLoop
    cases hc : q.pool.getCachedBlock h q.kvCacheGroupIds with
    | none => simp [hc]
    | some row => simp [hc, ih]

theorem takeWhile_range_length {n k} (hk : k ≤ n) (h : ∀ i < k, f i = true)
    (hend : k = n ∨ f k = false) : ((range n).takeWhile f).length = k := by
  rw [Lib.range_split hk, takeWhile_append_of_pos fun i hi ↦ h i (mem_range.mp hi),
    length_append, length_range]
  rcases hend with rfl | hend
  · simp
  rcases eq_zero_or_pos (n - k) with hz | hz
  · simp [hz]
  · rw [show n - k = n - k - 1 + 1 by omega, range'_succ]
    simp [hend]

theorem takeWhile_congr {α : Type} {l : List α} {a b} (h : ∀ x ∈ l, a x = b x) :
    l.takeWhile a = l.takeWhile b := by
  induction l with
  | nil => rfl
  | cons x l ih =>
    rw [takeWhile_cons, takeWhile_cons, h x (by simp), ih fun y hy ↦ h y (by simp [hy])]

theorem Shows.hit (hq : q.Shows f) {i} (hi : i < q.maxNumBlocks) (hf : f i = true) :
    ∃ row, q.cachedAt i = .ok (some row) := by
  obtain ⟨o, ho, hs⟩ := hq.cached i hi
  obtain ⟨row, rfl⟩ := Option.isSome_iff_exists.mp (hs.trans hf)
  exact ⟨row, ho⟩

theorem Shows.miss (hq : q.Shows f) {i} (hi : i < q.maxNumBlocks) (hf : f i = false) :
    q.cachedAt i = .ok none := by
  obtain ⟨o, ho, hs⟩ := hq.cached i hi
  rw [hf, Option.isSome_eq_false_iff, Option.isNone_iff_eq_none] at hs
  rw [ho, hs]

theorem le_alignLoop {k n} (hkn : k ≤ n) (hk : ¬ q.misaligned k) : k ≤ q.alignLoop n := by
  induction n with
  | zero => exact hkn
  | succ n ih =>
    rcases lt_or_ge n k with hlt | hge
    · rw [show n + 1 = k by omega, alignLoop_of_aligned hk]
    unfold alignLoop
    split
    · exact ih hge
    · omega

theorem Shows.fullAttention_length (hq : q.Shows f) : q.fullAttention.length =
    q.alignLoop (((range q.maxNumBlocks).takeWhile f).length -
      if q.useEagle then 1 else 0) := by
  unfold fullAttention
  split <;> rw [aligned_length] <;> simp [hq.scanned]

section

variable {needed : ℕ}

theorem Shows.slidingLoop_skip (hq : q.Shows f) {i t} (hti : t ≤ i) (hi : i ≤ q.maxNumBlocks)
    (hskip : ∀ j, t ≤ j → j < i → f j = false ∨ q.misaligned (q.postPopBlocks j)) (computed) :
    q.slidingLoop needed i 0 computed = q.slidingLoop needed t 0 computed := by
  induction i with
  | zero => rw [show t = 0 by omega]
  | succ i ih =>
    rcases lt_or_ge i t with hlt | hge
    · rw [show t = i + 1 by omega]
    rw [← ih hge (by omega) fun j htj hji ↦ hskip j htj (by omega)]
    rw [slidingLoop]
    cases hf : f i with
    | false => rw [hq.miss (by omega) hf]
    | true =>
      obtain ⟨row, hrow⟩ := hq.hit (by omega) hf
      have hmis : q.misaligned (q.postPopBlocks i) := by
        simpa [hf] using hskip i hge (by omega)
      rw [hrow]
      simp only [hmis, and_true, if_true]

theorem Shows.slidingLoop_run (hq : q.Shows f) {i n t} (hn : 0 < n) (hin : i + n = t + 1)
    (ht : t < q.maxNumBlocks) (hneed : n < needed) (hbottom : needed ≤ t + 1)
    (hrun : ∀ j, j ≤ t → t < j + needed → f j = true) {computed}
    (hlen : computed.length = q.maxNumBlocks) :
    ∃ out m, q.slidingLoop needed i n computed = .ok (out, m, true) ∧ out.length = t + 1 := by
  induction i generalizing n computed with
  | zero => omega
  | succ i ih =>
    obtain ⟨row, hrow⟩ := hq.hit (by omega) (hrun i (by omega) (by omega))
    rw [slidingLoop, hrow]
    simp only [show ¬ n = 0 by omega, false_and, if_false]
    split
    · refine ⟨_, _, rfl, ?_⟩
      rw [length_take, length_set, hlen]
      omega
    · exact ih (by omega) (by omega) (by omega) (by simpa using hlen)

theorem Shows.slidingLoop_top (hq : q.Shows f) {t} (ht : t < q.maxNumBlocks)
    (hal : ¬ q.misaligned (q.postPopBlocks t)) (hbottom : needed ≤ t + 1) (hf : f t = true)
    (hskip : ∀ j, t < j → j < q.maxNumBlocks → f j = false ∨ q.misaligned (q.postPopBlocks j))
    (hrun : ∀ j, j ≤ t → t < j + needed → f j = true) (computed)
    (hlen : computed.length = q.maxNumBlocks) :
    ∃ out m, q.slidingLoop needed q.maxNumBlocks 0 computed = .ok (out, m, true) ∧
      out.length = t + 1 := by
  rw [hq.slidingLoop_skip (t := t + 1) (by omega) le_rfl fun j htj hj ↦ hskip j (by omega) hj]
  obtain ⟨row, hrow⟩ := hq.hit ht hf
  rw [slidingLoop, hrow]
  simp only [hal, and_false, if_false]
  split
  · refine ⟨_, _, rfl, ?_⟩
    rw [length_take, length_set, hlen]
    omega
  · exact hq.slidingLoop_run one_pos rfl ht (by omega) hbottom hrun (by simpa using hlen)

end

theorem Shows.slidingWindow_top (hq : q.Shows f) (window) {t} (ht : t < q.maxNumBlocks)
    (hal : ¬ q.misaligned (q.postPopBlocks t)) (hbottom : cdiv (window - 1) q.blockSize ≤ t)
    (hskip : ∀ j, t < j → j < q.maxNumBlocks → f j = false ∨ q.misaligned (q.postPopBlocks j))
    (hrun : ∀ j, j ≤ t → t ≤ j + cdiv (window - 1) q.blockSize → f j = true) :
    ∃ rows, q.slidingWindow window = .ok rows ∧ rows.length = q.postPopBlocks t := by
  have hneed : (cdiv (window - 1) q.blockSize + if q.useEagle = true then 1 else 0) ≤ t + 1 := by
    split <;> omega
  obtain ⟨out, m, hloop, hout⟩ := hq.slidingLoop_top ht hal hneed (hrun t le_rfl (by omega)) hskip
    (fun j hj htj ↦ hrun j hj (by split at htj <;> omega))
    (replicate q.maxNumBlocks q.nullRow) (by simp)
  refine ⟨_, by rw [slidingWindow, hloop], ?_⟩
  unfold postPopBlocks at hal ⊢
  split
  next he =>
    rw [if_pos he] at hal
    have hdrop : out.dropLast.length = t := by simp [hout]
    simp only [if_true]
    rw [aligned_length, hdrop, alignLoop_of_aligned hal]
  · simpa using hout

theorem Shows.mamba_top (hq : q.Shows f) {t n} (ht : t < n) (hn : n ≤ q.maxNumBlocks)
    (hf : f t = true) (hal : ¬ q.misaligned (t + 1)) (habove : ∀ j, t < j → j < n → f j = false) :
    ∃ rows, q.mambaLoop n = .ok rows ∧ rows.length = t + 1 := by
  induction n with
  | zero => omega
  | succ n ih =>
    rcases lt_or_ge t n with hlt | hge
    · rw [mambaLoop, hq.miss (by omega) (habove n hlt (by omega))]
      exact ih hlt (by omega) fun j htj hj ↦ habove j htj (by omega)
    obtain rfl : t = n := by omega
    obtain ⟨row, hrow⟩ := hq.hit (by omega) hf
    rw [mambaLoop, hrow]
    simp only [hal, if_false]
    exact ⟨_, rfl, by simp⟩

theorem Shows.nothing (hq : q.Shows f) (hf : ∀ i < q.maxNumBlocks, f i = false) {kind}
    (hk : kind.Searchable) : ∃ rows, q.findLongestCacheHit kind = .ok rows ∧ rows.length = 0 := by
  have hfull : q.fullAttention.length = 0 := by
    rw [hq.fullAttention_length, takeWhile_range_length (Nat.zero_le _) (by simp)
      ((Nat.eq_zero_or_pos _).imp Eq.symm (hf 0)), Nat.zero_sub]
    rfl
  have hmamba : ∀ n ≤ q.maxNumBlocks, q.mambaLoop n = .ok [] := by
    intro n hn
    induction n with
    | zero => rfl
    | succ n ih =>
      rw [mambaLoop, hq.miss (by omega) (hf n (by omega))]
      exact ih (by omega)
  cases kind with
  | fullAttention => exact ⟨_, rfl, hfull⟩
  | sinkFullAttention => exact ⟨_, rfl, hfull⟩
  | slidingWindow window =>
    have hloop : q.slidingLoop (cdiv (window - 1) q.blockSize + if q.useEagle = true then 1 else 0)
        q.maxNumBlocks 0 (replicate q.maxNumBlocks q.nullRow) =
        .ok (replicate q.maxNumBlocks q.nullRow, 0, false) := by
      rw [hq.slidingLoop_skip (Nat.zero_le _) le_rfl fun j _ hj ↦ .inl (hf j hj)]
      rfl
    refine ⟨_, by rw [findLongestCacheHit, slidingWindow, hloop], ?_⟩
    split <;> simp [aligned_length, alignLoop]
  | mamba mode spec => exact ⟨_, hmamba _ le_rfl, rfl⟩
  | chunkedLocalAttention => exact hk.elim
  | crossAttention => exact hk.elim

end VllmEngine.Core.CacheHit.Query

namespace VllmEngine.Core.HybridKVCacheCoordinator

open CacheHit CacheHit.Query List

variable {c : HybridKVCacheCoordinator}

theorem query_shows {n maxLen : ℕ} {pattern g} (hg : g ∈ c.attentionGroups)
    (hmax : maxLen ≤ n * c.hashBlockSize) (useEagle : Bool) {curr} (hcurr : curr ≤ maxLen) :
    (c.query (c.content n pattern) (unaryHashes n) maxLen g useEagle curr).Shows (pattern g) := by
  have hpos := blockSize_pos' hg
  have hdvd := hashBlockSize_dvd hg
  have hle : (c.query (c.content n pattern) (unaryHashes n) maxLen g useEagle curr).maxLength ≤
      n * c.hashBlockSize := by
    refine le_trans ?_ hmax
    simp only [query]
    split
    · exact min_le_right _ _
    · exact hcurr
  have hnum := Nat.div_le_div_right (c := g.spec.blockSize) hle
  constructor
  · intro i hi
    have hi' : i < n * c.hashBlockSize / g.spec.blockSize := lt_of_lt_of_le hi hnum
    have hhash := hashAt_unary c.hashBlockSize_pos hdvd hpos
      ((Nat.le_div_iff_mul_le hpos).mp (Nat.succ_le_of_lt hi'))
    refine ⟨_, ?_, content_cached hg hi'⟩
    simp only [cachedAt, query, content, BlockPool.holding, hhash]
  · rw [fullLoop_length]
    simp only [query, content, BlockPool.holding, hashList_unary c.hashBlockSize_pos hdvd hpos]
    rw [← map_take, takeWhile_map, length_map, take_range, min_eq_left (by exact hnum)]
    refine congrArg length (takeWhile_congr fun i hi ↦ ?_)
    exact content_cached hg (lt_of_lt_of_le (mem_range.mp hi) hnum)

end VllmEngine.Core.HybridKVCacheCoordinator

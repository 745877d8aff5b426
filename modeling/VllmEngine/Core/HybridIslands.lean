import VllmEngine.Core.HybridCoherent
import VllmEngine.Core.CacheHitPatterns
import Mathlib.Algebra.Order.BigOperators.Group.List

namespace VllmEngine.Core

open CacheHit CacheHit.Query Hybrid

def SpecKind.window : SpecKind → ℕ
  | .slidingWindow window => window
  | .fullAttention | .sinkFullAttention _ | .chunkedLocalAttention _ | .mamba .. | .crossAttention => 0

namespace HybridKVCacheCoordinator

variable (c : HybridKVCacheCoordinator)

/-- A distance, in aligned lengths, that leaves room for every sliding window of the model. -/
def farAway : ℕ := 5 + (c.attentionGroups.map (·.spec.kind.window)).sum

/-- The Mamba group `m` has states after the first and the last aligned length; the other groups
have what they need for a hit one aligned length before the last, and only full attention has
anything near the start. -/
def islands (m g : AttentionGroup) (i : ℕ) : Bool :=
  let stop := c.farAway * c.lcmBlockSize / g.spec.blockSize
  let extra := if c.isEagle g then 1 else 0
  if g = m then i = 0 ∨ i = c.farAway
  else
    match g.spec.kind with
    | .fullAttention | .sinkFullAttention _ => i < stop + extra
    | .slidingWindow window =>
      stop ≤ i + cdiv (window - 1) g.spec.blockSize + 1 ∧ i < stop + extra
    | .mamba .. => i + 1 = stop
    | .chunkedLocalAttention _ | .crossAttention => false

variable {c} {m g : AttentionGroup}

theorem window_le_farAway (hg : g ∈ c.attentionGroups) : g.spec.kind.window + 5 ≤ c.farAway := by
  have := List.le_sum_of_mem (List.mem_map_of_mem (f := (·.spec.kind.window)) hg)
  unfold farAway
  omega

theorem island_room (hg : g ∈ c.attentionGroups) :
    g.spec.blockSize * (c.farAway * c.lcmBlockSize / g.spec.blockSize) =
        c.farAway * c.lcmBlockSize ∧
      2 * c.lcmBlockSize + g.spec.blockSize * (cdiv (g.spec.kind.window - 1) g.spec.blockSize + 1) <
        c.farAway * c.lcmBlockSize := by
  have hdvd := blockSize_dvd_lcm hg
  have hL := lcmBlockSize_pos (c := c)
  refine ⟨Nat.mul_div_cancel' (hdvd.mul_left _), ?_⟩
  have hbs : g.spec.blockSize ≤ c.lcmBlockSize := Nat.le_of_dvd hL hdvd
  have hcdiv : g.spec.blockSize * cdiv (g.spec.kind.window - 1) g.spec.blockSize ≤
      g.spec.kind.window - 1 + g.spec.blockSize - 1 := by
    rw [cdiv]
    exact Nat.mul_div_le _ _
  have hfar : (g.spec.kind.window + 5) * c.lcmBlockSize ≤ c.farAway * c.lcmBlockSize :=
    Nat.mul_le_mul_right _ (window_le_farAway hg)
  have hw : g.spec.kind.window ≤ g.spec.kind.window * c.lcmBlockSize := Nat.le_mul_of_pos_right _ hL
  rw [add_mul] at hfar
  rw [mul_add]
  omega

def islandHashes (c : HybridKVCacheCoordinator) : ℕ :=
  (c.farAway + 1) * c.lcmBlockSize / c.hashBlockSize

def islandMax (c : HybridKVCacheCoordinator) : ℕ := (c.farAway + 1) * c.lcmBlockSize

theorem islandMax_eq : c.islandMax = c.farAway * c.lcmBlockSize + c.lcmBlockSize := by
  rw [islandMax, add_mul, one_mul]

theorem islandHashes_mul : c.islandHashes * c.hashBlockSize = c.islandMax := by
  obtain ⟨g, hg⟩ := List.exists_mem_of_ne_nil _ (attentionGroups_ne_nil)
  exact Nat.div_mul_cancel (((hashBlockSize_dvd hg).trans (blockSize_dvd_lcm hg)).mul_left _)

def islandQuery (c : HybridKVCacheCoordinator) (m g : AttentionGroup) (useEagle : Bool)
    (curr : ℕ) : Query :=
  c.query (c.content c.islandHashes (c.islands m)) (unaryHashes c.islandHashes) c.islandMax g
    useEagle curr

section

variable (hg : g ∈ c.attentionGroups)

include hg

theorem islandQuery_shows (useEagle) (curr)
    (hcurr : curr ≤ c.islandMax) : (c.islandQuery m g useEagle curr).Shows (c.islands m g) :=
  query_shows hg islandHashes_mul.ge useEagle hcurr

variable {curr : ℕ}

theorem islandQuery_seen {useEagle}
    (hcurr : curr = c.farAway * c.lcmBlockSize ∨ curr = c.islandMax ∧ useEagle = c.isEagle g) :
    c.farAway * c.lcmBlockSize / g.spec.blockSize + (if useEagle = true then 1 else 0) ≤
        (c.islandQuery m g useEagle curr).maxNumBlocks ∧
      (useEagle = false → c.isEagle g = true → (c.islandQuery m g useEagle curr).maxNumBlocks =
        c.farAway * c.lcmBlockSize / g.spec.blockSize) := by
  have hpos := blockSize_pos' hg
  have hbs : g.spec.blockSize ≤ c.lcmBlockSize := Nat.le_of_dvd lcmBlockSize_pos (blockSize_dvd_lcm hg)
  obtain ⟨hB, -⟩ := island_room hg
  have hmax := islandMax_eq (c := c)
  unfold maxNumBlocks
  cases useEagle with
  | true =>
    refine ⟨(Nat.le_div_iff_mul_le hpos).mpr ?_, by simp⟩
    simp only [islandQuery, query, if_true, Nat.add_mul, Nat.one_mul]
    rw [mul_comm, hB]
    omega
  | false =>
    refine ⟨(Nat.le_div_iff_mul_le hpos).mpr ?_, fun _ he ↦ ?_⟩
    · simp only [islandQuery, query, Bool.false_eq_true, if_false, Nat.add_zero]
      rw [Nat.mul_comm, hB]
      omega
    · obtain rfl : curr = c.farAway * c.lcmBlockSize := by simpa [he] using hcurr
      simp [islandQuery, query]

theorem islandQuery_top (hgm : g ≠ m) (hk : g.spec.kind.Searchable)
    (useEagle) (heagle : useEagle = true → c.isEagle g = true)
    (hcurr : curr = c.farAway * c.lcmBlockSize ∨ curr = c.islandMax ∧ useEagle = c.isEagle g) :
    ∃ rows, (c.islandQuery m g useEagle curr).findLongestCacheHit g.spec.kind = .ok rows ∧
      rows.length * g.spec.blockSize = c.farAway * c.lcmBlockSize := by
  obtain ⟨hB, hroom⟩ := island_room hg
  obtain ⟨hseen, hexact⟩ := islandQuery_seen (m := m) hg hcurr
  have hcurr' : curr ≤ c.islandMax := by
    rw [islandMax, add_mul] at hcurr ⊢
    omega
  have hq := islandQuery_shows (m := m) hg useEagle curr hcurr'
  have hal : ¬ (c.islandQuery m g useEagle curr).misaligned
      (c.farAway * c.lcmBlockSize / g.spec.blockSize) := by
    refine not_misaligned_iff.mpr ?_
    change c.lcmBlockSize ∣ _ * g.spec.blockSize
    rw [mul_comm, hB]
    exact dvd_mul_left _ _
  suffices h : ∃ rows, (c.islandQuery m g useEagle curr).findLongestCacheHit g.spec.kind = .ok rows ∧
      rows.length = c.farAway * c.lcmBlockSize / g.spec.blockSize by
    obtain ⟨rows, hrows, hlen⟩ := h
    exact ⟨rows, hrows, by rw [hlen, mul_comm, hB]⟩
  generalize hBdef : c.farAway * c.lcmBlockSize / g.spec.blockSize = B at hB hseen hexact hal ⊢
  have hBpos : cdiv (g.spec.kind.window - 1) g.spec.blockSize + 1 < B := by
    refine Nat.lt_of_mul_lt_mul_left (a := g.spec.blockSize) ?_
    omega
  -- the block that EAGLE adds to the island is not looked at without it
  have hedge : ∀ i < (c.islandQuery m g useEagle curr).maxNumBlocks,
      (i < B + if c.isEagle g = true then 1 else 0) ↔ i < B + if useEagle = true then 1 else 0 := by
    intro i hi
    cases useEagle with
    | true => rw [heagle rfl]
    | false =>
      cases hflag : c.isEagle g with
      | true =>
        have := hexact rfl hflag
        simp
        omega
      | false => rfl
  have hpop : (c.islandQuery m g useEagle curr).postPopBlocks
      (B + (if useEagle = true then 1 else 0) - 1) = B := by
    cases useEagle with
    | true => rfl
    | false => exact Nat.sub_add_cancel (by omega)
  have hlength := hq.fullAttention_length
  change _ = alignLoop _ (_ - if useEagle = true then 1 else 0) at hlength
  generalize (if useEagle = true then 1 else 0) = e at hseen hedge hpop hlength
  have hfull : (∀ i, c.islands m g i = decide (i < B + if c.isEagle g = true then 1 else 0)) →
      (c.islandQuery m g useEagle curr).fullAttention.length = B := by
    intro hf
    have hcount : ((List.range (c.islandQuery m g useEagle curr).maxNumBlocks).takeWhile
        (c.islands m g)).length = B + e := by
      refine takeWhile_range_length hseen (fun i hi ↦ ?_) (hseen.eq_or_lt.imp_right fun hlt ↦ ?_)
      · rw [hf, decide_eq_true_eq]
        exact (hedge i (by omega)).mpr hi
      · rw [hf, decide_eq_false_iff_not, hedge _ hlt]
        exact lt_irrefl _
    rw [hlength, hcount, Nat.add_sub_cancel, alignLoop_of_aligned hal]
  cases hkind : g.spec.kind with
  | fullAttention | sinkFullAttention =>
    exact ⟨_, rfl, hfull fun i ↦ by simp [islands, hgm, hkind, hBdef]⟩
  | slidingWindow window =>
    rw [hkind] at hBpos
    simp only [SpecKind.window] at hBpos
    have hf : ∀ i < (c.islandQuery m g useEagle curr).maxNumBlocks, c.islands m g i =
        decide (B ≤ i + cdiv (window - 1) g.spec.blockSize + 1 ∧ i < B + e) := fun i hi ↦ by
      simp [islands, hgm, hkind, hBdef, hedge i hi]
    obtain ⟨rows, hrows, hlen⟩ := hq.slidingWindow_top window (t := B + e - 1) (by omega)
      (by rwa [hpop]) (show cdiv (window - 1) g.spec.blockSize ≤ _ by omega)
      (fun j hj hjmax ↦ .inl (by rw [hf j hjmax, decide_eq_false_iff_not]; omega))
      (fun j hj hjt ↦ by
        have hjt : B + e - 1 ≤ j + cdiv (window - 1) g.spec.blockSize := hjt
        rw [hf j (by omega), decide_eq_true_eq]
        omega)
    exact ⟨rows, hrows, hlen.trans hpop⟩
  | mamba mode spec =>
    have hf : ∀ i, c.islands m g i = decide (i + 1 = B) := fun i ↦ by
      simp [islands, hgm, hkind, hBdef]
    obtain ⟨rows, hrows, hlen⟩ := hq.mamba_top (t := B - 1) (n := _) (by omega) le_rfl
      (by rw [hf, decide_eq_true_eq]; omega) (by rwa [show B - 1 + 1 = B by omega])
      (fun j hj _ ↦ by rw [hf, decide_eq_false_iff_not]; omega)
    exact ⟨rows, hrows, by omega⟩
  | chunkedLocalAttention | crossAttention => rw [hkind] at hk; exact hk.elim

theorem islandQuery_low (hgm : g ≠ m) (hk : g.spec.kind.Searchable)
    (hfull : g.spec.isFullAttention = false) (useEagle) (hcurr : curr ≤ c.lcmBlockSize) :
    ∃ rows, (c.islandQuery m g useEagle curr).findLongestCacheHit g.spec.kind = .ok rows ∧
      rows.length = 0 := by
  have hpos := blockSize_pos' hg
  have hbs : g.spec.blockSize ≤ c.lcmBlockSize := Nat.le_of_dvd lcmBlockSize_pos (blockSize_dvd_lcm hg)
  obtain ⟨hB, hroom⟩ := island_room hg
  have hmax := islandMax_eq (c := c)
  refine (islandQuery_shows hg useEagle curr (by omega)).nothing (fun i hi ↦ ?_) hk
  have hlen : (c.islandQuery m g useEagle curr).maxLength ≤ 2 * c.lcmBlockSize := by
    simp only [islandQuery, query]
    split <;> omega
  have hi' : (i + 1) * g.spec.blockSize ≤ 2 * c.lcmBlockSize :=
    ((Nat.le_div_iff_mul_le hpos).mp (Nat.succ_le_of_lt hi)).trans hlen
  rw [mul_comm, mul_add, mul_one] at hi'
  cases hkind : g.spec.kind with
  | fullAttention | sinkFullAttention => simp [KVCacheSpec.isFullAttention, hkind] at hfull
  | slidingWindow window =>
    rw [hkind] at hroom
    simp only [SpecKind.window, mul_add, mul_one] at hroom
    have hout : ¬ c.farAway * c.lcmBlockSize / g.spec.blockSize ≤
        i + cdiv (window - 1) g.spec.blockSize + 1 := by
      intro hle
      have := Nat.mul_le_mul_left g.spec.blockSize hle
      rw [hB, mul_add, mul_add, mul_one] at this
      omega
    simp [islands, hgm, hkind, hout]
  | mamba mode spec =>
    have hout : ¬ i + 1 = c.farAway * c.lcmBlockSize / g.spec.blockSize := by
      intro he
      rw [← he, mul_add, mul_one] at hB
      omega
    simp [islands, hgm, hkind, hout]
  | chunkedLocalAttention => simp [islands, hgm, hkind]
  | crossAttention => simp [islands, hgm, hkind]

end

theorem islandQuery_self (hm : m ∈ c.attentionGroups) (hmamba : m.spec.kind.isMamba = true)
    (hsize : m.spec.blockSize = c.lcmBlockSize) (useEagle) {curr t}
    (hcase : (useEagle = true ∧ t = c.farAway ∧
        (curr = c.farAway * c.lcmBlockSize ∨ curr = c.islandMax)) ∨
      (useEagle = false ∧ t = 0 ∧ curr = c.farAway * c.lcmBlockSize) ∨
      (useEagle = true ∧ t = 0 ∧ curr = 0)) :
    ∃ rows, (c.islandQuery m m useEagle curr).findLongestCacheHit m.spec.kind = .ok rows ∧
      rows.length = t + 1 := by
  have hL := lcmBlockSize_pos (c := c)
  have hfar : 5 ≤ c.farAway := by simp [farAway]
  have hmax := islandMax_eq (c := c)
  have hfind : ∀ q : Query, q.findLongestCacheHit m.spec.kind = q.mambaLoop q.maxNumBlocks := by
    intro q
    cases hkind : m.spec.kind <;> simp [hkind, SpecKind.isMamba] at hmamba
    rfl
  have hf : ∀ i, c.islands m m i = decide (i = 0 ∨ i = c.farAway) := fun i ↦ by simp [islands]
  have hal : ¬ (c.islandQuery m m useEagle curr).misaligned (t + 1) := by
    rintro ⟨hne, -⟩
    exact hne hsize
  have hq := islandQuery_shows (m := m) hm useEagle curr (by omega)
  -- the number of blocks looked at
  have hseen : (c.islandQuery m m useEagle curr).maxNumBlocks = c.farAway + 1 ∧ t = c.farAway ∨
      (c.islandQuery m m useEagle curr).maxNumBlocks = c.farAway ∧ t = 0 ∨
      (c.islandQuery m m useEagle curr).maxNumBlocks = 1 ∧ t = 0 := by
    unfold maxNumBlocks
    simp only [islandQuery, query, hsize]
    rcases hcase with ⟨rfl, ht, hcurr⟩ | ⟨rfl, ht, rfl⟩ | ⟨rfl, ht, rfl⟩
    · refine .inl ⟨?_, ht⟩
      rw [if_pos rfl, min_eq_right (by omega), islandMax, Nat.mul_div_cancel _ hL]
    · refine .inr (.inl ⟨?_, ht⟩)
      rw [if_neg (by simp), Nat.mul_div_cancel _ hL]
    · refine .inr (.inr ⟨?_, ht⟩)
      rw [if_pos rfl, min_eq_left (by omega), Nat.zero_add, Nat.div_self hL]
  rw [hfind]
  refine hq.mamba_top (by omega) le_rfl ?_ hal fun j hj hjmax ↦ ?_
  · rw [hf, decide_eq_true_eq]
    omega
  · rw [hf, decide_eq_false_iff_not]
    omega

end HybridKVCacheCoordinator

end VllmEngine.Core

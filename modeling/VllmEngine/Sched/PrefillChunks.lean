import VllmEngine.Sched.Schedule

namespace VllmEngine.Sched.SchedRequest

open VllmEngine.Core

section

variable (cfg : SchedulerConfig) (r : SchedRequest)

def lastCachePosition : ℕ :=
  let aligned := r.numTokens - r.numTokens % cfg.blockSize
  if cfg.useEagle then aligned - cfg.blockSize else aligned

/-- The ends of the chunks of a request with `computed` tokens under the given budgets: it waits
until the first chunk is scheduled, and then runs. -/
def prefillChunks : Bool → ℕ → List ℕ → List ℕ
  | _, _, [] => []
  | waits, computed, tokenBudget :: budgets =>
    let n := if waits then (numNewTokensWaiting cfg ⟨tokenBudget, none⟩ r computed).getD 0
      else numNewTokensRunning cfg ⟨tokenBudget, none⟩ { r with numComputedTokens := computed }
    let rest := prefillChunks (waits && n ≤ 0) (computed + n).toNat budgets
    if 0 < n then (computed + n).toNat :: rest else rest

end

variable {cfg : SchedulerConfig} {r : SchedRequest} {c : ℕ} {m : ℤ}

theorem lastCachePosition_spec (cfg : SchedulerConfig) (r : SchedRequest) :
    cfg.blockSize ∣ r.lastCachePosition cfg ∧ r.lastCachePosition cfg ≤ r.numTokens := by
  have haligned := Nat.dvd_sub_mod (n := cfg.blockSize) r.numTokens
  unfold lastCachePosition
  dsimp only
  split
  · exact ⟨Nat.dvd_sub haligned dvd_rfl, by omega⟩
  · exact ⟨haligned, Nat.sub_le _ _⟩

def BlockStart (cfg : SchedulerConfig) (r : SchedRequest) (c : ℕ) : Prop :=
  c < r.lastCachePosition cfg ∧ cfg.blockSize ∣ c

/-- A chunk that would end below the last cache position is cut to whole blocks, and one past it
ends there. -/
theorem split_cases (cfg) (r) (c : ℕ) (m : ℤ) :
    c + m < r.lastCachePosition cfg ∧
        mambaBlockAlignedSplit cfg r c m = m / cfg.blockSize * cfg.blockSize ∨
      c + mambaBlockAlignedSplit cfg r c m = r.lastCachePosition cfg ∧
        r.lastCachePosition cfg < c + m ∨
      mambaBlockAlignedSplit cfg r c m = m ∧ (c + m = r.lastCachePosition cfg ∨
        r.lastCachePosition cfg ≤ c ∧ r.lastCachePosition cfg ≤ c + m ∨ r.numTokens ≤ c + 1) := by
  rw [show mambaBlockAlignedSplit cfg r c m =
    if c < max r.numPromptTokens (r.numTokens - 1) then
      if c + m < r.lastCachePosition cfg then m / cfg.blockSize * cfg.blockSize
      else if c < r.lastCachePosition cfg ∧ (r.lastCachePosition cfg : ℤ) < c + m then
        (r.lastCachePosition cfg : ℤ) - c
      else m
    else m from rfl]
  split
  · split
    next hlt => exact .inl ⟨hlt, rfl⟩
    next hge =>
      split
      next hpass => exact .inr (.inl ⟨by omega, hpass.2⟩)
      next hpass => exact .inr (.inr ⟨rfl, by omega⟩)
  · exact .inr (.inr ⟨rfl, by omega⟩)

theorem split_aligned (hB : 0 < cfg.blockSize) (hm : c + m ≤ r.numTokens) (hc : BlockStart cfg r c) :
    c + mambaBlockAlignedSplit cfg r c m ≤ r.lastCachePosition cfg ∧
      (cfg.blockSize : ℤ) ∣ c + mambaBlockAlignedSplit cfg r c m := by
  obtain ⟨hlast, hle⟩ := lastCachePosition_spec cfg r
  have hlast' : (cfg.blockSize : ℤ) ∣ r.lastCachePosition cfg := Int.natCast_dvd_natCast.mpr hlast
  rcases split_cases cfg r c m with ⟨hafter, heq⟩ | ⟨heq, -⟩ | ⟨heq, hcase⟩
  · have hfloor := Int.ediv_mul_le m (show (cfg.blockSize : ℤ) ≠ 0 by omega)
    rw [heq]
    exact ⟨by omega, Int.dvd_add (Int.natCast_dvd_natCast.mpr hc.2) (dvd_mul_left _ _)⟩
  · rw [heq]
    exact ⟨le_rfl, hlast'⟩
  rw [heq]
  rcases hcase with hend | ⟨hge, -⟩ | hone
  · exact ⟨hend.le, hend ▸ hlast'⟩
  · exact absurd hc.1 hge.not_gt
  -- only blocks of one token leave a boundary just below the last cache position
  have hdvd := Nat.dvd_sub hlast hc.2
  rw [show r.lastCachePosition cfg - c = 1 by have := hc.1; omega, Nat.dvd_one] at hdvd
  rw [hdvd]
  exact ⟨by have := hc.1; omega, one_dvd _⟩

theorem split_behind (hB : 0 < cfg.blockSize) (hm : c + m ≤ r.numTokens)
    (hneg : 0 ≤ m ∨ m = (cfg.maxModelLen : ℤ) - 1 - c) (hc : r.lastCachePosition cfg ≤ c ∨
      cfg.maxModelLen ≤ c + cfg.blockSize ∧ m ≤ (cfg.maxModelLen : ℤ) - 1 - c) :
    c + mambaBlockAlignedSplit cfg r c m ≤ r.numTokens ∧ (0 < mambaBlockAlignedSplit cfg r c m →
        r.lastCachePosition cfg ≤ c + mambaBlockAlignedSplit cfg r c m) ∧
      (r.lastCachePosition cfg ≤ c + mambaBlockAlignedSplit cfg r c m ∨
        mambaBlockAlignedSplit cfg r c m ≤ 0 ∧ (m < 0 ∨ c < r.lastCachePosition cfg) ∧
          (cfg.maxModelLen : ℤ) ≤ c + mambaBlockAlignedSplit cfg r c m + cfg.blockSize) := by
  have hlast := (lastCachePosition_spec cfg r).2
  rcases split_cases cfg r c m with ⟨hafter, heq⟩ | ⟨heq, -⟩ | ⟨heq, hcase⟩
  · have hfloor := Int.ediv_mul_le m (show (cfg.blockSize : ℤ) ≠ 0 by omega)
    have hceil := Int.lt_ediv_add_one_mul_self m (show (0 : ℤ) < cfg.blockSize by omega)
    rw [add_mul, one_mul] at hceil
    have hsmall : 0 ≤ m → m < cfg.blockSize → m / cfg.blockSize * cfg.blockSize = 0 := fun h h' ↦ by
      rw [Int.ediv_eq_zero_of_lt h h', zero_mul]
    rw [heq]
    generalize m / cfg.blockSize * cfg.blockSize = q at *
    omega
  · omega
  · omega

theorem longPrefillLimit_spec (cfg) (n) :
    longPrefillLimit cfg n ≤ n ∧ (0 ≤ n → 0 ≤ longPrefillLimit cfg n) := by
  unfold longPrefillLimit
  split <;> omega

theorem chunk_eq (hsplit : cfg.needMambaBlockAlignedSplit = true) (hspec : r.specTokenIds = [])
    (hnone : r.numOutputPlaceholders = 0) (hle : c ≤ r.numTokens) (waits) (b) {n}
    (hn : n = if waits then (numNewTokensWaiting cfg ⟨b, none⟩ r c).getD 0
      else numNewTokensRunning cfg ⟨b, none⟩ { r with numComputedTokens := c }) (hne : n ≠ 0) :
    ∃ m, n = mambaBlockAlignedSplit cfg r c m ∧ c + m ≤ r.numTokens ∧
      (0 ≤ m ∨ waits = false ∧ m = (cfg.maxModelLen : ℤ) - 1 - c) ∧
      (waits = false → m ≤ (cfg.maxModelLen : ℤ) - 1 - c) := by
  obtain ⟨hlimit, hpos⟩ := longPrefillLimit_spec cfg ((r.numTokens : ℤ) - c)
  cases waits with
  | true =>
    simp only [if_true, numNewTokensWaiting, splitForMamba, hsplit, Budget.limitEncoder] at hn
    split at hn
    · exact absurd hn hne
    · exact ⟨_, hn, by omega, .inl (by omega), fun h ↦ by cases h⟩
  | false =>
    simp only [Bool.false_eq_true, if_false, numNewTokensRunning, splitForMamba, hsplit, if_true,
      Budget.limitEncoder, numTokensWithSpec, hspec, hnone, List.length_nil, add_zero] at hn
    replace hn : n = mambaBlockAlignedSplit cfg r c (min (min (longPrefillLimit cfg
      ((r.numTokens : ℤ) - c)) b) ((cfg.maxModelLen : ℤ) - 1 - c)) := hn
    refine ⟨_, hn, by omega, ?_, fun _ ↦ min_le_right _ _⟩
    rw [eq_self, true_and]
    omega

/-- The chunks of a prefill from a block boundary end on block boundaries below the last cache
position, and one ends at that position if it passes it. -/
theorem prefill_chunks_end_on_blocks (hsplit : cfg.needMambaBlockAlignedSplit = true)
    (hspec : r.specTokenIds = []) (hnone : r.numOutputPlaceholders = 0) (hle : c ≤ r.numTokens)
    (hc : cfg.blockSize ∣ c) (budgets : List ℕ) :
    (∀ e ∈ r.prefillChunks cfg true c budgets, e < r.lastCachePosition cfg → cfg.blockSize ∣ e) ∧
      (c < r.lastCachePosition cfg →
        (∃ e ∈ r.prefillChunks cfg true c budgets, r.lastCachePosition cfg < e) →
          r.lastCachePosition cfg ∈ r.prefillChunks cfg true c budgets) := by
  have hlast := (lastCachePosition_spec cfg r).2
  rcases eq_zero_or_pos cfg.blockSize with hzero | hB
  · simp [lastCachePosition, hzero]
  suffices hall : ∀ waits c, c ≤ r.numTokens → (BlockStart cfg r c →
        (∀ e ∈ r.prefillChunks cfg waits c budgets, e < r.lastCachePosition cfg → cfg.blockSize ∣ e) ∧
        ((∃ e ∈ r.prefillChunks cfg waits c budgets, r.lastCachePosition cfg < e) →
          r.lastCachePosition cfg ∈ r.prefillChunks cfg waits c budgets)) ∧
      (r.lastCachePosition cfg ≤ c ∨ waits = false ∧ cfg.maxModelLen ≤ c + cfg.blockSize →
        ∀ e ∈ r.prefillChunks cfg waits c budgets, r.lastCachePosition cfg ≤ e) by
    by_cases hlt : c < r.lastCachePosition cfg
    · have := (hall true c hle).1 ⟨hlt, hc⟩
      exact ⟨this.1, fun _ ↦ this.2⟩
    · have := (hall true c hle).2 (.inl (not_lt.mp hlt))
      exact ⟨fun e he hlt' ↦ absurd hlt' (this e he).not_gt, fun h ↦ absurd h hlt⟩
  clear hle hc
  induction budgets with
  | nil => simp [prefillChunks]
  | cons b budgets ih =>
    intro waits c hle
    unfold prefillChunks
    dsimp only
    generalize hn : (if waits = true then _ else _ : ℤ) = n
    by_cases hne : n = 0
    · simpa [hne] using ih waits c hle
    obtain ⟨m, rfl, hm, hneg, hcap⟩ := chunk_eq hsplit hspec hnone hle waits b hn.symm hne
    constructor
    · -- the next chunk ends at a boundary, at the latest at the last cache position
      intro hstart
      have hlt := hstart.1
      obtain ⟨hend, hdvd⟩ := split_aligned hB hm hstart
      generalize mambaBlockAlignedSplit cfg r c m = n at hend hdvd hne ⊢
      have hdvd' : cfg.blockSize ∣ (c + n).toNat := by
        rcases le_or_gt 0 (c + n) with hpos | hneg
        · rwa [← Int.natCast_dvd_natCast, Int.toNat_of_nonneg hpos]
        · rw [Int.toNat_of_nonpos hneg.le]
          exact dvd_zero _
      rcases (show (c + n).toNat ≤ r.lastCachePosition cfg by omega).lt_or_eq with hlt | heq
      · obtain ⟨hends, hmeets⟩ := (ih (waits && decide (n ≤ 0)) (c + n).toNat (by omega)).1
          ⟨hlt, hdvd'⟩
        split
        · simp only [List.mem_cons, forall_eq_or_imp, exists_eq_or_imp]
          exact ⟨⟨fun _ ↦ hdvd', hends⟩, fun h ↦ .inr (hmeets (h.resolve_left hlt.not_gt))⟩
        · exact ⟨hends, hmeets⟩
      · have hrest := (ih (waits && decide (n ≤ 0)) (c + n).toNat (by omega)).2 (.inl heq.ge)
        rw [if_pos (by omega)]
        refine ⟨fun e he hlt' ↦ ?_, fun _ ↦ heq ▸ List.mem_cons_self⟩
        rcases List.mem_cons.mp he with rfl | he
        · exact hdvd'
        · exact absurd hlt' (hrest e he).not_gt
    · intro hc
      obtain ⟨hle', hchunk, hback⟩ := split_behind hB hm (hneg.imp_right (·.2))
        (hc.imp_right fun h ↦ ⟨h.2, hcap h.1⟩)
      generalize mambaBlockAlignedSplit cfg r c m = n at hle' hchunk hback ⊢
      have hrest := (ih (waits && decide (n ≤ 0)) (c + n).toNat (by omega)).2 <| by
        rcases hback with hge | ⟨hn, hm', hmax⟩
        · exact .inl (by omega)
        · cases waits with
          | true => simp at hc hneg; omega
          | false => exact .inr ⟨rfl, by omega⟩
      split
      next hpos =>
        exact List.forall_mem_cons.mpr ⟨by omega, hrest⟩
      next => exact hrest

def twoBlocks : SchedRequest where
  requestId := "a"
  allTokenIds := [1, 2, 3, 4, 5]
  promptTokenIds := [1, 2, 3, 4, 5]
  numPromptTokens := 5
  maxTokens := 1

theorem prefill_chunks_end_on_blocks_of_two :
    twoBlocks.prefillChunks ⟨2, 8, 0, true, true, false, 0⟩ true 0 [3, 3, 3] = [2, 4, 5] ∧
      twoBlocks.lastCachePosition ⟨2, 8, 0, true, true, false, 0⟩ = 4 ∧
      4 ∈ twoBlocks.prefillChunks ⟨2, 8, 0, true, true, false, 0⟩ true 0 [3, 3, 3] :=
  ⟨by decide, by decide, (prefill_chunks_end_on_blocks rfl rfl rfl (Nat.zero_le _) (dvd_zero _)
    [3, 3, 3]).2 (by decide) ⟨5, by decide, by decide⟩⟩

end VllmEngine.Sched.SchedRequest

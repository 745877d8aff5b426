import VllmEngine.Core.HashInputs

namespace VllmEngine.Core.Request

open Lib List

variable {H : Hashing} {blockSize : ℕ} {r : Request}

/-- A request with the prompt `r.allTokenIds`, which its constructor hashes, after calls of
`append_output_token_ids` with the lists `outs`. -/
def incremental (H : Hashing) (blockSize : ℕ) (r : Request) (outs : List (List ℕ)) : Request :=
  outs.foldl (appendOutputTokenIds H blockSize)
    (updateBlockHashes H blockSize { r with blockHashes := [] })

def finished (r : Request) (outs : List (List ℕ)) : Request :=
  { r with allTokenIds := r.allTokenIds ++ outs.flatten }

/-- The number of blocks after the first call that completes one, for `n` tokens so far. -/
def firstBlocks (blockSize : ℕ) : ℕ → List (List ℕ) → ℕ
  | n, [] => n / blockSize
  | n, out :: outs =>
    if blockSize ≤ n then n / blockSize else firstBlocks blockSize (n + out.length) outs

theorem firstBlocks_of_le {n} (h : blockSize ≤ n) (outs : List (List ℕ)) :
    firstBlocks blockSize n outs = n / blockSize := by
  cases outs with
  | nil => rfl
  | cons out outs => rw [firstBlocks, if_pos h]

/-- The inputs of the hash function: the scan of features starts from the first one before block
`k`, and from the last one after it. -/
def mixedInput (H : Hashing) (blockSize : ℕ) (r : Request) (k j : ℕ) : List ℕ × ExtraKeys :=
  blockInput H blockSize r (if j < k then .idx 0 else .last) j

theorem blockInput_append (tokens) (hashes) (more) (c)
    {j} (hj : j * blockSize + blockSize ≤ tokens.length) :
    blockInput H blockSize { r with allTokenIds := tokens, blockHashes := hashes } c j =
      blockInput H blockSize { r with allTokenIds := tokens ++ more } c j := by
  have htokens : ((tokens ++ more).drop (j * blockSize)).take blockSize =
      (tokens.drop (j * blockSize)).take blockSize := by
    rw [drop_append_of_le_length (by omega), take_append_of_le_length]
    rw [length_drop]
    omega
  refine Prod.ext htokens.symm ?_
  rfl

theorem appendOutput_chain (hbs : 0 < blockSize) {tokens out} (more) {k}
    (hk : (tokens.length < blockSize ∧
        (blockSize ≤ tokens.length + out.length → k = (tokens.length + out.length) / blockSize)) ∨
      (blockSize ≤ tokens.length ∧ k ≤ tokens.length / blockSize))
    {full} (hfull : full = { r with allTokenIds := tokens ++ out ++ more }) :
    appendOutputTokenIds H blockSize { r with
          allTokenIds := tokens
          blockHashes := chain (hashLink H) none
            ((range (tokens.length / blockSize)).map (mixedInput H blockSize full k)) } out =
      { r with
        allTokenIds := tokens ++ out
        blockHashes := chain (hashLink H) none ((range ((tokens ++ out).length / blockSize)).map
            (mixedInput H blockSize full k)) } := by
  have hle : tokens.length / blockSize ≤ (tokens ++ out).length / blockSize :=
    Nat.div_le_div_right (by simp)
  rw [appendOutputTokenIds, updateBlockHashes, requestBlockHasher_eq_chain hbs]
  simp only [chain_length, length_map, length_range, numTokens]
  congr 1
  rw [range_split hle, map_append, chain_append, Option.or_none]
  congr 2
  refine map_congr_left fun j hj ↦ ?_
  obtain ⟨hlow, hhigh⟩ := mem_range'_1.mp hj
  have hj : j * blockSize + blockSize ≤ (tokens ++ out).length := by
    rw [← Nat.succ_mul, ← Nat.le_div_iff_mul_le hbs]
    omega
  have hcursor : (if j < k then MmCursor.idx 0 else .last) =
      if tokens.length / blockSize = 0 then .idx 0 else .last := by
    rcases hk with ⟨hlt, hk⟩ | ⟨hge, hk⟩
    · rw [length_append] at hhigh hj
      rw [if_pos (Nat.div_eq_of_lt hlt), if_pos]
      rw [hk (by omega)]
      omega
    · have hpos := Nat.div_pos hge hbs
      rw [if_neg (by omega), if_neg (by omega)]
  rw [blockInput_append (tokens ++ out) _ more _ hj, mixedInput, hcursor, hfull]

theorem foldl_append_chain (hbs : 0 < blockSize) (outs : List (List ℕ)) {tokens k}
    (hk : (tokens.length < blockSize ∧ k = firstBlocks blockSize tokens.length outs) ∨
      (blockSize ≤ tokens.length ∧ k ≤ tokens.length / blockSize))
    {full} (hfull : full = { r with allTokenIds := tokens ++ outs.flatten }) :
    (outs.foldl (appendOutputTokenIds H blockSize) { r with
          allTokenIds := tokens
          blockHashes := chain (hashLink H) none ((range (tokens.length / blockSize)).map
              (mixedInput H blockSize full k)) }).blockHashes =
      chain (hashLink H) none
        ((range (full.numTokens / blockSize)).map (mixedInput H blockSize full k)) := by
  induction outs generalizing tokens with
  | nil =>
    subst hfull
    simp [numTokens]
  | cons out outs ih =>
    have hstep : (tokens.length < blockSize ∧ (blockSize ≤ tokens.length + out.length →
          k = (tokens.length + out.length) / blockSize)) ∨
        (blockSize ≤ tokens.length ∧ k ≤ tokens.length / blockSize) := by
      refine hk.imp_left fun ⟨hlt, hk⟩ ↦ ⟨hlt, fun hle ↦ ?_⟩
      rw [hk, firstBlocks, if_neg (by omega), firstBlocks_of_le hle]
    have hnext : ((tokens ++ out).length < blockSize ∧
          k = firstBlocks blockSize (tokens ++ out).length outs) ∨
        (blockSize ≤ (tokens ++ out).length ∧ k ≤ (tokens ++ out).length / blockSize) := by
      rw [length_append]
      rcases lt_or_ge (tokens.length + out.length) blockSize with hlt | hge
      · obtain ⟨hlt', hk⟩ := hk.resolve_right (by omega)
        rw [firstBlocks, if_neg (by omega)] at hk
        exact .inl ⟨hlt, hk⟩
      refine .inr ⟨hge, ?_⟩
      rcases hstep with ⟨-, hk⟩ | ⟨-, hk⟩
      · exact (hk hge).le
      · exact hk.trans (Nat.div_le_div_right (by omega))
    rw [foldl_cons, appendOutput_chain hbs outs.flatten hstep (by simp [hfull])]
    exact ih hnext (by simp [hfull])

theorem incremental_eq_chain (hbs : 0 < blockSize) (outs : List (List ℕ)) :
    (incremental H blockSize r outs).blockHashes =
      chain (hashLink H) none ((range ((finished r outs).numTokens / blockSize)).map
        (mixedInput H blockSize (finished r outs) (firstBlocks blockSize r.numTokens outs))) := by
  have hprompt : updateBlockHashes H blockSize { r with blockHashes := [] } = { r with
        blockHashes := chain (hashLink H) none ((range (r.allTokenIds.length / blockSize)).map
          (mixedInput H blockSize (finished r outs) (firstBlocks blockSize r.numTokens outs))) } := by
    change { r with blockHashes := scratchHashes H blockSize r } = _
    rw [scratchHashes_eq_chain hbs]
    congr 2
    refine map_congr_left fun j hj ↦ ?_
    have hlt := mem_range.mp hj
    have hlen : j * blockSize + blockSize ≤ r.allTokenIds.length := by
      rw [← Nat.succ_mul, ← Nat.le_div_iff_mul_le hbs]
      exact hlt
    have hle : blockSize ≤ r.numTokens := le_trans (Nat.le_add_left _ _) hlen
    rw [firstBlocks_of_le hle, mixedInput, if_pos hlt]
    exact blockInput_append r.allTokenIds [] outs.flatten _ hlen
  rw [incremental, hprompt]
  refine foldl_append_chain hbs outs ?_ rfl
  rcases lt_or_ge r.allTokenIds.length blockSize with hlt | hge
  · exact .inl ⟨hlt, rfl⟩
  · exact .inr ⟨hge, (firstBlocks_of_le hge outs).le⟩

/-- No feature but the last reaches into a block hashed after the first call. -/
def NoLateFeature (blockSize : ℕ) (r : Request) (outs : List (List ℕ)) : Prop :=
  ∀ f ∈ r.mmFeatures.dropLast, ∀ j < (finished r outs).numTokens / blockSize,
    firstBlocks blockSize r.numTokens outs ≤ j →
    ¬ (f.start < j * blockSize + blockSize ∧ j * blockSize < f.stop)

instance (blockSize : ℕ) (r : Request) (outs : List (List ℕ)) :
    Decidable (NoLateFeature blockSize r outs) :=
  inferInstanceAs (Decidable (∀ _ ∈ _, _))

theorem overlapKeys_last_eq_iff {s e} (h : Disjoint r.mmFeatures) :
    (genMmExtraHashKeys r s e .last).1 = (genMmExtraHashKeys r s e (.idx 0)).1 ↔
      ∀ f ∈ r.mmFeatures.dropLast, ¬ (f.start < e ∧ s < f.stop) := by
  rw [genMm_of_disjoint h, genMm_of_disjoint h]
  have hlast : r.mmFeatures = r.mmFeatures.dropLast ++ r.mmFeatures.drop (r.mmFeatures.length - 1) := by
    rw [dropLast_eq_take, take_append_drop]
  have hsplit : overlapKeys s e r.mmFeatures = overlapKeys s e r.mmFeatures.dropLast ++
      overlapKeys s e (r.mmFeatures.drop (r.mmFeatures.length - 1)) := by
    conv_lhs => rw [hlast]
    rw [overlapKeys, filter_append, map_append, overlapKeys, overlapKeys]
  have hnil : overlapKeys s e r.mmFeatures.dropLast = [] ↔
      ∀ f ∈ r.mmFeatures.dropLast, ¬ (f.start < e ∧ s < f.stop) := by
    rw [overlapKeys, map_eq_nil_iff, filter_eq_nil_iff]
    simp only [decide_eq_true_eq]
  rw [← hnil]
  change overlapKeys s e (r.mmFeatures.drop (r.mmFeatures.length - 1)) =
    overlapKeys s e r.mmFeatures ↔ _
  rw [hsplit, eq_comm, append_left_eq_self]

theorem blockInput_last_eq_iff (h : Disjoint r.mmFeatures) (j) :
    blockInput H blockSize r .last j = blockInput H blockSize r (.idx 0) j ↔
      ∀ f ∈ r.mmFeatures.dropLast, ¬ (f.start < j * blockSize + blockSize ∧ j * blockSize < f.stop) := by
  rw [← overlapKeys_last_eq_iff h, Prod.ext_iff]
  simp only [blockInput, generateBlockHashExtraKeys, true_and]
  constructor
  · intro heq
    have hlist : ∀ {l l' : List ExtraKey},
        (if l = [] then none else some l) = (if l' = [] then none else some l') → l = l' := by
      intro l l' hll
      split at hll <;> split at hll <;> simp_all
    simpa using hlist heq
  · intro heq
    rw [heq]

/-- Hashing in steps gives the hashes of the whole sequence as long as no feature but the last
reaches into a block completed after the first step; for a hash function without collisions, only
then. -/
theorem incremental_hashes_eq_scratch (hbs : 0 < blockSize) (hfeatures : Disjoint r.mmFeatures)
    (outs : List (List ℕ)) :
    (NoLateFeature blockSize r outs →
        (incremental H blockSize r outs).blockHashes = scratchHashes H blockSize (finished r outs)) ∧
      (Function.Injective H.hashFunction →
        (incremental H blockSize r outs).blockHashes = scratchHashes H blockSize (finished r outs) →
        NoLateFeature blockSize r outs) := by
  rw [incremental_eq_chain hbs, scratchHashes_eq_chain hbs]
  have hmixed : NoLateFeature blockSize r outs ↔
      (range ((finished r outs).numTokens / blockSize)).map
          (mixedInput H blockSize (finished r outs) (firstBlocks blockSize r.numTokens outs)) =
        (range ((finished r outs).numTokens / blockSize)).map
          (blockInput H blockSize (finished r outs) (.idx 0)) := by
    rw [map_inj_left]
    constructor
    · intro h j hj
      unfold mixedInput
      split
      · rfl
      · refine (blockInput_last_eq_iff (r := finished r outs) hfeatures j).mpr fun f hf ↦ ?_
        exact h f hf j (mem_range.mp hj) (by omega)
    · intro h f hf j hhigh hlow
      have heq := h j (mem_range.mpr hhigh)
      rw [mixedInput, if_neg (by omega)] at heq
      exact (blockInput_last_eq_iff (r := finished r outs) hfeatures j).mp heq f hf
  exact ⟨fun h ↦ by rw [hmixed.mp h], fun hinj heq ↦
    hmixed.mpr (chain_injective (hashLink_right_inj hinj) none heq)⟩

def twoImages (offset : ℕ) : Request where
  requestId := "r"
  allTokenIds := [1, 2, 3, 4, 5, 6, 7]
  mmFeatures := [⟨"x", { offset, length := 1 }⟩, ⟨"y", { offset := offset + 1, length := 1 }⟩]

def countHashing : Hashing where
  hashFunction x := [(x.2.2.getD []).length.toUInt8]
  sha256 _ := []
  noneHash := []

theorem incremental_hashes_eq_scratch_first_block :
    (incremental countHashing 4 (twoImages 1) [[8], [9]]).blockHashes =
      scratchHashes countHashing 4 (finished (twoImages 1) [[8], [9]]) :=
  (incremental_hashes_eq_scratch (by decide) (by simp [Disjoint, twoImages,
    MultiModalFeatureSpec.stop, MultiModalFeatureSpec.start]) _).1 (by decide)

/-- The images lie in the second block, which the first output token completes: only the second one
is hashed. -/
theorem incremental_hashes_ne_scratch :
    (incremental countHashing 4 (twoImages 4) [[8]]).blockHashes = [[0], [1]] ∧
      scratchHashes countHashing 4 (finished (twoImages 4) [[8]]) = [[0], [2]] := by
  decide

end VllmEngine.Core.Request

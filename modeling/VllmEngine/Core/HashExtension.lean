import VllmEngine.Core.HashInputs

namespace VllmEngine.Core.Request

open Lib List

variable {H : Hashing} {blockSize : ℕ} {r r' : Request}

theorem blockInput_of_no_features (h : r.mmFeatures = []) (c) (j) :
    blockInput H blockSize r c j = blockInput H blockSize r (.idx 0) j := by
  have hkeys : ∀ c s e, (genMmExtraHashKeys r s e c).1 = [] := by
    intro c s e
    simp [genMmExtraHashKeys, h]
  simp only [blockInput, generateBlockHashExtraKeys, hkeys]

structure SameExtras (r r' : Request) : Prop where
  mm : r.mmFeatures = r'.mmFeatures
  lora : r.loraRequest = r'.loraRequest
  salt : r.cacheSalt = r'.cacheSalt
  embeds : r.promptEmbeds = r'.promptEmbeds

theorem SameExtras.blockInput_eq_iff (h : SameExtras r r') (j) :
    blockInput H blockSize r (.idx 0) j = blockInput H blockSize r' (.idx 0) j ↔
      (r.allTokenIds.drop (j * blockSize)).take blockSize =
        (r'.allTokenIds.drop (j * blockSize)).take blockSize := by
  have hkeys : (blockInput H blockSize r (.idx 0) j).2 = (blockInput H blockSize r' (.idx 0) j).2 := by
    simp only [blockInput, generateBlockHashExtraKeys, genMmExtraHashKeys, genLoraExtraHashKeys,
      cacheSaltKeys, genPromptEmbedsExtraHashKeys, h.mm, h.lora, h.salt, h.embeds]
  rw [Prod.ext_iff, and_iff_left hkeys]
  rfl

theorem scratchHashes_congr (hbs : 0 < blockSize) (h : SameExtras r r')
    (htokens : r.allTokenIds = r'.allTokenIds) :
    scratchHashes H blockSize r = scratchHashes H blockSize r' := by
  have hinput : ∀ j, blockInput H blockSize r (.idx 0) j = blockInput H blockSize r' (.idx 0) j :=
    fun j ↦ (h.blockInput_eq_iff j).mpr (by rw [htokens])
  rw [scratchHashes_eq_chain hbs, scratchHashes_eq_chain hbs, numTokens, numTokens, htokens,
    funext hinput]

theorem updateBlockHashes_eq_scratch (hbs : 0 < blockSize) (h : SameExtras r r')
    (hmm : r'.mmFeatures = []) (hr : r'.blockHashes = scratchHashes H blockSize r)
    (htake : r.allTokenIds.take (r.numTokens / blockSize * blockSize) =
      r'.allTokenIds.take (r.numTokens / blockSize * blockSize)) :
    (updateBlockHashes H blockSize r').blockHashes = scratchHashes H blockSize r' := by
  have hle : r.numTokens / blockSize ≤ r'.numTokens / blockSize := by
    have hlen := congrArg length htake
    have hself := Nat.div_mul_le_self r.numTokens blockSize
    rw [length_take, length_take] at hlen
    rw [Nat.le_div_iff_mul_le hbs]
    simp only [numTokens] at hlen hself ⊢
    omega
  have hlength : r'.blockHashes.length = r.numTokens / blockSize := by
    rw [hr, scratchHashes_eq_chain hbs, chain_length, length_map, length_range]
  have hinput := (blocks_eq_iff_take_eq _).mpr htake
  have hold : (range (r.numTokens / blockSize)).map (blockInput H blockSize r (.idx 0)) =
      (range (r.numTokens / blockSize)).map (blockInput H blockSize r' (.idx 0)) :=
    map_congr_left fun j hj ↦ (h.blockInput_eq_iff j).mpr (hinput j (mem_range.mp hj))
  have hnew : ∀ c, (range' (r.numTokens / blockSize)
        (r'.numTokens / blockSize - r.numTokens / blockSize)).map (blockInput H blockSize r' c) =
      (range' (r.numTokens / blockSize) (r'.numTokens / blockSize - r.numTokens / blockSize)).map
          (blockInput H blockSize r' (.idx 0)) :=
    fun c ↦ map_congr_left fun j _ ↦ blockInput_of_no_features hmm c j
  change r'.blockHashes ++ requestBlockHasher H blockSize r' = _
  rw [requestBlockHasher_eq_chain hbs, hlength, hnew, hr, scratchHashes_eq_chain hbs, hold,
    scratchHashes_eq_chain hbs, range_split hle, map_append, chain_append, Option.or_none]

theorem take_eq_of_updateBlockHashes (hinj : Function.Injective H.hashFunction)
    (hbs : 0 < blockSize) (h : SameExtras r r') (hr : r'.blockHashes = scratchHashes H blockSize r)
    (heq : (updateBlockHashes H blockSize r').blockHashes = scratchHashes H blockSize r') :
    r.allTokenIds.take (r.numTokens / blockSize * blockSize) =
      r'.allTokenIds.take (r.numTokens / blockSize * blockSize) := by
  have heq : r'.blockHashes ++ requestBlockHasher H blockSize r' = scratchHashes H blockSize r' := heq
  rw [hr, scratchHashes_eq_chain hbs, scratchHashes_eq_chain hbs] at heq
  have hle : r.numTokens / blockSize ≤ r'.numTokens / blockSize := by
    have hlen := congrArg length heq
    simp only [length_append, chain_length, length_map, length_range] at hlen
    omega
  have hpre := congrArg (take (r.numTokens / blockSize)) heq
  rw [take_append_of_le_length (by simp), chain_take, chain_take] at hpre
  have hinput := chain_injective (hashLink_right_inj hinj) none hpre
  rw [← map_take, ← map_take, take_range, take_range, min_self,
    min_eq_left hle, map_inj_left] at hinput
  exact (blocks_eq_iff_take_eq _).mp fun j hj ↦
    (h.blockInput_eq_iff j).mp (hinput j (mem_range.mpr hj))

end VllmEngine.Core.Request

import VllmEngine.Worker.BatchRows

namespace VllmEngine.Worker

open Lib Function Option BlockTable Columns CachedRequestState List

def Columns.maskAt (c : Columns) (i : ℕ) : ℕ → Bool :=
  c.allowedTokenIdsMask.getD (fun _ _ ↦ false) i

/-- A row stores a request: its tokens, scalars, blocks, LoRA id, generator, bad words, allowed
tokens and prompt embeddings. -/
structure RowHolds (vocabSize : ℕ) (c : Columns) (i : ℕ) (r : CachedRequestState) : Prop where
  promptTokens : ∀ tokens ∈ r.promptTokenIds, ∀ k < tokens.length, c.tokenIdsCpu i k = tokens.getD k 0
  outputTokens : ∀ k < r.outputTokenIds.length,
    c.tokenIdsCpu i (r.numPromptTokens + k) = r.outputTokenIds.getD k 0
  specTokens : c.specTokenIds i = []
  scalars : c.scalars i = r.scalars vocabSize
  blocks : ∀ g, (range ((c.blockTable g).numBlocksPerRow i)).map ((c.blockTable g).blockTable i) =
    mapToKernelBlocks (c.blockTable g).blocksPerKvBlock (r.blockIds.getD g [])
  lora : c.requestLoraMapping i = r.loraId.getD 0
  generator : c.generators i = r.generator
  badWords : c.badWordsTokenIds i = if r.samplingParams.badWordsTokenIds = [] then none
    else some r.samplingParams.badWordsTokenIds
  mask : ∀ tokenId, c.maskAt i tokenId = true ↔
    r.samplingParams.allowedTokenIds ≠ [] ∧ tokenId ∉ r.samplingParams.allowedTokenIds
  embeds : c.reqPromptEmbeds i = r.promptEmbeds

structure RowFrom (c : Columns) (i : ℕ) (c' : Columns) (j : ℕ) : Prop where
  tokens : ∀ k < c.activeTokenCount i, c'.tokenIdsCpu j k = c.tokenIdsCpu i k
  specTokens : c'.specTokenIds j = c.specTokenIds i
  scalars : c'.scalars j = c.scalars i
  numBlocks : ∀ g, (c'.blockTable g).numBlocksPerRow j = (c.blockTable g).numBlocksPerRow i
  blocks : ∀ g, ∀ k < (c.blockTable g).numBlocksPerRow i,
    (c'.blockTable g).blockTable j k = (c.blockTable g).blockTable i k
  blocksPerKvBlock : ∀ g, (c'.blockTable g).blocksPerKvBlock = (c.blockTable g).blocksPerKvBlock
  lora : c'.requestLoraMapping j = c.requestLoraMapping i
  generator : c'.generators j = c.generators i
  badWords : c'.badWordsTokenIds j = c.badWordsTokenIds i
  mask : c'.maskAt j = c.maskAt i
  embeds : c'.reqPromptEmbeds j = c.reqPromptEmbeds i

variable {vocabSize : ℕ} {c c' : Columns} {i j : ℕ} {r : CachedRequestState}

theorem RowHolds.activeTokenCount (h : RowHolds vocabSize c i r) :
    c.activeTokenCount i = r.numTokens := by
  rw [Columns.activeTokenCount, h.scalars, h.specTokens]
  rfl

theorem RowHolds.transfer (h : RowHolds vocabSize c i r) (hrow : RowFrom c i c' j) :
    RowHolds vocabSize c' j r := by
  have hactive := h.activeTokenCount
  refine ⟨fun tokens htokens k hk ↦ ?_, fun k hk ↦ ?_, hrow.specTokens.trans h.specTokens,
    hrow.scalars.trans h.scalars, fun g ↦ ?_, hrow.lora.trans h.lora, hrow.generator.trans h.generator,
    hrow.badWords.trans h.badWords, fun tokenId ↦ ?_, hrow.embeds.trans h.embeds⟩
  · have hprompt : r.numPromptTokens = tokens.length := by
      rw [numPromptTokens, mem_def.mp htokens]
    rw [hrow.tokens k (by rw [hactive, numTokens]; omega)]
    exact h.promptTokens tokens htokens k hk
  · rw [hrow.tokens _ (by rw [hactive, numTokens]; omega)]
    exact h.outputTokens k hk
  · rw [hrow.numBlocks, hrow.blocksPerKvBlock, ← h.blocks g]
    exact map_congr_left fun k hk ↦ hrow.blocks g k (mem_range.mp hk)
  · rw [hrow.mask]
    exact h.mask tokenId

/-- Nothing is left of a request that the next one would not overwrite, but for prompt embeddings
and masks. -/
structure Vacant (c : Columns) (i : ℕ) : Prop where
  generator : c.generators i = none
  badWords : c.badWordsTokenIds i = none

structure InStep (vocabSize : ℕ) (c : Columns) (rows : Rows) : Prop where
  occupied : ∀ i r, rows i = some r → RowHolds vocabSize c i r
  vacant : ∀ i, rows i = none → Vacant c i

theorem writeAt_of_lt {start k} (values) (row : ℕ → ℕ) (h : k < start) :
    writeAt start values row k = row k := if_neg (by omega)

theorem writeAt_add (start) {k values} (row : ℕ → ℕ) (h : k < values.length) :
    writeAt start values row (start + k) = values.getD k 0 := by
  simp [writeAt, getD_eq_getElem?_getD, h]

theorem RowFrom.of_same (htokens : c'.tokenIdsCpu j = c.tokenIdsCpu j)
    (hspec : c'.specTokenIds j = c.specTokenIds j) (hscalars : c'.scalars j = c.scalars j)
    (hblocks : ∀ g, (c'.blockTable g).numBlocksPerRow j = (c.blockTable g).numBlocksPerRow j ∧
      (c'.blockTable g).blockTable j = (c.blockTable g).blockTable j ∧
      (c'.blockTable g).blocksPerKvBlock = (c.blockTable g).blocksPerKvBlock)
    (hlora : c'.requestLoraMapping j = c.requestLoraMapping j)
    (hgenerator : c'.generators j = c.generators j)
    (hbadWords : c'.badWordsTokenIds j = c.badWordsTokenIds j) (hmask : c'.maskAt j = c.maskAt j)
    (hembeds : c'.reqPromptEmbeds j = c.reqPromptEmbeds j) : RowFrom c j c' j :=
  ⟨fun k _ ↦ by rw [htokens], hspec, hscalars, fun g ↦ (hblocks g).1, fun g k _ ↦ by rw [(hblocks g).2.1],
    fun g ↦ (hblocks g).2.2, hlora, hgenerator, hbadWords, hmask, hembeds⟩

theorem Columns.maskAt_map {f} (hf : f (fun _ _ ↦ false) = fun _ _ ↦ false)
    (h : c'.allowedTokenIdsMask = c.allowedTokenIdsMask.map f) (i) :
    c'.maskAt i = f (c.allowedTokenIdsMask.getD fun _ _ ↦ false) i := by
  rw [maskAt, h]
  cases c.allowedTokenIdsMask with
  | none => rw [map_none, getD_none, hf]
  | some mask => rfl

section

theorem addRow_blocks (t : BlockTable) (blockIds) (i) :
    (range ((t.addRow blockIds i).numBlocksPerRow i)).map ((t.addRow blockIds i).blockTable i) =
      mapToKernelBlocks t.blocksPerKvBlock blockIds := by
  have hnum : (t.addRow blockIds i).numBlocksPerRow i =
      (mapToKernelBlocks t.blocksPerKvBlock blockIds).length := by
    simp [addRow, appendRow]
  have htable : (t.addRow blockIds i).blockTable i =
      writeAt 0 (mapToKernelBlocks t.blocksPerKvBlock blockIds) (t.blockTable i) := by
    simp [addRow, appendRow]
  rw [hnum, htable]
  apply ext_getElem
  · simp
  intro k hk hk'
  have hwrite := writeAt_add 0 (t.blockTable i) hk'
  rw [Nat.zero_add, getD_eq_getElem?_getD, getElem?_eq_getElem hk', getD_some] at hwrite
  simpa using hwrite

theorem write_generators : (c.write vocabSize r i).generators =
    if r.generator = none then c.generators else update c.generators i r.generator := by
  unfold write
  cases r.generator <;> rfl

theorem write_reqPromptEmbeds : (c.write vocabSize r i).reqPromptEmbeds =
    if r.promptEmbeds = none then c.reqPromptEmbeds
    else update c.reqPromptEmbeds i r.promptEmbeds := by
  unfold write
  cases r.promptEmbeds <;> rfl

theorem write_maskAt :
    (c.write vocabSize r i).maskAt = if r.samplingParams.allowedTokenIds = [] then c.maskAt
    else update c.maskAt i fun tokenId ↦
      decide (tokenId ∉ r.samplingParams.allowedTokenIds) := by
  funext k
  unfold maskAt write
  by_cases hnil : r.samplingParams.allowedTokenIds = []
  · simp [hnil]
  · simp [hnil]

theorem RowFrom.write (hne : j ≠ i) : RowFrom c j (c.write vocabSize r i) j := by
  have hupd {α : Type} (f : ℕ → α) (a : α) : update f i a j = f j :=
    update_of_ne hne a f
  refine .of_same (hupd _ _) (hupd _ _) (hupd _ _) (fun g ↦ ⟨?_, hupd _ _, rfl⟩) (hupd _ _) ?_ ?_ ?_ ?_
  · exact (hupd _ _).trans (hupd _ _)
  · rw [write_generators]
    split
    · rfl
    · exact hupd _ _
  · unfold Columns.write
    dsimp only
    split
    · exact hupd _ _
    · rfl
  · rw [write_maskAt]
    split
    · rfl
    · exact hupd _ _
  · rw [write_reqPromptEmbeds]
    split
    · rfl
    · exact hupd _ _

theorem RowHolds.write (hvacant : Vacant c i)
    (hembeds : r.promptEmbeds = none → c.reqPromptEmbeds i = none)
    (hmask : r.samplingParams.allowedTokenIds = [] → ∀ tokenId, c.maskAt i tokenId = false) :
    RowHolds vocabSize (c.write vocabSize r i) i r := by
  have hupd {α : Type} (f : ℕ → α) (a : α) : update f i a i = a := update_self i a f
  refine ⟨fun tokens htokens k hk ↦ ?_, fun k hk ↦ ?_, hupd _ _, hupd _ _, fun g ↦ ?_, hupd _ _, ?_, ?_,
    fun tokenId ↦ ?_, ?_⟩
  · have hprompt : r.numPromptTokens = tokens.length := by
      rw [numPromptTokens, mem_def.mp htokens]
    change update c.tokenIdsCpu i _ i k = _
    rw [hupd, writeAt_of_lt _ _ (by omega), mem_def.mp htokens, getD_some]
    have hwrite := writeAt_add 0 (c.tokenIdsCpu i) hk
    rwa [Nat.zero_add] at hwrite
  · change update c.tokenIdsCpu i _ i _ = _
    rw [hupd]
    exact writeAt_add _ _ hk
  · exact addRow_blocks (c.blockTable g) (r.blockIds.getD g []) i
  · rw [write_generators]
    split
    next hnone => rw [hvacant.generator, hnone]
    · exact hupd _ _
  · unfold Columns.write
    by_cases hnil : r.samplingParams.badWordsTokenIds = []
    · rw [if_neg (not_not.mpr hnil), if_pos hnil]
      exact hvacant.badWords
    · rw [if_pos hnil, if_neg hnil]
      exact hupd _ _
  · rw [write_maskAt]
    split
    next hnil =>
      rw [hmask hnil tokenId]
      simp [hnil]
    next hne =>
      rw [hupd]
      simp [hne]
  · rw [write_reqPromptEmbeds]
    split
    next hnone => rw [hembeds hnone, hnone]
    · exact hupd _ _

end

section

theorem clear_maskAt : (c.clear i).maskAt = update c.maskAt i fun _ ↦ false := by
  funext k
  rw [maskAt_map (update_eq_self i _) rfl k]
  rfl

theorem RowFrom.clear (hne : j ≠ i) : RowFrom c j (c.clear i) j := by
  have hupd {α : Type} (f : ℕ → α) (a : α) : update f i a j = f j :=
    update_of_ne hne a f
  refine .of_same rfl (hupd _ _) rfl (fun g ↦ ⟨hupd _ _, hupd _ _, rfl⟩) (hupd _ _) (hupd _ _)
    (hupd _ _) ?_ rfl
  rw [clear_maskAt]
  exact hupd _ _

theorem Vacant.clear (c : Columns) (i) : Vacant (c.clear i) i :=
  ⟨update_self i _ _, update_self i _ _⟩

end

section

variable {source target : ℕ} {α : Type}

theorem moveEntry_of_ne (d : ℕ → Option α) (hs : j ≠ source) (ht : j ≠ target) :
    moveEntry source target d j = d j := by
  unfold moveEntry
  split
  · rfl
  · rw [update_of_ne ht, update_of_ne hs]

theorem moveEntry_target {d : ℕ → Option α} (h : d source = none → d target = none) :
    moveEntry source target d target = d source := by
  unfold moveEntry
  split
  next hnone =>
    have hnone := isNone_iff_eq_none.mp hnone
    rw [h hnone, hnone]
  · rw [update_self]

theorem moveEntry_source (d : ℕ → Option α) (hne : source ≠ target) :
    moveEntry source target d source = none := by
  unfold moveEntry
  split
  next hnone => exact isNone_iff_eq_none.mp hnone
  · rw [update_of_ne hne, update_self]

theorem move_maskAt : (c.move source target).maskAt = update c.maskAt target (c.maskAt source) := by
  funext k
  rw [maskAt_map (update_eq_self target _) rfl k]
  rfl

theorem RowFrom.move_of_ne (hs : j ≠ source) (ht : j ≠ target) :
    RowFrom c j (c.move source target) j := by
  have hupd {α : Type} (f : ℕ → α) (a : α) : update f target a j = f j :=
    update_of_ne ht a f
  refine .of_same (hupd _ _) ?_ (hupd _ _) (fun g ↦ ⟨hupd _ _, hupd _ _, rfl⟩) (hupd _ _)
    (moveEntry_of_ne _ hs ht) (moveEntry_of_ne _ hs ht) ?_ (moveEntry_of_ne _ hs ht)
  · exact (update_of_ne hs _ _).trans (hupd _ _)
  · rw [move_maskAt]
    exact hupd _ _

theorem RowFrom.move (hne : source ≠ target) (hvacant : Vacant c target)
    (hembeds : c.reqPromptEmbeds source = none → c.reqPromptEmbeds target = none) :
    RowFrom c source (c.move source target) target := by
  have hupd {α : Type} (f : ℕ → α) (a : α) : update f target a target = a :=
    update_self target a f
  refine ⟨fun k hk ↦ ?_, ?_, hupd _ _, fun g ↦ hupd _ _, fun g k hk ↦ ?_, fun g ↦ rfl, hupd _ _,
    moveEntry_target fun _ ↦ hvacant.generator, moveEntry_target fun _ ↦ hvacant.badWords, ?_,
    moveEntry_target hembeds⟩
  · change update c.tokenIdsCpu target _ target k = _
    rw [hupd]
    exact if_pos hk
  · change update (update c.specTokenIds target _) source [] target = _
    rw [update_of_ne hne.symm, hupd]
  · change update (c.blockTable g).blockTable target _ target k = _
    rw [hupd]
    exact if_pos hk
  · rw [move_maskAt, hupd]

theorem Vacant.move_source (hne : source ≠ target) : Vacant (c.move source target) source :=
  ⟨moveEntry_source _ hne, moveEntry_source _ hne⟩

end

section

variable {i1 i2 : ℕ}

theorem swapDictValues_eq {α : Type} (d : ℕ → Option α) : swapDictValues i1 i2 d = swapAt i1 i2 d := by
  rw [swapDictValues, update_update_swap d i2 i1]
  funext k
  rw [swapAt, swapAt, Equiv.swap_comm]

theorem swap_maskAt (hmask : c.maskAt i1 = c.maskAt i2) :
    (c.swap i1 i2).maskAt = swapAt i1 i2 c.maskAt := by
  funext k
  rw [maskAt_map (f := fun mask ↦ update (update mask i1 (mask i2)) i2
    (update mask i1 (mask i2) i1)) (by simp) rfl k, ← update_update_swap, update_self]
  change update (update c.maskAt i1 (c.maskAt i2)) i2 (c.maskAt i2) k = _
  rw [hmask]

theorem copyFirst_of_lt {α : Type} {n k} (source target : ℕ → α) (h : k < n) :
    copyFirst n source target k = source k := if_pos h

theorem RowFrom.swap (hmask : c.maskAt i1 = c.maskAt i2) (j) :
    RowFrom c (Equiv.swap i1 i2 j) (c.swap i1 i2) j := by
  refine ⟨fun k hk ↦ ?_, rfl, rfl, fun g ↦ rfl, fun g k _ ↦ rfl, fun g ↦ rfl, rfl,
    congrFun (swapDictValues_eq _) j, congrFun (swapDictValues_eq _) j, ?_,
    congrFun (swapDictValues_eq _) j⟩
  · change update (update c.tokenIdsCpu i1 _) i2 _ j k = _
    rw [update_apply, update_apply]
    rw [Equiv.swap_apply_def] at hk ⊢
    by_cases h1 : j = i1
    · subst h1
      simp only [if_true] at hk ⊢
      by_cases h2 : j = i2
      · subst h2
        rw [if_pos rfl, copyFirst_of_lt _ _ (lt_of_lt_of_le hk (le_max_left _ _))]
      · rw [if_neg h2, copyFirst_of_lt _ _ (lt_of_lt_of_le hk (le_max_right _ _))]
    · simp only [h1, if_false] at hk ⊢
      split at hk
      next h2 => rw [if_pos h2, if_pos h2, copyFirst_of_lt _ _ (lt_of_lt_of_le hk (le_max_left _ _))]
      next h2 => rw [if_neg h2, if_neg h2]
  · rw [swap_maskAt hmask]
    rfl

end

end VllmEngine.Worker

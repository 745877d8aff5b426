import VllmEngine.Core.HashChain

namespace VllmEngine.Core

open List ExtraKey

namespace ExtraKey

def isStr : ExtraKey → Bool
  | .str _ => true
  | .mm .. | .digest _ => false

def isMm : ExtraKey → Bool
  | .mm .. => true
  | .str _ | .digest _ => false

def isDigest : ExtraKey → Bool
  | .digest _ => true
  | .str _ | .mm .. => false

end ExtraKey

namespace Request

open Lib

variable {H : Hashing} {blockSize : ℕ} {r r1 r2 : Request} {i : ℕ}

def scratchHashes (H : Hashing) (blockSize : ℕ) (r : Request) : List BlockHash :=
  requestBlockHasher H blockSize { r with blockHashes := [] }

theorem scratchHashes_eq_chain (hbs : 0 < blockSize) : scratchHashes H blockSize r =
    chain (hashLink H) none
      ((range (r.numTokens / blockSize)).map (blockInput H blockSize r (.idx 0))) := by
  rw [scratchHashes, requestBlockHasher_eq_chain hbs, range_eq_range']
  rfl

theorem hashLink_right_inj (hinj : Function.Injective H.hashFunction) (prev)
    (x y : List ℕ × ExtraKeys) (h : hashLink H prev x = hashLink H prev y) : x = y := by
  have h := hinj h
  simp only [Prod.mk.injEq, true_and] at h
  exact Prod.ext h.1 h.2

theorem hashLink_inj (hH : H.CollisionFree) {b b' x y} (hb : b ≠ H.noneHash) (hb' : b' ≠ H.noneHash)
    (h : hashLink H (some b) x = hashLink H (some b') y) : b = b' ∧ x = y := by
  have h := hH.injective h
  simp only [Prod.mk.injEq] at h
  refine ⟨?_, Prod.ext h.2.1 h.2.2⟩
  have hparent := h.1
  split at hparent <;> split at hparent <;> simp_all

theorem scratchHashes_isSome (hbs : 0 < blockSize) :
    ((scratchHashes H blockSize r)[i]?).isSome = true ↔ (i + 1) * blockSize ≤ r.numTokens := by
  rw [scratchHashes_eq_chain hbs, isSome_getElem?, chain_length, length_map, length_range,
    ← Nat.le_div_iff_mul_le hbs, Nat.succ_le_iff]

theorem scratchHashes_eq_iff (hH : H.CollisionFree) (hbs : 0 < blockSize)
    (h1 : (i + 1) * blockSize ≤ r1.numTokens) (h2 : (i + 1) * blockSize ≤ r2.numTokens) :
    (scratchHashes H blockSize r1)[i]? = (scratchHashes H blockSize r2)[i]? ↔
      ∀ j ≤ i, blockInput H blockSize r1 (.idx 0) j = blockInput H blockSize r2 (.idx 0) j := by
  have hlen : ∀ r : Request, (i + 1) * blockSize ≤ r.numTokens → i + 1 ≤ r.numTokens / blockSize :=
    fun r h ↦ (Nat.le_div_iff_mul_le hbs).mpr h
  have htake : ((range (r1.numTokens / blockSize)).map
        (blockInput H blockSize r1 (.idx 0))).take (i + 1) =
      ((range (r2.numTokens / blockSize)).map (blockInput H blockSize r2 (.idx 0))).take (i + 1) ↔
      ∀ j ≤ i, blockInput H blockSize r1 (.idx 0) j = blockInput H blockSize r2 (.idx 0) j := by
    rw [← map_take, ← map_take, take_range, take_range,
      min_eq_left (hlen r1 h1), min_eq_left (hlen r2 h2), map_inj_left]
    simp only [mem_range, Nat.lt_succ_iff]
  rw [scratchHashes_eq_chain hbs, scratchHashes_eq_chain hbs, ← htake]
  constructor
  · intro h
    have hlt : i < (chain (hashLink H) none ((range (r1.numTokens / blockSize)).map
        (blockInput H blockSize r1 (.idx 0)))).length := by
      rw [chain_length, length_map, length_range]
      exact hlen r1 h1
    have hsome := getElem?_eq_getElem hlt
    have hvalue : ∀ prev x, hashLink H prev x ≠ H.noneHash := fun _ _ ↦ hH.ne_noneHash _
    exact chain_take_eq hvalue (hashLink_right_inj hH.injective none)
      (fun _ _ _ _ ↦ hashLink_inj hH) hsome (h ▸ hsome)
  · exact fun h ↦ chain_getElem?_of_take_eq none h

theorem blocks_eq_iff_take_eq {α : Type*} {l l' : List α} {n} (k : ℕ) :
    (∀ j < k, (l.drop (j * n)).take n = (l'.drop (j * n)).take n) ↔
      l.take (k * n) = l'.take (k * n) := by
  constructor
  · intro h
    induction k with
    | zero => simp
    | succ k ih =>
      rw [add_mul, one_mul, take_add, take_add, ih fun j hj ↦ h j (by omega),
        h k (Nat.lt_succ_self k)]
  · intro h j hj
    have hblock : ∀ l : List α, (l.drop (j * n)).take n = ((l.take (k * n)).drop (j * n)).take n := by
      intro l
      have hle : j * n + n ≤ k * n := by
        rw [← Nat.succ_mul]
        exact Nat.mul_le_mul_right n hj
      rw [drop_take, take_take, min_eq_left (by omega)]
    rw [hblock l, hblock l', h]

section

variable {l m s d l' m' s' d' : List ExtraKey}

structure KeyParts (l m s d : List ExtraKey) : Prop where
  lora : ∀ k ∈ l, k.isStr = true
  mm : ∀ k ∈ m, k.isMm = true
  salt : ∀ k ∈ s, k.isStr = true
  embeds : ∀ k ∈ d, k.isDigest = true

theorem KeyParts.filter (h : KeyParts l m s d) : (l ++ m ++ s ++ d).filter isMm = m ∧
      (l ++ m ++ s ++ d).filter isDigest = d ∧
      (l ++ m ++ s ++ d).filter isStr = l ++ s := by
  have hnone : ∀ {q : ExtraKey → Bool} {l : List ExtraKey}, (∀ k ∈ l, q k = false) →
      l.filter q = [] := fun h ↦ filter_eq_nil_iff.mpr fun k hk ↦ by simp [h k hk]
  have hall : ∀ {q : ExtraKey → Bool} {l : List ExtraKey}, (∀ k ∈ l, q k = true) →
      l.filter q = l := filter_eq_self.mpr
  have hstr : ∀ k : ExtraKey, k.isStr = true → k.isMm = false ∧ k.isDigest = false := by
    intro k; cases k <;> simp [isStr, isMm, isDigest]
  have hmm : ∀ k : ExtraKey, k.isMm = true → k.isStr = false ∧ k.isDigest = false := by
    intro k; cases k <;> simp [isStr, isMm, isDigest]
  have hdigest : ∀ k : ExtraKey, k.isDigest = true → k.isStr = false ∧ k.isMm = false := by
    intro k; cases k <;> simp [isStr, isMm, isDigest]
  simp only [filter_append]
  refine ⟨?_, ?_, ?_⟩
  · rw [hnone fun k hk ↦ (hstr k (h.lora k hk)).1, hall h.mm,
      hnone fun k hk ↦ (hstr k (h.salt k hk)).1, hnone fun k hk ↦ (hdigest k (h.embeds k hk)).2]
    simp
  · rw [hnone fun k hk ↦ (hstr k (h.lora k hk)).2, hnone fun k hk ↦ (hmm k (h.mm k hk)).2,
      hnone fun k hk ↦ (hstr k (h.salt k hk)).2, hall h.embeds]
    simp
  · rw [hall h.lora, hnone fun k hk ↦ (hmm k (h.mm k hk)).1, hall h.salt,
      hnone fun k hk ↦ (hdigest k (h.embeds k hk)).1]
    simp

/-- The flat tuple determines its multimodal and digest entries, and the strings up to the place of
the multimodal entries, if there are none. -/
theorem KeyParts.inj (h : KeyParts l m s d) (h' : KeyParts l' m' s' d')
    (heq : l ++ m ++ s ++ d = l' ++ m' ++ s' ++ d') :
    m = m' ∧ d = d' ∧ l ++ s = l' ++ s' ∧ (m ≠ [] → l = l') := by
  obtain ⟨hm, hd, hs⟩ := h.filter
  obtain ⟨hm', hd', hs'⟩ := h'.filter
  have hmm : m = m' := by rw [← hm, ← hm', heq]
  refine ⟨hmm, by rw [← hd, ← hd', heq], by rw [← hs, ← hs', heq], fun hne ↦ ?_⟩
  have hlead : ∀ {l m s d : List ExtraKey}, KeyParts l m s d → m ≠ [] →
      (l ++ m ++ s ++ d).takeWhile isStr = l := by
    intro l m s d h hne
    obtain ⟨k, rest, rfl⟩ := exists_cons_of_ne_nil hne
    have hk : k.isStr = false := by
      have := h.mm k (by simp)
      cases k <;> simp [isStr, isMm] at this ⊢
    rw [append_assoc, append_assoc, takeWhile_append_of_pos h.lora]
    simp [hk]
  rw [← hlead h hne, heq, hlead h' (hmm ▸ hne)]

end

def recorded (blockSize : ℕ) (r : Request) (j : ℕ) : List ExtraKey :=
  (genMmExtraHashKeys r (j * blockSize) (j * blockSize + blockSize) (.idx 0)).1

def embedKeys (H : Hashing) (blockSize : ℕ) (r : Request) (j : ℕ) : List ExtraKey :=
  genPromptEmbedsExtraHashKeys H r (j * blockSize) (j * blockSize + blockSize)

def loraName (r : Request) : Option String := r.loraRequest.map (·.loraName)

def featuresBefore (r : Request) (stop : ℕ) : List (String × ℕ) :=
  (r.mmFeatures.filter fun f ↦ f.start < stop ∧ 0 < f.stop).map fun f ↦ (f.identifier, f.start)

theorem mem_featuresBefore {stop x} : x ∈ featuresBefore r stop ↔
    ∃ f ∈ r.mmFeatures, f.start < stop ∧ 0 < f.stop ∧ x = (f.identifier, f.start) := by
  simp only [featuresBefore, mem_map, mem_filter, decide_eq_true_eq, and_assoc, eq_comm (b := x)]

variable {fs : List MultiModalFeatureSpec} {s e : ℕ}

theorem mem_mmLoop {n k} (hk : k ∈ (mmLoop s e n fs).1) :
    ∃ f ∈ fs, k = .mm f.identifier ((f.start : ℤ) - s) ∧ f.start < e ∧ s < f.stop := by
  induction fs generalizing n with
  | nil => simp [mmLoop] at hk
  | cons f fs ih =>
    have hrest : ∀ m, k ∈ (mmLoop s e m fs).1 → ∃ f' ∈ f :: fs,
        k = .mm f'.identifier ((f'.start : ℤ) - s) ∧ f'.start < e ∧ s < f'.stop := by
      intro m hm
      obtain ⟨f', hf', h⟩ := ih hm
      exact ⟨f', by simp [hf'], h⟩
    unfold mmLoop at hk
    split at hk
    next hstart =>
      split at hk
      · exact hrest _ hk
      next hstop =>
        have hhere : k = .mm f.identifier ((f.start : ℤ) - s) → ∃ f' ∈ f :: fs,
            k = .mm f'.identifier ((f'.start : ℤ) - s) ∧ f'.start < e ∧ s < f'.stop :=
          fun h ↦ ⟨f, by simp, h, hstart, by omega⟩
        split at hk
        · rcases mem_cons.mp hk with hk | hk
          exacts [hhere hk, hrest _ hk]
        · exact hhere (by simpa using hk)
    next => simp at hk

theorem mem_recorded {j k} (hk : k ∈ recorded blockSize r j) :
    ∃ f ∈ r.mmFeatures, k = .mm f.identifier ((f.start : ℤ) - (j * blockSize : ℕ)) ∧
      f.start < j * blockSize + blockSize ∧ j * blockSize < f.stop := by
  rw [recorded, genMmExtraHashKeys_eq] at hk
  split at hk
  · simp at hk
  · split at hk
    · simp at hk
    · exact mem_mmLoop hk

def Disjoint (fs : List MultiModalFeatureSpec) : Prop := fs.Pairwise fun f f' ↦ f.stop ≤ f'.start

def overlapKeys (s e : ℕ) (fs : List MultiModalFeatureSpec) : List ExtraKey :=
  (fs.filter fun f ↦ f.start < e ∧ s < f.stop).map fun f ↦ .mm f.identifier ((f.start : ℤ) - s)

theorem overlapKeys_eq_nil
    (h : ∀ f ∈ fs, ¬ (f.start < e ∧ s < f.stop)) : overlapKeys s e fs = [] := by
  rw [overlapKeys, filter_eq_nil_iff.mpr (by simpa using h), map_nil]

theorem mmLoop_of_disjoint (n) (h : Disjoint fs) :
    (mmLoop s e n fs).1 = overlapKeys s e fs := by
  induction fs generalizing n with
  | nil => rfl
  | cons f fs ih =>
    obtain ⟨hf, hfs⟩ := pairwise_cons.mp h
    have hle : f.start ≤ f.stop := Nat.le_add_right _ _
    rw [mmLoop]
    split
    next hstart =>
      split
      next hstop =>
        rw [ih _ hfs, overlapKeys, overlapKeys, filter_cons_of_neg (by simp; omega)]
      next hstop =>
        have hcons : overlapKeys s e (f :: fs) =
            .mm f.identifier ((f.start : ℤ) - s) :: overlapKeys s e fs := by
          rw [overlapKeys, filter_cons_of_pos (by simp; omega), map_cons, overlapKeys]
        rw [hcons]
        dsimp only
        split
        · rw [ih _ hfs]
        · rw [overlapKeys_eq_nil fun f' hf' ↦ by have := hf f' hf'; omega]
    next hstart =>
      refine (overlapKeys_eq_nil fun f' hf' ↦ ?_).symm
      rcases mem_cons.mp hf' with rfl | hf'
      · omega
      · have := hf f' hf'
        omega

theorem genMm_of_disjoint (h : Disjoint r.mmFeatures) (c) :
    (genMmExtraHashKeys r s e c).1 = overlapKeys s e (r.mmFeatures.drop (c.resolve r)) := by
  have hdrop : Disjoint (r.mmFeatures.drop (c.resolve r)) := h.sublist (drop_sublist _ _)
  rw [genMmExtraHashKeys_eq]
  split
  next hlast =>
    rw [getLast?_eq_none_iff.mp hlast, drop_nil]
    rfl
  next f hlast =>
    split
    next hstop =>
      refine (overlapKeys_eq_nil fun f' hf' ↦ ?_).symm
      have hf' := mem_of_mem_drop hf'
      obtain ⟨init, hinit⟩ := getLast?_eq_some_iff.mp hlast
      rw [Disjoint, hinit, pairwise_append] at h
      rw [hinit] at hf'
      have hle : f.start ≤ f.stop := Nat.le_add_right _ _
      rcases mem_append.mp hf' with hf' | hf'
      · have := h.2.2 f' hf' f (by simp)
        omega
      · obtain rfl : f' = f := by simpa using hf'
        omega
    next => exact mmLoop_of_disjoint _ hdrop

def keyList (H : Hashing) (blockSize : ℕ) (r : Request) (j : ℕ) : List ExtraKey :=
  genLoraExtraHashKeys r ++ recorded blockSize r j ++ cacheSaltKeys r (j * blockSize) ++
    embedKeys H blockSize r j

theorem keyList_parts (H) (blockSize) (r) (j) :
    KeyParts (genLoraExtraHashKeys r) (recorded blockSize r j) (cacheSaltKeys r (j * blockSize))
      (embedKeys H blockSize r j) where
  lora k hk := by
    unfold genLoraExtraHashKeys at hk
    split at hk <;> simp_all [isStr]
  mm k hk := by
    obtain ⟨f, -, rfl, -⟩ := mem_recorded hk
    rfl
  salt k hk := by
    unfold cacheSaltKeys at hk
    split at hk
    · simp at hk
    · split at hk <;> simp_all [isStr]
  embeds k hk := by
    unfold embedKeys genPromptEmbedsExtraHashKeys at hk
    split at hk <;> simp_all [isDigest]

theorem blockInput_eq_iff (j) :
    blockInput H blockSize r1 (.idx 0) j = blockInput H blockSize r2 (.idx 0) j ↔
      (r1.allTokenIds.drop (j * blockSize)).take blockSize =
          (r2.allTokenIds.drop (j * blockSize)).take blockSize ∧
        keyList H blockSize r1 j = keyList H blockSize r2 j := by
  have hkeys : ∀ r : Request, (blockInput H blockSize r (.idx 0) j).2 =
      if keyList H blockSize r j = [] then none else some (keyList H blockSize r j) := fun _ ↦ rfl
  rw [Prod.ext_iff, hkeys, hkeys]
  refine and_congr_right fun _ ↦ ?_
  split <;> split <;> simp_all

end Request

end VllmEngine.Core

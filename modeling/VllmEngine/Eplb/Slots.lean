import Mathlib.Algebra.Order.Ring.Int

namespace VllmEngine.Eplb

open List Function

/-- The slots of a GPU in one layer; layers have nothing to do with each other. A mask is the
list of the positions at which it is true. -/
structure LocalSlots (E : Type) where
  post : ℕ → E
  usedNewIndices : List ℕ
  preservedPositions : List ℕ

variable {E : Type}

section

variable [DecidableEq E] (old new : ℕ → E) (n : ℕ)

/-- A turn of the first pass. -/
def preserveSlot (s : LocalSlots E) (slotIdx : ℕ) : LocalSlots E :=
  match (range n).find? fun j ↦ new j = old slotIdx ∧ j ∉ s.usedNewIndices with
  | none => s
  | some j => {
      post := update s.post slotIdx (new j)
      usedNewIndices := j :: s.usedNewIndices
      preservedPositions := slotIdx :: s.preservedPositions }

/-- The positions that `np.argsort` puts first: those outside of the mask, by their index. -/
def unmarked (mask : List ℕ) : List ℕ := (range n).filter (· ∉ mask)

def assign (post : ℕ → E) (dst src : List ℕ) : ℕ → E :=
  (dst.zip src).foldl (fun post x ↦ update post x.1 (new x.2)) post

/-- The second pass. -/
def fillSlots (s : LocalSlots E) : ℕ → E :=
  let remaining := unmarked n s.usedNewIndices
  let fill := unmarked n s.preservedPositions
  let k := min remaining.length fill.length
  assign new s.post (fill.take k) (remaining.take k)

def reorderLocal : ℕ → E :=
  fillSlots new n ((range n).foldl (preserveSlot old new n) ⟨new, [], []⟩)

def reorderGpu (gpuIdx : ℕ) : ℕ → E :=
  reorderLocal (fun i ↦ old (gpuIdx * n + i)) (fun i ↦ new (gpuIdx * n + i)) n

def preserveIntragpuSlots (numPhyExperts : ℕ) (numRanks : ℤ) (phy2log oldPhy2log : ℕ → ℕ → E) :
    ℕ → ℕ → E :=
  if numRanks ≤ 0 ∨ numPhyExperts % numRanks ≠ 0 then phy2log
  else
    let slotsPerGpu := (numPhyExperts / numRanks).toNat
    fun layer ↦ (range numRanks.toNat).foldl (fun post gpuIdx ↦
      let start := gpuIdx * slotsPerGpu
      let newLocal := reorderGpu (oldPhy2log layer) (phy2log layer) slotsPerGpu gpuIdx
      fun p ↦ if start ≤ p ∧ p < start + slotsPerGpu then newLocal (p - start) else post p)
      (phy2log layer)

end

variable {old new post : ℕ → E} {n : ℕ} {mask : List ℕ}

theorem append_unmarked (hnodup : mask.Nodup) (hlt : ∀ i ∈ mask, i < n) :
    (mask ++ unmarked n mask).Perm (range n) := by
  have hperm : mask.Perm ((range n).filter (· ∈ mask)) := by
    apply (perm_ext_iff_of_nodup hnodup (nodup_range.filter _)).mpr
    intro i
    simpa using hlt i
  refine (hperm.append_right _).trans ?_
  simpa [unmarked] using filter_append_perm (· ∈ mask) (range n)

theorem assign_spec (new post : ℕ → E) {dst src} (hnodup : dst.Nodup)
    (hlen : dst.length = src.length) : dst.map (assign new post dst src) = src.map new ∧
      ∀ i ∉ dst, assign new post dst src i = post i := by
  induction dst generalizing src post with
  | nil =>
    obtain rfl := length_eq_zero_iff.mp hlen.symm
    exact ⟨rfl, fun _ _ ↦ rfl⟩
  | cons d dst ih =>
    cases src with
    | nil => cases hlen
    | cons j src =>
      rw [nodup_cons] at hnodup
      obtain ⟨hmap, hrest⟩ := ih (update post d (new j)) hnodup.2 (by simpa using hlen)
      refine ⟨?_, fun i hi ↦ ?_⟩
      · rw [map_cons, map_cons]
        exact congrArg₂ cons ((hrest d hnodup.1).trans (update_self ..)) hmap
      · rw [mem_cons, not_or] at hi
        exact (hrest i hi.2).trans (update_of_ne hi.1 ..)

theorem gpus_eq (rows : ℕ → ℕ → E) (row : ℕ → E) {gpu m i} (hgpu : gpu < m) (hi : i < n) :
    (range m).foldl (fun post g p ↦ if g * n ≤ p ∧ p < g * n + n then rows g (p - g * n) else post p)
      row (gpu * n + i) = rows gpu i := by
  induction m with
  | zero => cases hgpu
  | succ m ih =>
    rw [range_succ, foldl_append, foldl_cons, foldl_nil]
    rcases Nat.lt_succ_iff_lt_or_eq.mp hgpu with hlt | rfl
    · rw [if_neg, ih hlt]
      have := Nat.mul_le_mul_right n (Nat.succ_le_of_lt hlt)
      rw [Nat.succ_mul] at this
      omega
    · rw [if_pos (by omega), Nat.add_sub_cancel_left]

/-- After a number of turns of the first pass. -/
structure Matched (old new : ℕ → E) (n turns : ℕ) (s : LocalSlots E) : Prop where
  post : s.preservedPositions.map s.post = s.usedNewIndices.map new
  same : s.preservedPositions.map old = s.usedNewIndices.map new
  used_nodup : s.usedNewIndices.Nodup
  preserved_nodup : s.preservedPositions.Nodup
  used_lt : ∀ j ∈ s.usedNewIndices, j < n
  preserved_lt : ∀ i ∈ s.preservedPositions, i < turns
  maximal : ∀ i < turns, i ∉ s.preservedPositions → ∀ j < n, j ∉ s.usedNewIndices → new j ≠ old i

variable [DecidableEq E]

theorem Matched.step {s i} (h : Matched old new n i s) :
    Matched old new n (i + 1) (preserveSlot old new n s i) := by
  have hnew : i ∉ s.preservedPositions := fun hi ↦ lt_irrefl i (h.preserved_lt i hi)
  unfold preserveSlot
  split
  next hnone =>
    refine ⟨h.post, h.same, h.used_nodup, h.preserved_nodup, h.used_lt,
      fun i' hi' ↦ Nat.lt_succ_of_lt (h.preserved_lt i' hi'), fun i' hi' hp j hj hu ↦ ?_⟩
    rcases Nat.lt_succ_iff_lt_or_eq.mp hi' with hi' | rfl
    · exact h.maximal i' hi' hp j hj hu
    · simp only [find?_eq_none, mem_range, decide_eq_true_eq, not_and, not_not] at hnone
      exact fun he ↦ hu (hnone j hj he)
  next j hsome =>
    have hj := mem_range.mp (mem_of_find?_eq_some hsome)
    have hspec := find?_some hsome
    rw [decide_eq_true_eq] at hspec
    obtain ⟨he, hu⟩ := hspec
    have hkeep : s.preservedPositions.map (update s.post i (new j)) =
        s.preservedPositions.map s.post :=
      map_congr_left fun i' hi' ↦ update_of_ne (ne_of_mem_of_not_mem hi' hnew) ..
    refine ⟨?_, ?_, nodup_cons.mpr ⟨hu, h.used_nodup⟩, nodup_cons.mpr ⟨hnew, h.preserved_nodup⟩,
      ?_, ?_, fun i' hi' hp j' hj' hu' ↦ ?_⟩
    · exact congrArg₂ cons (update_self ..) (hkeep.trans h.post)
    · rw [map_cons, map_cons, h.same, he]
    · exact forall_mem_cons.mpr ⟨hj, h.used_lt⟩
    · exact forall_mem_cons.mpr ⟨Nat.lt_succ_self i,
        fun i' hi' ↦ Nat.lt_succ_of_lt (h.preserved_lt i' hi')⟩
    · rw [mem_cons, not_or] at hp hu'
      exact h.maximal i' (by omega) hp.2 j' hj' hu'.2

theorem firstPass_matched (old new : ℕ → E) (n turns) :
    Matched old new n turns ((range turns).foldl (preserveSlot old new n) ⟨new, [], []⟩) := by
  induction turns with
  | zero => exact ⟨rfl, rfl, nodup_nil, nodup_nil, by simp, by simp, by simp⟩
  | succ turns ih =>
    rw [range_succ, foldl_append]
    exact ih.step

theorem reorderLocal_spec (old new : ℕ → E) (n) :
    ((range n).map (reorderLocal old new n)).Perm ((range n).map new) ∧
      ∀ e, (range n).countP (fun i ↦ old i = e ∧ reorderLocal old new n i = e) =
        min (((range n).map old).count e) (((range n).map new).count e) := by
  have h := firstPass_matched old new n n
  unfold reorderLocal
  generalize (range n).foldl (preserveSlot old new n) ⟨new, [], []⟩ = s at h
  have hdst := append_unmarked h.preserved_nodup h.preserved_lt
  have hsrc := append_unmarked h.used_nodup h.used_lt
  unfold fillSlots
  generalize unmarked n s.preservedPositions = dst at hdst ⊢
  generalize unmarked n s.usedNewIndices = src at hsrc ⊢
  have hlen : dst.length = src.length := by
    have hkept := congrArg length h.post
    have := hdst.length_eq.trans hsrc.length_eq.symm
    simp only [length_append, length_map] at hkept this
    omega
  dsimp only
  rw [take_of_length_le (by omega), take_of_length_le (by omega)]
  have hnodup := nodup_append.mp (hdst.nodup_iff.mpr nodup_range)
  have hnodup' := nodup_append.mp (hsrc.nodup_iff.mpr nodup_range)
  obtain ⟨hmap, hrest⟩ := assign_spec new s.post hnodup.2.1 hlen
  generalize assign new s.post dst src = result at hmap hrest ⊢
  have hkept : s.preservedPositions.map result = s.usedNewIndices.map new :=
    (map_congr_left fun i hi ↦ hrest i fun hi' ↦ hnodup.2.2 i hi i hi' rfl).trans h.post
  have hapart : ∀ i ∈ dst, ∀ j ∈ src, new j ≠ old i := fun i hi j hj ↦
    h.maximal i (mem_range.mp (hdst.mem_iff.mp (mem_append_right _ hi)))
      (fun hi' ↦ hnodup.2.2 i hi' i hi rfl) j
      (mem_range.mp (hsrc.mem_iff.mp (mem_append_right _ hj))) fun hj' ↦ hnodup'.2.2 j hj' j hj rfl
  refine ⟨(hdst.map result).symm.trans ?_, fun e ↦ ?_⟩
  · rw [map_append, hkept, hmap, ← map_append]
    exact hsrc.map new
  have hpre : s.preservedPositions.countP (fun i ↦ old i = e ∧ result i = e) =
      (s.preservedPositions.map old).count e := by
    rw [count, countP_map]
    refine countP_congr fun i hi ↦ ?_
    have := map_inj_left.mp (hkept.trans h.same.symm) i hi
    simp [this]
  have hfill : dst.countP (fun i ↦ old i = e ∧ result i = e) = 0 := by
    refine countP_eq_zero.mpr fun i hi he ↦ ?_
    rw [decide_eq_true_eq] at he
    obtain ⟨j, hj, hji⟩ := mem_map.mp (hmap ▸ mem_map_of_mem hi)
    exact hapart i hi j hj (hji.trans (he.2.trans he.1.symm))
  have hzero : (dst.map old).count e = 0 ∨ (src.map new).count e = 0 := by
    by_contra hne
    rw [count_eq_zero, count_eq_zero, not_or, not_not, not_not] at hne
    obtain ⟨i, hi, hie⟩ := mem_map.mp hne.1
    obtain ⟨j, hj, hje⟩ := mem_map.mp hne.2
    exact hapart i hi j hj (hje.trans hie.symm)
  rw [← hdst.countP_eq, countP_append, hpre, hfill, ← (hdst.map old).count_eq,
    ← (hsrc.map new).count_eq, map_append, map_append, count_append, count_append, h.same]
  omega

/-- The experts of a GPU. -/
def onGpu (slots gpu : ℕ) (row : ℕ → E) : List E := (range slots).map fun i ↦ row (gpu * slots + i)

/-- Each GPU keeps its experts, and as many of them as possible keep a slot of theirs. -/
theorem preserveIntragpuSlots_maximal {numPhyExperts slots gpu : ℕ} {numRanks : ℤ}
    (hslots : numPhyExperts = numRanks * slots) (hgpu : gpu < numRanks)
    (phy2log oldPhy2log : ℕ → ℕ → E) (layer : ℕ) :
    (onGpu slots gpu (preserveIntragpuSlots numPhyExperts numRanks phy2log oldPhy2log layer)).Perm
        (onGpu slots gpu (phy2log layer)) ∧
      ∀ e, (range slots).countP (fun i ↦ oldPhy2log layer (gpu * slots + i) = e ∧
          preserveIntragpuSlots numPhyExperts numRanks phy2log oldPhy2log layer (gpu * slots + i) = e) =
        min ((onGpu slots gpu (oldPhy2log layer)).count e)
          ((onGpu slots gpu (phy2log layer)).count e) := by
  have hpost : ∀ i ∈ range slots, preserveIntragpuSlots numPhyExperts numRanks phy2log oldPhy2log
      layer (gpu * slots + i) = reorderGpu (oldPhy2log layer) (phy2log layer) slots gpu i := by
    intro i hi
    unfold preserveIntragpuSlots
    rw [hslots, if_neg (by simp; omega), Int.mul_ediv_cancel_left _ (by omega), Int.toNat_natCast]
    exact gpus_eq (reorderGpu _ _ slots) _ (by omega) (mem_range.mp hi)
  obtain ⟨hperm, hcount⟩ := reorderLocal_spec (fun i ↦ oldPhy2log layer (gpu * slots + i))
    (fun i ↦ phy2log layer (gpu * slots + i)) slots
  refine ⟨(map_congr_left hpost ▸ hperm :), fun e ↦ ?_⟩
  refine (countP_congr fun i hi ↦ ?_).trans (hcount e)
  rw [hpost i hi]
  rfl

/-- A GPU with the experts 7, 8 and 7 gets 9, 7 and 8: a slot goes on holding 7 and one 8. -/
theorem preserveIntragpuSlots_of_three_slots :
    let new := fun _ p ↦ [9, 7, 8, 5, 6, 5].getD p 0
    let old := fun _ p ↦ [7, 8, 7, 5, 5, 5].getD p 0
    ∀ e ∈ [7, 8], (range 3).countP (fun i ↦ old 0 (0 * 3 + i) = e ∧
      preserveIntragpuSlots 6 2 new old 0 (0 * 3 + i) = e) = 1 := by
  intro new old e he
  refine ((@preserveIntragpuSlots_maximal ℕ _ 6 3 0 2 rfl (by decide) new old 0).2 e).trans ?_
  revert e
  decide

end VllmEngine.Eplb

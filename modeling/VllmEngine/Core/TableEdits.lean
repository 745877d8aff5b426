import VllmEngine.Core.SingleTypeManager

namespace VllmEngine.Core.SingleTypeKVCacheManager

open Lib List

variable {null : Ref} {t t' removed : List Ref}

theorem count_set {i b c} (hi : t[i]? = some b) (hc : c ≠ null) :
    (t.set i null).count c + [b].count c = t.count c := by
  obtain ⟨hlt, hb⟩ := List.getElem?_eq_some_iff.mp hi
  have hpos : b = c → 0 < t.count c := fun hbc ↦
    count_pos_iff.mpr (hbc ▸ mem_of_getElem? hi)
  have hnull : (null == c) = false := by simpa using Ne.symm hc
  rw [List.count_set hlt, hb, hnull]
  by_cases hbc : b = c
  · have := hpos hbc
    simp only [hbc, beq_self_eq_true, if_true, count_singleton_self]
    simp
    omega
  · have hbc' : (b == c) = false := by simpa using hbc
    simp [count_cons, hbc']

theorem getElem?_set_of_ne {i j : ℕ} {c} (hc : c ≠ null) (hj : (t.set i null)[j]? = some c) :
    t[j]? = some c := by
  rw [getElem?_set] at hj
  split at hj
  · split at hj
    · exact absurd (Option.some.inj hj).symm hc
    · cases hj
  · exact hj

structure Pruned (null : Ref) (t removed t' : List Ref) : Prop where
  length : t'.length = t.length
  count : ∀ b, b ≠ null → t'.count b + removed.count b = t.count b
  get : ∀ (i : ℕ) (b : Ref), t'[i]? = some b → b = null ∨ t[i]? = some b
  mem : ∀ b ∈ removed, b ≠ null ∧ b ∈ t

theorem Pruned.refl (null) (t) : Pruned null t [] t :=
  ⟨rfl, by simp, fun _ _ h ↦ .inr h, by simp⟩

theorem Pruned.set {i : ℕ} {b} (hi : t[i]? = some b) (hb : b ≠ null) :
    Pruned null t [b] (t.set i null) where
  length := length_set
  count _ hc := count_set hi hc
  get j c hj := by
    by_cases hc : c = null
    · exact .inl hc
    · exact .inr (getElem?_set_of_ne hc hj)
  mem c hc := by
    obtain rfl := mem_singleton.mp hc
    exact ⟨hb, mem_of_getElem? hi⟩

theorem Pruned.trans {removed' t''} (h : Pruned null t removed t')
    (h' : Pruned null t' removed' t'') : Pruned null t (removed ++ removed') t'' where
  length := h'.length.trans h.length
  count b hb := by
    have := h.count b hb
    have := h'.count b hb
    rw [count_append]
    omega
  get i b hi := (h'.get i b hi).elim .inl (h.get i b)
  mem b hb := by
    rcases mem_append.mp hb with hb | hb
    · exact h.mem b hb
    · obtain ⟨hn, hm⟩ := h'.mem b hb
      obtain ⟨i, hi⟩ := mem_iff_getElem?.mp hm
      exact ⟨hn, mem_of_getElem? ((h.get i b hi).resolve_left hn)⟩

theorem removeLoop_pruned (null) (n) (t) :
    Pruned null t (removeLoop null n t).1 (removeLoop null n t).2 := by
  induction n generalizing t with
  | zero => exact .refl null t
  | succ n ih =>
    unfold removeLoop
    split
    · exact .refl null t
    next b hb =>
      split
      · exact .refl null t
      next hn => exact (Pruned.set hb hn).trans (ih (t.set n null))

structure Moved (null : Ref) (idxs : List ℕ) (t t' : List Ref) : Prop where
  count : ∀ b, b ≠ null → t'.count b = t.count b
  get : ∀ (i : ℕ) (b : Ref), t'[i]? = some b → b ≠ null → t[i]? = some b ∨ ∃ j ∈ idxs, t[j]? = some b

theorem Moved.refl (null) (idxs) (t) : Moved null idxs t t :=
  ⟨fun _ _ ↦ rfl, fun _ _ h _ ↦ .inl h⟩

variable {idxs : List ℕ}

theorem Moved.step {idx : ℕ} {b} (hb : t[idx]? = some b)
    (h : Moved null idxs ((t ++ [b]).set idx null) t') : Moved null (idx :: idxs) t t' := by
  have hlt := (List.getElem?_eq_some_iff.mp hb).1
  have hb' : (t ++ [b])[idx]? = some b := by rw [getElem?_append_left hlt, hb]
  have hfrom : ∀ (j : ℕ) (c : Ref), c ≠ null → ((t ++ [b]).set idx null)[j]? = some c →
      t[j]? = some c ∨ t[idx]? = some c := by
    intro j c hc hj
    have hj := getElem?_set_of_ne hc hj
    rw [getElem?_append] at hj
    split at hj
    · exact .inl hj
    · obtain rfl := mem_singleton.mp (mem_of_getElem? hj)
      exact .inr hb
  refine ⟨fun c hc ↦ ?_, fun i c hi hc ↦ ?_⟩
  · have := count_set hb' hc
    rw [count_append] at this
    rw [h.count c hc]
    omega
  · rcases h.get i c hi hc with hi | ⟨j, hj, hjc⟩
    · exact (hfrom i c hc hi).imp_right fun h ↦ ⟨idx, by simp, h⟩
    · rcases hfrom j c hc hjc with h | h
      · exact .inr ⟨j, by simp [hj], h⟩
      · exact .inr ⟨idx, by simp, h⟩

theorem reuseLoop_moved {skipped} (h : reuseLoop null skipped idxs t = .ok t') :
    Moved null idxs t t' := by
  induction idxs generalizing t with
  | nil =>
    obtain rfl : t = t' := by simpa [reuseLoop] using h
    exact .refl null [] t
  | cons idx idxs ih =>
    unfold reuseLoop at h
    split at h
    · split at h
      · cases h
      next b hb => exact (ih h).step hb
    · obtain rfl : t = t' := by simpa using h
      exact .refl null _ t

theorem reuseLoop_length {skipped a s} (h : reuseLoop null skipped (range' a s) t = .ok t') :
    t'.length = t.length + min s (skipped - a) := by
  induction s generalizing a t with
  | zero =>
    obtain rfl : t = t' := by simpa [reuseLoop] using h
    simp
  | succ s ih =>
    rw [range'_succ] at h
    unfold reuseLoop at h
    split at h
    · split at h
      · cases h
      · have := ih h
        simp only [length_set, length_append, length_singleton] at this
        omega
    · obtain rfl : t = t' := by simpa using h
      omega

theorem Moved.pad {n} (h : Moved null idxs (t ++ replicate n null) t') : Moved null idxs t t' := by
  have hfrom : ∀ (j : ℕ) (c : Ref), c ≠ null → (t ++ replicate n null)[j]? = some c →
      t[j]? = some c := by
    intro j c hc hj
    rw [getElem?_append] at hj
    split at hj
    · exact hj
    · exact absurd (eq_of_mem_replicate (mem_of_getElem? hj)) hc
  refine ⟨fun c hc ↦ ?_, fun i c hi hc ↦ ?_⟩
  · have hnull : null ≠ c := Ne.symm hc
    rw [h.count c hc, count_append, count_replicate]
    simp [hnull]
  · exact (h.get i c hi hc).imp (hfrom i c hc) fun ⟨j, hj, hjc⟩ ↦ ⟨j, hj, hfrom j c hc hjc⟩

theorem extendTable_allocated {required s} (hs : s ≤ t.length) (hlt : t.length < required)
    (h : extendTable null true t required s = .ok t') :
    Moved null (range' (t.length - s) s) t t' ∧ t'.length = required - 1 := by
  refine ⟨(reuseLoop_moved h).pad, ?_⟩
  have hlen := reuseLoop_length h
  simp only [length_append, length_replicate] at hlen
  omega

theorem extendTable_new {required s} (h : extendTable null false t required s = .ok t') :
    Moved null [] t t' ∧ t'.length = max t.length (required - s - 1) := by
  obtain rfl : t ++ replicate (required - s - 1 - t.length) null = t' := by
    simpa [extendTable] using h
  refine ⟨(Moved.refl null [] _).pad, ?_⟩
  simp only [length_append, length_replicate]
  omega

end VllmEngine.Core.SingleTypeKVCacheManager

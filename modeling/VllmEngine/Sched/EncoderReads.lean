import VllmEngine.Sched.EncoderInputs

namespace VllmEngine.Core

open List

namespace PlaceholderRange

variable {pos : PlaceholderRange}

def TakesEmbed (pos : PlaceholderRange) (k : ℕ) : Prop :=
  match pos.isEmbed with
  | none => True
  | some mask => mask[k]? = some true

instance (k : ℕ) : Decidable (pos.TakesEmbed k) := by
  unfold TakesEmbed
  split <;> infer_instance

theorem count_take_eq_iff {mask : List Bool} {a b} (hab : a ≤ b) :
    (mask.take a).count true = (mask.take b).count true ↔
      ∀ k, a ≤ k → k < b → ¬ mask[k]? = some true := by
  obtain ⟨d, rfl⟩ := Nat.exists_eq_add_of_le hab
  rw [take_add, count_append, left_eq_add, count_eq_zero, mem_iff_getElem?]
  constructor
  · intro h k hak hkb hk
    refine h ⟨k - a, ?_⟩
    rw [getElem?_take_of_lt (by omega), getElem?_drop, Nat.add_sub_cancel' hak, hk]
  rintro h ⟨j, hj⟩
  rw [getElem?_take] at hj
  split at hj
  · rw [getElem?_drop] at hj
    exact h (a + j) (by omega) (by omega) hj
  · cases hj

theorem embedsBefore_eq_iff {a b} (hab : a ≤ b) :
    pos.embedsBefore a = pos.embedsBefore b ↔ ∀ k, a ≤ k → k < b → ¬ pos.TakesEmbed k := by
  unfold embedsBefore TakesEmbed
  cases pos.isEmbed with
  | none =>
    constructor
    · intro h k hak hkb
      dsimp only at h
      omega
    · intro h
      by_contra hne
      exact h a le_rfl (by dsimp only at hne; omega) trivial
  | some mask => exact count_take_eq_iff hab

end PlaceholderRange

def MultiModalFeatureSpec.EmbedAt (f : MultiModalFeatureSpec) (p : ℕ) : Prop :=
  f.start ≤ p ∧ p < f.stop ∧ f.mmPosition.TakesEmbed (p - f.start)

instance (f : MultiModalFeatureSpec) (p : ℕ) : Decidable (f.EmbedAt p) := by
  unfold MultiModalFeatureSpec.EmbedAt
  infer_instance

end VllmEngine.Core

namespace VllmEngine.Sched

open VllmEngine.Core Lib List

/-- The feature has no embedding at the `n` positions from `c` on. -/
def Idle (c n : ℕ) (f : MultiModalFeatureSpec) : Prop := ∀ p, c ≤ p → p < c + n → ¬ f.EmbedAt p

theorem embedsIndices_eq_iff {f} {c n : ℕ} (hstop : c < f.stop) (hstart : f.start ≤ c + n) :
    (EncoderPlan.embedsIndices c n f).1 = (EncoderPlan.embedsIndices c n f).2 ↔ Idle c n f := by
  have hlen : f.stop = f.start + f.mmPosition.length := rfl
  have hend : (min (f.mmPosition.length : ℤ) (c + n - f.start)).toNat =
      min f.mmPosition.length (c + n - f.start) := by omega
  unfold EncoderPlan.embedsIndices PlaceholderRange.getEmbedsIndicesInRange
  rw [hend, PlaceholderRange.embedsBefore_eq_iff (by omega)]
  constructor
  · intro h p hcp hpn hp
    exact h (p - f.start) (by omega) (by have := hp.1; have := hp.2.1; omega) hp.2.2
  · intro h k hck hkn hk
    refine h (f.start + k) (by omega) (by omega) ⟨by omega, by omega, ?_⟩
    rwa [Nat.add_sub_cancel_left]

namespace Runner

inductive Error
  | emptyRange
  | encoderCacheMiss (mmHash : String)
  deriving DecidableEq

variable (encoderCache : String → Bool) (numComputedTokens numScheduledTokens : ℕ)

def embedsIndices (f : MultiModalFeatureSpec) : ℕ × ℕ :=
  f.mmPosition.getEmbedsIndicesInRange (numComputedTokens - f.start)
    (min (numComputedTokens + numScheduledTokens - f.start) f.mmPosition.length)

/-- The loop of `_gather_mm_embeddings` over the features: the encoder outputs that it reads, with
the part of each. The shift is in `numComputedTokens`. -/
def gatherMmEmbeddings :
    List MultiModalFeatureSpec → Except Error (List (MultiModalFeatureSpec × ℕ × ℕ))
  | [] => pure []
  | f :: fs => do
    if f.start ≥ numComputedTokens + numScheduledTokens then pure []
    else if f.stop ≤ numComputedTokens then gatherMmEmbeddings fs
    else if numComputedTokens - f.start ≥
        min (numComputedTokens + numScheduledTokens - f.start) f.mmPosition.length then
      throw .emptyRange
    else
      let idx := embedsIndices numComputedTokens numScheduledTokens f
      if idx.1 = idx.2 then gatherMmEmbeddings fs
      else if encoderCache f.identifier then
        let rest ← gatherMmEmbeddings fs
        pure ((f, idx) :: rest)
      else throw (.encoderCacheMiss f.identifier)

def readFeatures : List MultiModalFeatureSpec → List MultiModalFeatureSpec
  | [] => []
  | f :: fs =>
    if f.start ≥ numComputedTokens + numScheduledTokens then []
    else if f.stop ≤ numComputedTokens then readFeatures fs
    else
      let idx := embedsIndices numComputedTokens numScheduledTokens f
      if idx.1 = idx.2 then readFeatures fs else f :: readFeatures fs

variable {encoderCache numComputedTokens numScheduledTokens} {f : MultiModalFeatureSpec}

/-- What the loop returns is what it reads, all of it in the encoder cache. -/
theorem gatherMmEmbeddings_reads {c n fs out} (h : gatherMmEmbeddings encoderCache c n fs = .ok out) :
    readFeatures c n fs = out.map Prod.fst ∧ ∀ f ∈ readFeatures c n fs, encoderCache f.identifier := by
  induction fs generalizing out with
  | nil =>
    cases h
    exact ⟨rfl, nofun⟩
  | cons g fs ih =>
    unfold gatherMmEmbeddings at h
    unfold readFeatures
    dsimp only at h ⊢
    split_ifs at h ⊢ with hstart hstop hempty hidle hidle hcached
    · cases h
      exact ⟨rfl, nofun⟩
    · exact ih h
    · exact ih h
    · obtain ⟨rest, hrest, h⟩ := of_bind_eq_ok h
      cases h
      obtain ⟨hreads, hall⟩ := ih hrest
      exact ⟨congrArg (g :: ·) hreads, forall_mem_cons.mpr ⟨hcached, hall⟩⟩

theorem embedsIndices_eq_iff {c n : ℕ} (hstop : c < f.stop) (hstart : f.start ≤ c + n) :
    (embedsIndices c n f).1 = (embedsIndices c n f).2 ↔ Idle c n f := by
  rw [← Sched.embedsIndices_eq_iff hstop hstart]
  unfold embedsIndices EncoderPlan.embedsIndices
  rw [show (min (f.mmPosition.length : ℤ) (c + n - f.start)).toNat =
    min (c + n - f.start) f.mmPosition.length by omega]

/-- The runner reads the features with an embedding in the range of the step, up to the first that
starts behind it. -/
theorem mem_readFeatures {c n fs} : f ∈ readFeatures c n fs ↔
      f ∈ fs.takeWhile (fun g ↦ decide (g.start < c + n)) ∧ c < f.stop ∧ ¬ Idle c n f := by
  induction fs with
  | nil => simp [readFeatures]
  | cons g fs ih =>
    unfold readFeatures
    by_cases hstart : g.start ≥ c + n
    · rw [if_pos hstart, takeWhile_cons_of_neg (by simpa using hstart)]
      simp
    rw [if_neg hstart, takeWhile_cons_of_pos (by simpa using hstart), mem_cons]
    -- a feature that is not read is not the one in question
    have hskip : (g.stop ≤ c ∨ Idle c n g) →
        (f ∈ readFeatures c n fs ↔ (f = g ∨ f ∈ fs.takeWhile fun g ↦ decide (g.start < c + n)) ∧
          c < f.stop ∧ ¬ Idle c n f) := by
      intro hg
      rw [ih]
      refine and_congr_left fun ⟨hstop, hidle⟩ ↦ (or_iff_right ?_).symm
      rintro rfl
      exact hg.elim (fun h ↦ absurd hstop (not_lt.mpr h)) hidle
    split
    next hstop => exact hskip (.inl hstop)
    next hstop =>
    have hiff := embedsIndices_eq_iff (not_le.mp hstop) (by omega : g.start ≤ c + n)
    dsimp only
    split
    next hidx => exact hskip (.inr (hiff.mp hidx))
    next hidx =>
    rw [mem_cons, ih]
    constructor
    · rintro (rfl | ⟨hmem, hread⟩)
      · exact ⟨.inl rfl, not_le.mp hstop, hiff.not.mp hidx⟩
      · exact ⟨.inr hmem, hread⟩
    · rintro ⟨rfl | hmem, hread⟩
      · exact .inl rfl
      · exact .inr ⟨hmem, hread⟩

end Runner

end VllmEngine.Sched

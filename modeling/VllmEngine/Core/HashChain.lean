import VllmEngine.Core.Request
import VllmEngine.Lib.Chain

namespace VllmEngine.Core.Request

open Lib List

variable {H : Hashing} {blockSize : ℕ} {r : Request}

def blockInput (H : Hashing) (blockSize : ℕ) (r : Request) (cursor : MmCursor) (j : ℕ) :
    List ℕ × ExtraKeys :=
  ((r.allTokenIds.drop (j * blockSize)).take blockSize,
    (generateBlockHashExtraKeys H r (j * blockSize) (j * blockSize + blockSize) cursor).1)

def hashLink (H : Hashing) (prev : Option BlockHash) (input : List ℕ × ExtraKeys) : BlockHash :=
  hashBlockTokens H prev input.1 input.2

def MmCursor.resolve (r : Request) : MmCursor → ℕ
  | .last => r.mmFeatures.length - 1
  | .idx i => i

section

variable {s e : ℕ}

theorem mmLoop_append (hse : s < e) {pre post i} (hpre : ∀ f ∈ pre, f.stop ≤ s) :
    mmLoop s e i (pre ++ post) = mmLoop s e (i + pre.length) post := by
  induction pre generalizing i with
  | nil => rfl
  | cons f pre ih =>
    have hstop := hpre f (by simp)
    have hstart : f.start ≤ f.stop := Nat.le_add_right _ _
    rw [cons_append, mmLoop, if_pos (by omega), if_pos hstop,
      ih fun f' hf' ↦ hpre f' (by simp [hf']), length_cons]
    congr 1
    omega

theorem mmLoop_passed (hse : s ≤ e) (i) (fs) :
    ∃ pre post, fs = pre ++ post ∧ (mmLoop s e i fs).2 = i + pre.length ∧ ∀ f ∈ pre, f.stop ≤ e := by
  induction fs generalizing i with
  | nil => exact ⟨[], [], rfl, rfl, by simp⟩
  | cons f fs ih =>
    obtain ⟨pre, post, hfs, hidx, hpre⟩ := ih (i + 1)
    have hstep : f.stop ≤ e → ∃ pre post, f :: fs = pre ++ post ∧
        (mmLoop s e (i + 1) fs).2 = i + pre.length ∧ ∀ f ∈ pre, f.stop ≤ e := by
      intro hf
      refine ⟨f :: pre, post, by rw [hfs]; rfl, by rw [hidx, length_cons]; omega, ?_⟩
      intro g hg
      rcases mem_cons.mp hg with rfl | hg
      exacts [hf, hpre g hg]
    rw [mmLoop]
    split
    · split
      · exact hstep (by omega)
      · split
        · exact hstep (by assumption)
        · exact ⟨[], f :: fs, rfl, rfl, by simp⟩
    · exact ⟨[], f :: fs, rfl, rfl, by simp⟩

def Moved (r : Request) (s : ℕ) (c0 c : MmCursor) : Prop :=
  c = c0 ∨ ∃ pre post, r.mmFeatures.drop (c0.resolve r) = pre ++ post ∧
    c = .idx (c0.resolve r + pre.length) ∧ ∀ f ∈ pre, f.stop ≤ s

theorem genMmExtraHashKeys_eq (r) (s e) (c) : genMmExtraHashKeys r s e c =
      match r.mmFeatures.getLast? with
      | none => ([], c)
      | some lastFeature =>
        if lastFeature.stop ≤ s then ([], c)
        else
          let out := mmLoop s e (c.resolve r) (r.mmFeatures.drop (c.resolve r))
          (out.1, .idx out.2) := by
  cases c <;> rfl

theorem Moved.keys {c0 c} (h : Moved r s c0 c) (hse : s < e) :
    (genMmExtraHashKeys r s e c).1 = (genMmExtraHashKeys r s e c0).1 ∧
      Moved r e c0 (genMmExtraHashKeys r s e c).2 := by
  have hkeep : Moved r e c0 c := by
    rcases h with h | ⟨pre, post, hsplit, hc, hpre⟩
    · exact .inl h
    · exact .inr ⟨pre, post, hsplit, hc, fun f hf ↦ (hpre f hf).trans hse.le⟩
  -- the scan from `c` is the scan from `c0`
  have hscan : mmLoop s e (c.resolve r) (r.mmFeatures.drop (c.resolve r)) =
      mmLoop s e (c0.resolve r) (r.mmFeatures.drop (c0.resolve r)) := by
    rcases h with rfl | ⟨pre, post, hsplit, rfl, hpre⟩
    · rfl
    · rw [hsplit, mmLoop_append hse hpre, MmCursor.resolve, ← drop_drop, hsplit, drop_left]
  rw [genMmExtraHashKeys_eq, genMmExtraHashKeys_eq]
  cases hlast : r.mmFeatures.getLast? with
  | none => exact ⟨rfl, hkeep⟩
  | some f =>
    dsimp only
    split
    · exact ⟨rfl, hkeep⟩
    · obtain ⟨pre, post, hsplit, hidx, hpre⟩ :=
        mmLoop_passed hse.le (c0.resolve r) (r.mmFeatures.drop (c0.resolve r))
      exact ⟨by rw [hscan], .inr ⟨pre, post, hsplit, by rw [hscan, hidx], hpre⟩⟩

end

theorem generate_moved {s e c0 c} (h : Moved r s c0 c) (hse : s < e) :
    (generateBlockHashExtraKeys H r s e c).1 = (generateBlockHashExtraKeys H r s e c0).1 ∧
      Moved r e c0 (generateBlockHashExtraKeys H r s e c).2 := by
  obtain ⟨hkeys, hmoved⟩ := h.keys hse
  exact ⟨by simp only [generateBlockHashExtraKeys, hkeys], hmoved⟩

theorem hasherLoop_eq_chain (hbs : 0 < blockSize) {c0 c fuel k}
    (hfuel : r.numTokens / blockSize - k ≤ fuel) (hc : Moved r (k * blockSize) c0 c) (prev) :
    hasherLoop H blockSize r fuel (k * blockSize) c prev =
      chain (hashLink H) prev ((range' k (r.numTokens / blockSize - k)).map
        (blockInput H blockSize r c0)) := by
  induction fuel generalizing k c prev with
  | zero =>
    rw [Nat.le_zero.mp hfuel]
    rfl
  | succ fuel ih =>
    have hnext : k * blockSize + blockSize = (k + 1) * blockSize := (Nat.succ_mul _ _).symm
    rw [hasherLoop]
    dsimp only
    split
    next hend =>
      have hk : r.numTokens / blockSize ≤ k := by
        rw [hnext] at hend
        exact Nat.lt_succ_iff.mp ((Nat.div_lt_iff_lt_mul hbs).mpr hend)
      rw [Nat.sub_eq_zero_of_le hk]
      rfl
    next hend =>
      have hk : k + 1 ≤ r.numTokens / blockSize := by
        rw [Nat.le_div_iff_mul_le hbs, ← hnext]
        omega
      obtain ⟨hkeys, hmoved⟩ := generate_moved hc (Nat.lt_add_of_pos_right hbs)
      rw [show r.numTokens / blockSize - k = r.numTokens / blockSize - (k + 1) + 1 by omega,
        range'_succ, map_cons, chain, hnext, ih (by omega) (hnext ▸ hmoved), ← hnext, hkeys]
      rfl

theorem requestBlockHasher_eq_chain (hbs : 0 < blockSize) : requestBlockHasher H blockSize r =
      chain (hashLink H) r.blockHashes.getLast?
        ((range' r.blockHashes.length (r.numTokens / blockSize - r.blockHashes.length)).map
          (blockInput H blockSize r (if r.blockHashes.length = 0 then .idx 0 else .last))) := by
  unfold requestBlockHasher
  dsimp only
  have hcursor : (if r.blockHashes.length * blockSize > 0 then MmCursor.last else .idx 0) =
      if r.blockHashes.length = 0 then .idx 0 else .last := by
    rcases eq_zero_or_pos r.blockHashes.length with h | h
    · simp [h]
    · rw [if_pos (mul_pos h hbs), if_neg (by omega)]
  split
  next hend =>
    have hk : r.numTokens / blockSize ≤ r.blockHashes.length := by
      rw [← Nat.succ_mul] at hend
      exact Nat.lt_succ_iff.mp ((Nat.div_lt_iff_lt_mul hbs).mpr hend)
    rw [Nat.sub_eq_zero_of_le hk]
    rfl
  next =>
    rw [hcursor]
    exact hasherLoop_eq_chain hbs (by have := Nat.div_le_self r.numTokens blockSize; omega)
      (.inl rfl) _

end VllmEngine.Core.Request

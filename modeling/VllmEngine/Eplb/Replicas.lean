import Mathlib.Algebra.BigOperators.Fin
import Mathlib.Algebra.Order.BigOperators.Group.Finset
import Mathlib.Algebra.Order.Field.Rat

namespace VllmEngine.Eplb

open Function Finset

inductive EplbError
  | fewerPhysical
  | emptySequence
  deriving DecidableEq

/-- One layer of the result of `replicate_experts`. -/
structure Replicas (numLog : ℕ) where
  phy2log : ℕ → ℕ
  logcnt : Fin numLog → ℕ

section

variable {K : Type} [LinearOrder K] [Div K] [NatCast K] {numLog : ℕ} (weight : Fin numLog → K)

/-- One round of the loop: another replica for the first expert with the largest load per replica.
-/
def replicateStep (r : Replicas numLog) (i : ℕ) : Except EplbError (Replicas numLog) :=
  match (List.finRange numLog).argmax fun e ↦ weight e / r.logcnt e with
  | none => .error .emptySequence
  | some e => .ok ⟨update r.phy2log i e, update r.logcnt e (r.logcnt e + 1)⟩

def replicateExperts (numPhy : ℕ) : Except EplbError (Replicas numLog) :=
  if numPhy < numLog then .error .fewerPhysical
  else (List.range' numLog (numPhy - numLog)).foldlM (replicateStep weight) ⟨id, fun _ ↦ 1⟩

theorem replicateLoop_ok [NeZero numLog] (l : List ℕ) (r : Replicas numLog) :
    ∃ r', l.foldlM (replicateStep weight) r = .ok r' := by
  induction l generalizing r with
  | nil => exact ⟨r, rfl⟩
  | cons i l ih =>
    rw [List.foldlM_cons, replicateStep]
    split
    next hnone =>
      rw [List.argmax_eq_none, List.finRange_eq_nil_iff] at hnone
      exact absurd hnone (NeZero.ne numLog)
    next e he => exact ih _

end

section

variable {K : Type} [Field K] [LinearOrder K] [IsStrictOrderedRing K] {numLog numPhy : ℕ}
  {weight : Fin numLog → K} {r r' : Replicas numLog} {alt : Fin numLog → ℕ}

/-- The largest load of a replica. -/
def maxLoad (weight : Fin numLog → K) (logcnt : Fin numLog → ℕ) : WithBot K :=
  univ.sup fun e ↦ ((weight e / logcnt e : K) : WithBot K)

/-- A vector of replica counts for `numPhy` physical experts. -/
structure Counts (numPhy : ℕ) (logcnt : Fin numLog → ℕ) : Prop where
  pos : ∀ e, 1 ≤ logcnt e
  total : ∑ e, logcnt e = numPhy

/-- Without its last replica no expert would have less load than any expert has. -/
def Balanced (weight : Fin numLog → K) (logcnt : Fin numLog → ℕ) : Prop :=
  ∀ e f, 1 < logcnt f → weight e / logcnt e ≤ weight f / ((logcnt f - 1 : ℕ) : K)

section

variable (hweight : ∀ e, 0 ≤ weight e)

include hweight

theorem load_anti (e : Fin numLog) {a b : ℕ} (ha : 1 ≤ a) (hab : a ≤ b) :
    weight e / b ≤ weight e / a := by
  apply div_le_div_of_nonneg_left (hweight e)
  · exact_mod_cast ha
  · exact_mod_cast hab

theorem replicateStep_balanced {i : ℕ} (hr : Counts numPhy r.logcnt)
    (hbal : Balanced weight r.logcnt) (hstep : replicateStep weight r i = .ok r') :
    Counts (numPhy + 1) r'.logcnt ∧ Balanced weight r'.logcnt := by
  unfold replicateStep at hstep
  split at hstep
  · cases hstep
  next top htop =>
    cases hstep
    have hmax : ∀ e, weight e / r.logcnt e ≤ weight top / r.logcnt top := fun e ↦
      List.le_of_mem_argmax (List.mem_finRange e) htop
    have hle : ∀ e, r.logcnt e ≤ update r.logcnt top (r.logcnt top + 1) e := by
      intro e
      rw [update_apply]
      split
      next he => exact he ▸ Nat.le_succ _
      · exact le_rfl
    refine ⟨⟨fun e ↦ (hr.pos e).trans (hle e), ?_⟩, ?_⟩
    · rw [sum_update_of_mem (mem_univ top), ← hr.total,
        ← add_sum_erase _ _ (mem_univ top), sdiff_singleton_eq_erase]
      omega
    intro e f (hf : 1 < update r.logcnt top (r.logcnt top + 1) f)
    dsimp only
    -- the loads only fall, and the expert that has just been chosen had the largest one
    have hfall := load_anti hweight e (hr.pos e) (hle e)
    by_cases hft : f = top
    · subst hft
      rw [update_self, Nat.add_sub_cancel]
      exact hfall.trans (hmax e)
    · simp only [update_of_ne hft] at hf ⊢
      exact hfall.trans (hbal e f hf)

theorem replicateLoop_balanced (l : List ℕ) (hr : Counts numPhy r.logcnt)
    (hbal : Balanced weight r.logcnt) (hrun : l.foldlM (replicateStep weight) r = .ok r') :
    Counts (numPhy + l.length) r'.logcnt ∧ Balanced weight r'.logcnt := by
  induction l generalizing r numPhy with
  | nil =>
    cases hrun
    exact ⟨hr, hbal⟩
  | cons i l ih =>
    rw [List.foldlM_cons] at hrun
    cases hstep : replicateStep weight r i with
    | error =>
      rw [hstep] at hrun
      cases hrun
    | ok next =>
      rw [hstep] at hrun
      obtain ⟨hnext, hbal'⟩ := replicateStep_balanced hweight hr hbal hstep
      have := ih hnext hbal' hrun
      rwa [Nat.add_right_comm, Nat.add_assoc] at this

/-- The exchange argument: an expert with fewer replicas than in `alt` is paid for by one with more,
whose last replica went to a load of `alt`. -/
theorem Balanced.maxLoad_le (hr : Counts numPhy r.logcnt) (hbal : Balanced weight r.logcnt)
    (halt : Counts numPhy alt) : maxLoad weight r.logcnt ≤ maxLoad weight alt := by
  apply Finset.sup_le
  intro e _
  have hload : ∀ f, ((weight f / alt f : K) : WithBot K) ≤ maxLoad weight alt := fun f ↦
    le_sup (f := fun e ↦ ((weight e / alt e : K) : WithBot K)) (mem_univ f)
  by_cases he : alt e ≤ r.logcnt e
  · exact (WithBot.coe_le_coe.mpr (load_anti hweight e (halt.pos e) he)).trans (hload e)
  obtain ⟨f, hf⟩ : ∃ f, alt f < r.logcnt f := by
    by_contra hnone
    have hlt := sum_lt_sum (fun f _ ↦ not_lt.mp (not_exists.mp hnone f))
      ⟨e, mem_univ e, not_le.mp he⟩
    rw [hr.total, halt.total] at hlt
    exact lt_irrefl _ hlt
  have hpos := halt.pos f
  refine le_trans (WithBot.coe_le_coe.mpr ?_) (hload f)
  exact (hbal e f (by omega)).trans (load_anti hweight f hpos (by omega))

end

theorem Counts.le (h : Counts numPhy alt) : numLog ≤ numPhy := by
  rw [← h.total]
  simpa using sum_le_sum fun e (_ : e ∈ univ) ↦ h.pos e

/-- Among all vectors of replica counts, the counts chosen have the least largest load. -/
theorem replicateExperts_optimal (hweight : ∀ e, 0 ≤ weight e) (halt : Counts numPhy alt) :
    ∃ r, replicateExperts weight numPhy = .ok r ∧ Counts numPhy r.logcnt ∧
      maxLoad weight r.logcnt ≤ maxLoad weight alt := by
  have hle := halt.le
  obtain ⟨r, hr⟩ : ∃ r, replicateExperts weight numPhy = .ok r := by
    rw [replicateExperts, if_neg (by omega)]
    cases numLog with
    | zero =>
      have : numPhy = 0 := by simpa using halt.total.symm
      subst this
      exact ⟨_, rfl⟩
    | succ n => exact replicateLoop_ok weight _ _
  have hrun := hr
  rw [replicateExperts, if_neg (by omega)] at hrun
  have hstart : Counts numLog (fun _ : Fin numLog ↦ 1) := ⟨fun _ ↦ le_rfl, by simp⟩
  obtain ⟨hcounts, hbal⟩ := replicateLoop_balanced hweight _ hstart
    (fun _ _ hf ↦ absurd hf (lt_irrefl 1)) hrun
  rw [List.length_range', Nat.add_sub_cancel' hle] at hcounts
  exact ⟨r, hr, hcounts, hbal.maxLoad_le hweight hcounts halt⟩

end

def skewed : Fin 2 → ℚ := ![6, 1]

theorem replicateExperts_skewed :
    ∃ r, replicateExperts skewed 4 = .ok r ∧ (r.logcnt 0, r.logcnt 1) = (3, 1) ∧ Counts 4 r.logcnt ∧
      maxLoad skewed r.logcnt ≤ maxLoad skewed ![2, 2] := by
  have halt : Counts 4 ![2, 2] := ⟨by decide, by decide⟩
  obtain ⟨r, hr, hcounts, hle⟩ :=
    replicateExperts_optimal (show ∀ e, 0 ≤ skewed e by decide) halt
  have : (replicateExperts skewed 4).map (fun r ↦ (r.logcnt 0, r.logcnt 1)) = .ok (3, 1) := by
    decide +kernel
  rw [hr] at this
  exact ⟨r, hr, Except.ok.inj this, hcounts, hle⟩

end VllmEngine.Eplb

import VllmEngine.Worker.BudgetRows
import VllmEngine.Worker.BudgetCountdown
import VllmEngine.Worker.Sampling

namespace VllmEngine.Worker

open Lib ThinkingBudgetStateHolder List InputBatch Option

structure Bounded (b b' : InputBatch) : Prop where
  limit : b'.maxNumReqs = b.maxNumReqs
  length : b.reqIds.length ≤ b.maxNumReqs → b'.reqIds.length ≤ b.maxNumReqs

namespace Bounded

variable {b b' b'' : InputBatch}

theorem refl (b) : Bounded b b := ⟨rfl, id⟩

theorem trans (h : Bounded b b') (h' : Bounded b' b'') : Bounded b b'' :=
  ⟨h'.limit.trans h.limit, fun hlen ↦ h.limit ▸ h'.length (h.limit.symm ▸ h.length hlen)⟩

theorem foldlM {α : Type} {f : InputBatch → α → Except BatchError InputBatch}
    (hf : ∀ {b b' a}, f b a = .ok b' → Bounded b b') {l : List α} (hrun : l.foldlM f b = .ok b') :
    Bounded b b' := by
  induction l generalizing b with
  | nil =>
    obtain rfl := Except.ok.inj hrun
    exact .refl b
  | cons a l ih =>
    rw [foldlM_cons] at hrun
    obtain ⟨b1, hone, hrest⟩ := of_bind_eq_ok hrun
    exact (hf hone).trans (ih hrest)

theorem removeRequest {reqId} (hrun : b.removeRequest reqId = .ok b') : Bounded b b' := by
  unfold InputBatch.removeRequest at hrun
  split at hrun
  · cases hrun
    exact .refl b
  split at hrun
  · cases hrun
  · cases hrun
    exact ⟨rfl, fun hlen ↦ by rwa [length_set]⟩

theorem addRequest {r} (hrun : b.addRequest r = .ok b') : Bounded b b' := by
  obtain ⟨⟨reqIndex, b1⟩, hregister, hrest⟩ := of_bind_eq_ok hrun
  unfold registerAddRequest at hregister
  dsimp only at hregister
  split at hregister
  next hlt =>
    cases hregister
    cases hrest
    refine ⟨rfl, fun hlen ↦ ?_⟩
    split
    next heq =>
      rw [length_append, length_singleton, ← heq]
      exact hlt
    next => rwa [length_set]
  next => cases hregister

theorem condenseLoop {n} (hrun : condenseLoop n b = .ok b') : Bounded b b' := by
  induction n generalizing b with
  | zero =>
    obtain rfl := Except.ok.inj hrun
    exact .refl b
  | succ n ih =>
    unfold condenseLoop at hrun
    split at hrun
    · obtain rfl := Except.ok.inj hrun
      exact .refl b
    split at hrun
    · exact ih hrun
    split at hrun
    · obtain rfl := Except.ok.inj hrun
      exact .refl b
    split at hrun
    · cases hrun
    · refine Bounded.trans ?_ (ih hrun)
      refine ⟨rfl, fun hlen ↦ ?_⟩
      rw [moveDown, length_set, length_set]
      exact hlen

theorem condense (hrun : b.condense = .ok b') : Bounded b b' := by
  unfold InputBatch.condense at hrun
  dsimp only at hrun
  split at hrun
  · cases hrun
    exact ⟨rfl, id⟩
  split at hrun
  · cases hrun
    exact ⟨rfl, fun _ ↦ Nat.zero_le _⟩
  obtain ⟨b1, hloop, hrest⟩ := of_bind_eq_ok hrun
  cases hrest
  have hb := condenseLoop hloop
  refine ⟨hb.limit, fun hlen ↦ ?_⟩
  rw [length_take]
  exact (Nat.min_le_right _ _).trans (hb.length hlen)

theorem swapStates {i1 i2} (hrun : b.swapStates i1 i2 = .ok b') : Bounded b b' := by
  unfold InputBatch.swapStates at hrun
  split at hrun
  · cases hrun
    exact ⟨rfl, fun hlen ↦ by rwa [length_set, length_set]⟩
  · cases hrun

theorem run {step : WorkerStep} (hrun : step.run b = .ok b') : Bounded b b' := by
  obtain ⟨b1, hremove, hrun⟩ := of_bind_eq_ok hrun
  obtain ⟨b2, hadd, hrun⟩ := of_bind_eq_ok hrun
  obtain ⟨b3, hcondense, hswap⟩ := of_bind_eq_ok hrun
  exact ((foldlM removeRequest hremove).trans (foldlM addRequest hadd)).trans
    ((condense hcondense).trans (foldlM swapStates hswap))

end Bounded

section

variable {b : InputBatch} {rows : Rows} {requests : Requests}

def Rows.extend (rows : Rows) (tokens : ℕ → Option ℕ) : Rows :=
  fun i ↦ (rows i).map (·.extend (tokens i).toList)

theorem Open.bookkeep (hopen : Open b rows) (hbuilder : b.batchUpdateBuilder = {})
    (tokens : ℕ → Option ℕ) : Open (b.bookkeep tokens) (rows.extend tokens) := by
  have hids : ∀ i, (rows.extend tokens i).map (·.reqId) = (rows i).map (·.reqId) := by
    intro i
    rw [Rows.extend, Option.map_map]
    rfl
  have hbuilder' : (b.bookkeep tokens).batchUpdateBuilder = {} := hbuilder
  refine .intro (fun i ↦ (hopen.ids i).trans (hids i).symm) (fun i ↦ ?_) (fun id i ↦ ?_)
    (fun i hi ↦ ?_) ?_ hopen.size_eq ?_ hopen.sorted hopen.bound
  · have hout := hopen.outputs i
    rw [Rows.extend]
    change (b.reqOutputTokenIds.mapIdx _)[i]?.join = _
    rw [getElem?_mapIdx, Option.map_map]
    cases hget : b.reqOutputTokenIds[i]? with
    | none =>
      rw [hget] at hout
      cases hr : rows i with
      | none => rfl
      | some r =>
        rw [hr] at hout
        cases hout
    | some output =>
      rw [hget] at hout
      cases hr : rows i with
      | none =>
        rw [hr] at hout
        change output = none at hout
        rw [hout]
        rfl
      | some r =>
        rw [hr] at hout
        change output = some r.outputTokenIds at hout
        rw [hout]
        rfl
  · refine (hopen.index id i).trans ?_
    rw [← map_eq_some_iff, ← map_eq_some_iff, hids]
  · refine (hopen.removed i hi).trans ?_
    rw [Rows.extend, map_eq_none_iff]
  · rw [hbuilder']
    exact nodup_nil
  · change (b.reqOutputTokenIds.mapIdx _).length = _
    rw [length_mapIdx]
    exact hopen.length.2

theorem Known.bookkeep (hknown : Known requests rows) (hopen : Open b rows) (tokens : ℕ → Option ℕ) :
    Known (requests.extend b tokens) (rows.extend tokens) := by
  intro i r hr
  obtain ⟨r0, hr0, rfl⟩ := map_eq_some_iff.mp hr
  change (requests r0.reqId).map (·.extend ((b.reqIdToIndex.get? r0.reqId).bind tokens).toList) = _
  rw [hknown i r0 hr0, (hopen.index r0.reqId i).mpr ⟨r0, hr0, rfl⟩]
  rfl

end

section

variable {h : ThinkingBudgetStateHolder} {P : List ℕ} {budget : ℤ}

theorem forcing_of_plain {e} (hplain : Plain P budget e) :
    (h.forcing false e).2 = e ∧ ∀ w ∈ (h.forcing false e).1, w.1 = 0 ∧
      h.thinkEndTokenIds[e.endCount]? = some w.2 := by
  have heq : (if 0 < e.endCount then { e with bonusTokenForced := false } else e) = e := by
    split
    · rw [← hplain.bonus]
    · rfl
  unfold forcing
  split
  · exact ⟨rfl, fun w hw ↦ by cases hw⟩
  rw [if_neg (by simp)]
  simp only [Bool.false_eq_true, if_false]
  rw [heq]
  split
  · exact ⟨rfl, fun w hw ↦ by cases hw⟩
  split
  · exact ⟨rfl, fun w hw ↦ by cases hw⟩
  next token htoken =>
    refine ⟨rfl, fun w hw ↦ ?_⟩
    obtain ⟨i, hi, rfl⟩ := mem_map.mp hw
    exact ⟨hplain.force i hi, htoken⟩

variable {token : ℕ}

theorem forcing_of_ending {e} (hplain : Plain P budget e) (hending : e.inEnd = true)
    (hforce : e.forceIndex = [0]) (htoken : h.thinkEndTokenIds[e.endCount]? = some token) :
    (h.forcing false e).1 = [(0, token)] := by
  have heq : (if 0 < e.endCount then { e with bonusTokenForced := false } else e) = e := by
    split
    · rw [← hplain.bonus]
    · rfl
  unfold forcing
  rw [if_neg (not_not.mpr hending), if_neg (by simp)]
  simp only [Bool.false_eq_true, if_false]
  rw [heq, if_neg (by rw [hplain.bonus, hforce]; simp)]
  simp only [htoken]
  rw [hforce]
  rfl

theorem foldl_writes {i : ℕ} {writes : List (ℤ × ℕ)} {limit numRows} (forced : ℕ → Option ℕ)
    (hsame : ∀ w ∈ writes, ∃ j : ℕ, w.1 = j ∧ (j = i → w.2 = token)) (hlimit : (i : ℤ) < limit)
    (hrow : (i : ℤ) < numRows) (hsome : forced i = some token ∨ ∃ w ∈ writes, w.1 = i) :
    writes.foldl (fun (forced : ℕ → Option ℕ) w ↦ if w.1 < limit ∧ w.1 < numRows then
      Function.update forced w.1.toNat (some w.2) else forced) forced i = some token := by
  induction writes generalizing forced with
  | nil =>
    rcases hsome with hsome | ⟨w, hw, -⟩
    · exact hsome
    · cases hw
  | cons w writes ih =>
    obtain ⟨j, hj, hji⟩ := hsame w mem_cons_self
    refine ih _ (fun w' hw' ↦ hsame w' (mem_cons_of_mem w hw')) ?_
    dsimp only
    by_cases heq : j = i
    · subst heq
      left
      rw [if_pos (by rw [hj]; exact ⟨hlimit, hrow⟩), hj, Int.toNat_natCast, Function.update_self,
        hji rfl]
    · rcases hsome with hsome | ⟨w', hw', hwi⟩
      · left
        split
        · rw [hj, Int.toNat_natCast, Function.update_of_ne (Ne.symm heq)]
          exact hsome
        · exact hsome
      · rcases mem_cons.mp hw' with rfl | hw'
        · rw [hj] at hwi
          exact absurd (by exact_mod_cast hwi) heq
        · exact .inr ⟨w', hw', hwi⟩

theorem firstRow_eq (hspec : h.numSpecTokens = 0) (specTokenIds : List (List ℕ)) (i) :
    h.firstRow false specTokenIds i = i := by
  unfold firstRow inSpecMode
  simp [hspec]

theorem forcedTokens_eq {i numRows : ℕ} {specTokenIds : List (List ℕ)} {e}
    (hspec : h.numSpecTokens = 0)
    (hplain : ∀ j e, h.state.get? j = some e → ∃ P budget, Plain P budget e.toThinkState)
    (hget : h.state.get? i = some e) (hrow : i < numRows) (hlimit : i < h.maxNumReqs)
    (hending : e.inEnd = true) (hforce : e.forceIndex = [0])
    (htoken : h.thinkEndTokenIds[e.endCount]? = some token) :
    h.forcedTokens numRows false specTokenIds i = some token := by
  have hmem : ∀ j e, (j, e) ∈ h.state.entries.insertionSort (fun e e' ↦ e.1 ≤ e'.1) ↔
      h.state.get? j = some e := by
    intro j e
    rw [(perm_insertionSort _ _).mem_iff, Dict.get?_eq_some]
  refine foldl_writes _ (fun w hw ↦ ?_) (by rw [hspec]; simpa using hlimit) (by exact_mod_cast hrow)
    (.inr ?_)
  · obtain ⟨⟨j, e'⟩, he', hw⟩ := mem_flatMap.mp hw
    obtain ⟨w', hw', rfl⟩ := mem_map.mp hw
    have hget' := (hmem j e').mp he'
    obtain ⟨P, budget, hp⟩ := hplain j e' hget'
    obtain ⟨hzero, htoken'⟩ := (forcing_of_plain hp).2 w' hw'
    refine ⟨j, by rw [hzero, firstRow_eq hspec, add_zero], fun hj ↦ ?_⟩
    subst hj
    obtain rfl := some.inj (hget.symm.trans hget')
    exact some.inj (htoken'.symm.trans htoken)
  · obtain ⟨P, budget, hp⟩ := hplain i e hget
    refine ⟨((h.firstRow false specTokenIds i : ℤ) + 0, token), ?_, by rw [firstRow_eq hspec, add_zero]⟩
    refine mem_flatMap.mpr ⟨(i, e), (hmem i e).mpr hget, ?_⟩
    rw [forcing_of_ending hp hending hforce htoken]
    exact mem_singleton_self _

end

end VllmEngine.Worker

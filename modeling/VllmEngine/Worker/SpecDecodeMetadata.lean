import Mathlib.Algebra.GroupWithZero.Nat
import Mathlib.Data.List.Forall2

namespace VllmEngine.Worker

open List

/-- `np.cumsum`, from the sum `s` on. -/
def cumsum : ℕ → List ℕ → List ℕ
  | _, [] => []
  | s, n :: ns => (s + n) :: cumsum (s + n) ns

def npRepeat (values counts : List ℕ) : List ℕ :=
  (zipWith (fun v n ↦ replicate n v) values counts).flatten

/-- `none` for an empty array, which has no last sum. -/
def getCumsumAndArange (numTokens : List ℕ) : Option (List ℕ × List ℕ) :=
  let cuNumTokens := cumsum 0 numTokens
  cuNumTokens.getLast?.map fun totalNumTokens ↦
    let cumsumsOffsets := npRepeat (zipWith (· - ·) cuNumTokens numTokens) numTokens
    (cuNumTokens, zipWith (· - ·) (range totalNumTokens) cumsumsOffsets)

structure SpecDecodeMetadata (α : Type) where
  draftTokenIds : List α
  numDraftTokens : List ℕ
  cuNumDraftTokens : List ℕ
  cuNumSampledTokens : List ℕ
  targetLogitsIndices : List ℕ
  bonusLogitsIndices : List ℕ
  logitsIndices : List ℕ

variable {α : Type}

/-- `none` for an empty batch, or an index that is out of bounds. -/
def calcSpecDecodeMetadata (inputIds : ℕ → α) (numDraftTokens cuNumScheduledTokens : List ℕ) :
    Option (SpecDecodeMetadata α) := do
  let numSampledTokens := numDraftTokens.map (· + 1)
  let (cuNumSampledTokens, arange) ← getCumsumAndArange numSampledTokens
  let logitsIndices := zipWith (· + ·)
    (npRepeat (zipWith (· - ·) cuNumScheduledTokens numSampledTokens) numSampledTokens) arange
  let bonusLogitsIndices := cuNumSampledTokens.map (· - 1)
  let (cuNumDraftTokens, arange) ← getCumsumAndArange numDraftTokens
  let targetLogitsIndices := zipWith (· + ·)
    (npRepeat (zipWith (· - ·) cuNumSampledTokens numSampledTokens) numDraftTokens) arange
  let draftTokenIds := logitsIndices.map inputIds
  let draftTokenIds ← (targetLogitsIndices.map (· + 1)).mapM (draftTokenIds[·]?)
  some { draftTokenIds, numDraftTokens, cuNumDraftTokens, cuNumSampledTokens, targetLogitsIndices,
         bonusLogitsIndices, logitsIndices }

/-- A value for each draft of each request, by the end of the request, its number of drafts and the
draft's own. -/
def perDraft {β : Type} (f : ℕ → ℕ → ℕ → β) (ds ends : List ℕ) : List β :=
  (zipWith (fun d e ↦ (range d).map (f e d)) ds ends).flatten

/-- The last tokens of the requests that end at `ends`: one for each draft and one more. -/
def lastTokens (ds ends : List ℕ) : List ℕ :=
  (zipWith (fun d e ↦ range' (e - (d + 1)) (d + 1)) ds ends).flatten

/-- Where the rows of each request begin, if there are `s` rows before them. -/
def rowStarts (s : ℕ) (ns : List ℕ) : List ℕ := zipWith (· - ·) (cumsum s ns) ns

section

variable (s n : ℕ) (ns vs : List ℕ)

theorem rowStarts_cons : rowStarts s (n :: ns) = s :: rowStarts (s + n) ns := by
  simp [rowStarts, cumsum]

theorem length_cumsum : (cumsum s ns).length = ns.length := by
  induction ns generalizing s with
  | nil => rfl
  | cons n ns ih => simp [cumsum, ih]

theorem arange_eq : zipWith (· - ·) (range' s ns.sum) (npRepeat (rowStarts s ns) ns) =
    ns.flatMap range := by
  induction ns generalizing s with
  | nil => rfl
  | cons n ns ih =>
    rw [sum_cons, ← range'_append_1, rowStarts_cons, npRepeat, zipWith_cons_cons, flatten_cons,
      zipWith_append (by simp), ← npRepeat, ih, flatMap_cons]
    congr 1
    apply ext_getElem
    · simp
    · intro i hi _
      simp

theorem getLast?_cumsum (hne : ns ≠ []) : (cumsum s ns).getLast? = some (s + ns.sum) := by
  induction ns generalizing s with
  | nil => exact absurd rfl hne
  | cons n ns ih =>
    cases ns with
    | nil => rfl
    | cons n' ns =>
      rw [cumsum, cumsum, getLast?_cons_cons, ← cumsum, ih (s + n) (by simp), sum_cons (a := n),
        Nat.add_assoc]

theorem getCumsumAndArange_eq (hne : ns ≠ []) :
    getCumsumAndArange ns = some (cumsum 0 ns, ns.flatMap range) := by
  rw [getCumsumAndArange, getLast?_cumsum 0 ns hne, ← arange_eq 0 ns, Nat.zero_add, ← range_eq_range']
  rfl

theorem npRepeat_add_arange (hlen : vs.length = ns.length) :
    zipWith (· + ·) (npRepeat vs ns) (ns.flatMap range) = (zipWith range' vs ns).flatten := by
  induction vs generalizing ns with
  | nil => simp [npRepeat]
  | cons v vs ih =>
    cases ns with
    | nil => simp at hlen
    | cons n ns =>
      rw [npRepeat, zipWith_cons_cons, flatten_cons, flatMap_cons, zipWith_append (by simp),
        ← npRepeat, ih ns (by simpa using hlen), zipWith_cons_cons, flatten_cons]
      congr 1
      apply ext_getElem
      · simp
      · intro i hi _
        simp

end

theorem mapM_eq_some {β γ : Type} {f : β → Option γ} {l : List β} {l'} (h : l.map f = map some l') :
    l.mapM f = some l' := by
  induction l generalizing l' with
  | nil =>
    rw [map_eq_nil_iff.mp h.symm]
    rfl
  | cons b l ih =>
    cases l' with
    | nil => simp at h
    | cons c l' =>
      obtain ⟨hb, hl⟩ := cons.inj h
      rw [mapM_cons, hb, ih hl]
      rfl

theorem le_cumsum {ds ns} (h : Forall₂ (fun d n ↦ d + 1 ≤ n) ds ns) (s) :
    Forall₂ (fun d e ↦ d + 1 ≤ e) ds (cumsum s ns) := by
  induction h generalizing s with
  | nil => exact .nil
  | cons hd _ ih => exact .cons (by omega) (ih _)

section

variable {ds ends : List ℕ} (h : Forall₂ (fun d e ↦ d + 1 ≤ e) ds ends)

include h

theorem lastTokens_eq : (zipWith range' (zipWith (· - ·) ends (ds.map (· + 1)))
    (ds.map (· + 1))).flatten = lastTokens ds ends := by
  induction h with
  | nil => rfl
  | cons _ _ ih => simp only [lastTokens, map_cons, zipWith_cons_cons, flatten_cons, ih]

theorem rows_of_drafts {β : Type} {c} (hc : c ≤ 1) (g : ℕ → β) (front) :
    (zipWith range' (rowStarts front.length (ds.map (· + 1))) ds).flatten.map
        (fun k ↦ ((front ++ lastTokens ds ends).map g)[k + c]?) =
      (perDraft (fun e d j ↦ g (e - d - 1 + j + c)) ds ends).map some := by
  induction h generalizing front with
  | nil => rfl
  | @cons d e ds ends hd _ ih =>
    have hrest := ih (front ++ range' (e - (d + 1)) (d + 1))
    rw [length_append, length_range', append_assoc] at hrest
    simp only [map_cons, rowStarts_cons, zipWith_cons_cons, flatten_cons, map_append, lastTokens,
      perDraft] at hrest ⊢
    rw [hrest]
    congr 1
    apply ext_getElem
    · simp
    · intro j hj _
      rw [length_map, length_range'] at hj
      simp only [getElem_map, getElem_range', getElem_range, Nat.one_mul]
      rw [getElem?_append_right (by simp; omega), getElem?_append_left (by simp; omega), length_map,
        getElem?_map, getElem?_range' (by omega), Option.map_some]
      congr 2
      omega

theorem rows_of_bonus (front) :
    ((cumsum front.length (ds.map (· + 1))).map (· - 1)).map
      (fun k ↦ (front ++ lastTokens ds ends)[k]?) = ends.map fun e ↦ some (e - 1) := by
  induction h generalizing front with
  | nil => rfl
  | @cons d e ds ends hd _ ih =>
    have hrest := ih (front ++ range' (e - (d + 1)) (d + 1))
    rw [length_append, length_range', append_assoc] at hrest
    simp only [map_cons, cumsum, lastTokens, zipWith_cons_cons, flatten_cons] at hrest ⊢
    rw [hrest, getElem?_append_right (by omega), getElem?_append_left (by simp),
      getElem?_range' (by omega)]
    congr 2
    omega

end

/-- The rows that `_calc_spec_decode_metadata` gathers are the last tokens of each request; the
targets, the bonus token and the drafts are found there. -/
theorem calcSpecDecodeMetadata_selects (inputIds : ℕ → α) {ds ns : List ℕ} (hne : ds ≠ [])
    (h : Forall₂ (fun d n ↦ d + 1 ≤ n) ds ns) :
    ∃ m, calcSpecDecodeMetadata inputIds ds (cumsum 0 ns) = some m ∧
      m.logitsIndices = lastTokens ds (cumsum 0 ns) ∧
      m.targetLogitsIndices.map (m.logitsIndices[·]?) =
        (perDraft (fun e d j ↦ e - d - 1 + j) ds (cumsum 0 ns)).map some ∧
      m.bonusLogitsIndices.map (m.logitsIndices[·]?) = (cumsum 0 ns).map (fun e ↦ some (e - 1)) ∧
      m.draftTokenIds = perDraft (fun e d j ↦ inputIds (e - d - 1 + j + 1)) ds (cumsum 0 ns) := by
  have hends := le_cumsum h 0
  have htargets := rows_of_drafts hends (Nat.zero_le 1) id []
  have hdrafts := rows_of_drafts hends (Nat.le_refl 1) inputIds []
  have hbonus := rows_of_bonus hends []
  simp only [length_nil, nil_append, Nat.add_zero, map_id, id] at htargets hdrafts hbonus
  have hlogits := npRepeat_add_arange (ds.map (· + 1)) (zipWith (· - ·) (cumsum 0 ns) (ds.map (· + 1)))
    (by simp [length_cumsum, h.length_eq])
  rw [lastTokens_eq hends] at hlogits
  have hrows := npRepeat_add_arange ds (rowStarts 0 (ds.map (· + 1))) (by simp [rowStarts, length_cumsum])
  refine ⟨⟨_, ds, cumsum 0 ds, cumsum 0 (ds.map (· + 1)), _, _, _⟩, ?_, rfl, htargets, hbonus, rfl⟩
  simp only [calcSpecDecodeMetadata, getCumsumAndArange_eq ds hne,
    getCumsumAndArange_eq _ (map_eq_nil_iff.not.mpr hne), Option.bind_eq_bind, Option.bind_some, hlogits,
    ← rowStarts.eq_def, hrows, mapM_map, Function.comp_def, mapM_eq_some hdrafts]
  rfl

theorem calcSpecDecodeMetadata_of_five_requests :
    ∃ m, calcSpecDecodeMetadata id [3, 0, 2, 0, 1] [4, 104, 107, 207, 209] = some m ∧
      m.draftTokenIds = [1, 2, 3, 105, 106, 208] ∧
      m.bonusLogitsIndices.map (m.logitsIndices[·]?) =
        [some 3, some 103, some 106, some 206, some 208] := by
  obtain ⟨m, hm, -, -, hbonus, hdrafts⟩ := calcSpecDecodeMetadata_selects id
    (show [3, 0, 2, 0, 1] ≠ [] by simp)
    (show Forall₂ (fun d n ↦ d + 1 ≤ n) [3, 0, 2, 0, 1] [4, 100, 3, 100, 2] by simp)
  exact ⟨m, hm, hdrafts, hbonus⟩

end VllmEngine.Worker

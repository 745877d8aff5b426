import VllmEngine.Worker.BatchRows

namespace VllmEngine.Worker

open Lib Function InputBatch

abbrev Requests := String → Option CachedRequestState

def Requests.add (requests : Requests) (additions : List CachedRequestState) : Requests :=
  additions.foldl (fun requests r ↦ update requests r.reqId (some r)) requests

def Known (requests : Requests) (rows : Rows) : Prop :=
  ∀ i r, rows i = some r → requests r.reqId = some r

/-- What is asked of the operations of a step, in the state in which each is called. -/
structure Guards where
  add : InputBatch → CachedRequestState → Prop := fun _ _ ↦ True
  condense : Requests → InputBatch → Prop := fun _ _ ↦ True
  swap : Requests → InputBatch → ℕ × ℕ → Prop := fun _ _ _ ↦ True

namespace Guards

variable (g : Guards)

def AddsMeet : List CachedRequestState → InputBatch → Prop
  | [], _ => True
  | r :: additions, b => (b.reqIdToIndex.get? r.reqId = none ∧ g.add b r) ∧
      ∀ b', b.addRequest r = .ok b' → AddsMeet additions b'

def SwapsMeet (requests : Requests) : List (ℕ × ℕ) → InputBatch → Prop
  | [], _ => True
  | swap :: swaps, b => g.swap requests b swap ∧
      ∀ b', b.swapStates swap.1 swap.2 = .ok b' → SwapsMeet requests swaps b'

def Meets (requests : Requests) (b : InputBatch) (step : WorkerStep) : Prop :=
  ∀ b1, step.removals.foldlM removeRequest b = .ok b1 → g.AddsMeet step.additions b1 ∧
    ∀ b2, step.additions.foldlM addRequest b1 = .ok b2 →
      g.condense (requests.add step.additions) b2 ∧
      ∀ b3, b2.condense = .ok b3 → g.SwapsMeet (requests.add step.additions) step.swaps b3

theorem Meets.intro {g : Guards} {requests b b1 b2 b3 step}
    (h1 : step.removals.foldlM removeRequest b = .ok b1) (hadds : g.AddsMeet step.additions b1)
    (h2 : step.additions.foldlM addRequest b1 = .ok b2)
    (hcondense : g.condense (requests.add step.additions) b2) (h3 : b2.condense = .ok b3)
    (hswaps : g.SwapsMeet (requests.add step.additions) step.swaps b3) : g.Meets requests b step := by
  intro b1' h1'
  obtain rfl := Except.ok.inj (h1.symm.trans h1')
  refine ⟨hadds, fun b2' h2' ↦ ?_⟩
  obtain rfl := Except.ok.inj (h2.symm.trans h2')
  refine ⟨hcondense, fun b3' h3' ↦ ?_⟩
  obtain rfl := Except.ok.inj (h3.symm.trans h3')
  exact hswaps

end Guards

/-- What a step keeps: `I` holds while requests are removed, `J` while they are added, `M` while
`condense` moves them, then `P`. -/
structure StepRule (g : Guards) (I J M P : Requests → InputBatch → Rows → Prop) : Prop where
  remove : ∀ {requests b rows i b'}, Removes b rows i b' → I requests b rows →
    I requests b' (update rows i none)
  removed : ∀ {requests b rows}, I requests b rows → J requests b rows
  add : ∀ {requests b rows r b'}, Adds b rows r b' → g.add b r → J requests b rows →
    J (update requests r.reqId (some r)) b' (update rows b.nextRow (some r))
  condense : ∀ {requests b rows}, Open b rows → Known requests rows → g.condense requests b →
    J requests b rows →
    M requests { b with batchUpdateBuilder := b.batchUpdateBuilder.ensureRemovedSorted } rows
  move : ∀ {requests b rows source target b' rows'}, MovesDown b rows source target b' rows' →
    M requests b rows → M requests b' rows'
  condensed : ∀ {requests b rows b'}, b'.toColumns = b.toColumns → b'.vocabSize = b.vocabSize →
    b'.batchUpdateBuilder = b.batchUpdateBuilder → M requests b rows → P requests b' rows
  swap : ∀ {requests b rows i1 i2 b'}, Packed b rows → Known requests rows → Swaps b rows i1 i2 b' →
    g.swap requests b (i1, i2) → P requests b rows → P requests b' (swapAt i1 i2 rows)

section

variable {b b' : InputBatch} {requests : Requests} {rows rows' : Rows}

theorem Known.of_subset (h : Known requests rows)
    (hsub : ∀ j r, rows' j = some r → ∃ k, rows k = some r) : Known requests rows' := by
  intro j r hr
  obtain ⟨k, hk⟩ := hsub j r hr
  exact h k r hk

theorem Known.remove (h : Known requests rows) (i) : Known requests (update rows i none) := by
  refine h.of_subset fun j r hr ↦ ?_
  rw [update_apply] at hr
  split at hr
  · cases hr
  · exact ⟨j, hr⟩

theorem Known.add {r} (h : Known requests rows)
    (hnew : ∀ i r', rows i = some r' → r'.reqId ≠ r.reqId) (i) :
    Known (update requests r.reqId (some r)) (update rows i (some r)) := by
  intro j r' hr'
  rw [update_apply] at hr' ⊢
  split at hr'
  · cases hr'
    exact if_pos rfl
  · rw [if_neg (hnew j r' hr')]
    exact h j r' hr'

theorem Known.moves (hmoves : Moves b rows b' rows') (h : Known requests rows) :
    Known requests rows' := by
  induction hmoves with
  | refl => exact h
  | @move _ _ _ _ source target _ hmove ih =>
    refine ih.of_subset fun j r hr ↦ ?_
    rw [hmove.rows_eq, Rows.move, update_apply, update_apply] at hr
    split at hr
    · cases hr
    · split at hr
      · exact ⟨source, hr⟩
      · exact ⟨j, hr⟩

end

namespace StepRule

variable {g : Guards} {I J M P : Requests → InputBatch → Rows → Prop}
variable {b b' : InputBatch} {requests : Requests} {rows : Rows}

section

variable (rule : StepRule g I J M P)

include rule

theorem removals {removals : List String} (hopen : Open b rows) (hknown : Known requests rows)
    (h : I requests b rows) (hrun : removals.foldlM removeRequest b = .ok b') :
    ∃ rows', Open b' rows' ∧ Known requests rows' ∧ I requests b' rows' := by
  induction removals generalizing b rows with
  | nil =>
    cases hrun
    exact ⟨rows, hopen, hknown, h⟩
  | cons reqId removals ih =>
    rw [List.foldlM_cons] at hrun
    obtain ⟨b1, hone, hrest⟩ := of_bind_eq_ok hrun
    rcases removeRequest_spec hopen hone with rfl | ⟨i, hremoves, hopen'⟩
    · exact ih hopen hknown h hrest
    · exact ih hopen' (hknown.remove i) (rule.remove hremoves h) hrest

theorem additions {additions}
    (hopen : Open b rows) (hknown : Known requests rows) (h : J requests b rows)
    (hmeets : g.AddsMeet additions b) (hrun : additions.foldlM addRequest b = .ok b') :
    ∃ rows', Open b' rows' ∧ Known (requests.add additions) rows' ∧
      J (requests.add additions) b' rows' := by
  induction additions generalizing b rows requests with
  | nil =>
    cases hrun
    exact ⟨rows, hopen, hknown, h⟩
  | cons r additions ih =>
    rw [List.foldlM_cons] at hrun
    obtain ⟨b1, hone, hrest⟩ := of_bind_eq_ok hrun
    obtain ⟨⟨hget, hadd⟩, hmeets⟩ := hmeets
    have hnew : ∀ i r', rows i = some r' → r'.reqId ≠ r.reqId := by
      intro i r' hr' hid
      rw [(hopen.index r.reqId i).mpr ⟨r', hr', hid⟩] at hget
      cases hget
    obtain ⟨hadds, hopen'⟩ := addRequest_spec hopen hnew hone
    exact ih hopen' (hknown.add hnew _) (rule.add hadds hadd h) (hmeets b1 hone) hrest

theorem moves {rows'} (hmoves : Moves b rows b' rows')
    (h : M requests b rows) : M requests b' rows' := by
  induction hmoves with
  | refl => exact h
  | move _ hmove ih => exact rule.move hmove ih

theorem swaps {swaps} (hpacked : Packed b rows)
    (hknown : Known requests rows) (h : P requests b rows) (hmeets : g.SwapsMeet requests swaps b)
    (hrun : swaps.foldlM (fun b swap ↦ b.swapStates swap.1 swap.2) b = .ok b') :
    ∃ rows', Packed b' rows' ∧ Known requests rows' ∧ P requests b' rows' := by
  induction swaps generalizing b rows with
  | nil =>
    cases hrun
    exact ⟨rows, hpacked, hknown, h⟩
  | cons swap swaps ih =>
    rw [List.foldlM_cons] at hrun
    obtain ⟨b1, hone, hrest⟩ := of_bind_eq_ok hrun
    obtain ⟨hswaps, hpacked'⟩ := swapStates_spec hpacked hone
    exact ih hpacked' (hknown.of_subset fun j r hr ↦ ⟨_, hr⟩)
      (rule.swap hpacked hknown hswaps hmeets.1 h) (hmeets.2 b1 hone) hrest

theorem run {step} (hopen : Open b rows) (hknown : Known requests rows) (h : I requests b rows)
    (hmeets : g.Meets requests b step) (hrun : step.run b = .ok b') :
    ∃ rows', Packed b' rows' ∧ Known (requests.add step.additions) rows' ∧
      P (requests.add step.additions) b' rows' := by
  obtain ⟨b1, hremove, hrun⟩ := of_bind_eq_ok hrun
  obtain ⟨b2, hadd, hrun⟩ := of_bind_eq_ok hrun
  obtain ⟨b3, hcondense, hswap⟩ := of_bind_eq_ok hrun
  obtain ⟨hadds, hrest⟩ := hmeets b1 hremove
  obtain ⟨hguard, hswaps⟩ := hrest b2 hadd
  obtain ⟨rows1, hopen, hknown, hI⟩ := rule.removals hopen hknown h hremove
  obtain ⟨rows2, hopen, hknown, hJ⟩ := rule.additions hopen hknown (rule.removed hI) hadds hadd
  obtain ⟨b4, rows3, hmoves, hcols, hvocab, hbuilder, hpacked⟩ := condense_spec hopen hcondense
  have hM := rule.moves hmoves (rule.condense hopen hknown hguard hJ)
  exact rule.swaps hpacked (hknown.moves hmoves) (rule.condensed hcols hvocab hbuilder hM)
    (hswaps b3 hcondense) hswap

end

end StepRule

end VllmEngine.Worker

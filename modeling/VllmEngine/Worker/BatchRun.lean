import VllmEngine.Worker.BatchColumns
import VllmEngine.Worker.StepRule

namespace VllmEngine.Worker

open Lib Function

variable {vocabSize : ℕ} {c : Columns} {rows : Rows} {i : ℕ} {r : CachedRequestState}

section

section

variable (h : InStep vocabSize c rows)

include h

theorem InStep.clear (i) : InStep vocabSize (c.clear i) (update rows i none) := by
  refine ⟨fun j r hr ↦ ?_, fun j hnone ↦ ?_⟩
  · rw [update_apply] at hr
    split at hr
    · cases hr
    next hne => exact (h.occupied j r hr).transfer (.clear hne)
  · by_cases heq : j = i
    · subst heq
      exact Vacant.clear c j
    rw [update_of_ne heq] at hnone
    have hrow := RowFrom.clear (c := c) heq
    exact ⟨hrow.generator.trans (h.vacant j hnone).generator,
      hrow.badWords.trans (h.vacant j hnone).badWords⟩

theorem InStep.write (hempty : rows i = none)
    (hembeds : r.promptEmbeds = none → c.reqPromptEmbeds i = none)
    (hmask : r.samplingParams.allowedTokenIds = [] → ∀ tokenId, c.maskAt i tokenId = false) :
    InStep vocabSize (c.write vocabSize r i) (update rows i (some r)) := by
  refine ⟨fun j r' hr ↦ ?_, fun j hnone ↦ ?_⟩
  · rw [update_apply] at hr
    split at hr
    next heq =>
      subst heq
      cases hr
      exact .write (h.vacant j hempty) hembeds hmask
    next hne => exact (h.occupied j r' hr).transfer (.write hne)
  · rw [update_apply] at hnone
    split at hnone
    · cases hnone
    next hne =>
      have hrow : RowFrom c j (c.write vocabSize r i) j := .write hne
      exact ⟨hrow.generator.trans (h.vacant j hnone).generator,
        hrow.badWords.trans (h.vacant j hnone).badWords⟩

theorem InStep.move {source target} (hne : source ≠ target) (hempty : rows target = none)
    (hembeds : c.reqPromptEmbeds source = none → c.reqPromptEmbeds target = none) :
    InStep vocabSize (c.move source target) (rows.move source target) := by
  refine ⟨fun j r hr ↦ ?_, fun j hnone ↦ ?_⟩
  · rw [Rows.move, update_apply, update_apply] at hr
    split at hr
    · cases hr
    next hs =>
      split at hr
      next heq =>
        subst heq
        exact (h.occupied source r hr).transfer (.move hne (h.vacant j hempty) hembeds)
      next ht => exact (h.occupied j r hr).transfer (.move_of_ne hs ht)
  · by_cases hs : j = source
    · subst hs
      exact Vacant.move_source hne
    rw [Rows.move, update_of_ne hs, update_apply] at hnone
    split at hnone
    next heq =>
      subst heq
      have hrow := RowFrom.move hne (h.vacant j hempty) hembeds
      have hv := h.vacant source hnone
      exact ⟨hrow.generator.trans hv.generator, hrow.badWords.trans hv.badWords⟩
    next ht =>
      have hrow := RowFrom.move_of_ne (c := c) hs ht
      exact ⟨hrow.generator.trans (h.vacant j hnone).generator,
        hrow.badWords.trans (h.vacant j hnone).badWords⟩

theorem InStep.swap {i1 i2} (hmask : c.maskAt i1 = c.maskAt i2) :
    InStep vocabSize (c.swap i1 i2) (swapAt i1 i2 rows) := by
  refine ⟨fun j r hr ↦ (h.occupied _ r hr).transfer (.swap hmask j), fun j hnone ↦ ?_⟩
  have hrow := RowFrom.swap hmask j
  have hv := h.vacant _ hnone
  exact ⟨hrow.generator.trans hv.generator, hrow.badWords.trans hv.badWords⟩

end

end

/-! When a step of the worker leaves every row as it should -/

/-- A new request finds no embeddings and no mask in its row if it brings none; a request without
embeddings is moved by `condense` to rows without any; only rows with the same mask are exchanged.
-/
def rowGuards : Guards where
  add b r := (r.promptEmbeds = none → b.reqPromptEmbeds b.nextRow = none) ∧
    (r.samplingParams.allowedTokenIds = [] → ∀ tokenId, b.maskAt b.nextRow tokenId = false)
  condense _ b := ∀ j reqId, b.numReqs ≤ j → b.reqIds[j]? = some (some reqId) →
    b.reqPromptEmbeds j = none →
    ∀ i ∈ b.batchUpdateBuilder.removed, i < b.numReqs → b.reqPromptEmbeds i = none
  swap _ b swap := b.maskAt swap.1 = b.maskAt swap.2

def LeftoversFit (b : InputBatch) (rows : Rows) : Prop :=
  ∀ j r, b.numReqs ≤ j → rows j = some r → b.reqPromptEmbeds j = none →
    ∀ i ∈ b.batchUpdateBuilder.removed, i < b.numReqs → b.reqPromptEmbeds i = none

theorem LeftoversFit.move {b b' rows' source target}
    (h : LeftoversFit b rows) (hmove : MovesDown b rows source target b' rows') :
    LeftoversFit b' rows' := by
  intro j r hj hr hnone i hi hlt
  rw [hmove.size] at hj hlt
  have hbeyond := hmove.beyond
  have hwithin := hmove.within
  obtain ⟨hi, htarget⟩ := (hmove.rest i).mp hi
  rw [hmove.rows_eq, Rows.move, update_apply] at hr
  split at hr
  · cases hr
  next hsource =>
    rw [update_of_ne (by omega)] at hr
    rw [hmove.columns] at hnone ⊢
    change moveEntry source target b.reqPromptEmbeds j = none at hnone
    change moveEntry source target b.reqPromptEmbeds i = none
    rw [moveEntry_of_ne _ hsource (by omega)] at hnone
    rw [moveEntry_of_ne _ (by omega) htarget]
    exact h j r hj hr hnone i hi hlt

theorem inStep_rule : StepRule rowGuards (fun _ b rows ↦ InStep b.vocabSize b.toColumns rows)
    (fun _ b rows ↦ InStep b.vocabSize b.toColumns rows)
    (fun _ b rows ↦ InStep b.vocabSize b.toColumns rows ∧ LeftoversFit b rows)
    (fun _ b rows ↦ InStep b.vocabSize b.toColumns rows) where
  remove := by
    intro _ _ _ i _ hremoves hstep
    rw [hremoves.columns, hremoves.vocab]
    exact hstep.clear i
  removed := id
  add := by
    intro _ _ _ _ _ hadds hguard hstep
    rw [hadds.columns, hadds.vocab]
    exact hstep.write hadds.empty hguard.1 hguard.2
  condense := by
    intro _ b rows hopen _ hguard hstep
    refine ⟨hstep, fun j r hj hr hnone i hi hlt ↦ ?_⟩
    have hid : b.reqIds[j]? = some (some r.reqId) := by
      rw [← Option.join_eq_some_iff, hopen.ids j, hr, Option.map_some]
    exact hguard j r.reqId hj hid hnone i
      (b.batchUpdateBuilder.ensureRemovedSorted_perm.mem_iff.mp hi) hlt
  move := by
    rintro _ _ _ source target _ _ hmove ⟨hstep, hfit⟩
    obtain ⟨r, hr⟩ := hmove.occupied
    refine ⟨?_, hfit.move hmove⟩
    rw [hmove.columns, hmove.vocab, hmove.rows_eq]
    exact hstep.move hmove.lt.ne' hmove.empty fun hnone ↦
      hfit source r hmove.beyond hr hnone target hmove.noted hmove.within
  condensed := by
    intro _ _ _ _ hcols hvocab _ h
    rw [hcols, hvocab]
    exact h.1
  swap := by
    intro _ _ _ _ _ _ _ _ hswaps hguard hstep
    rw [hswaps.columns, hswaps.vocab]
    exact hstep.swap hguard

inductive WorkerRun (C : Requests → InputBatch → WorkerStep → Prop) : Requests → InputBatch → Prop
  | new (maxNumReqs vocabSize : ℕ) (blocksPerKvBlock : ℕ → ℕ) : WorkerRun C (fun _ ↦ none)
        { maxNumReqs, vocabSize, blockTable := fun g ↦ { blocksPerKvBlock := blocksPerKvBlock g } }
  | step {requests b b'} (step : WorkerStep) (h : WorkerRun C requests b)
      (hC : C requests b step) (hrun : step.run b = .ok b') :
      WorkerRun C (requests.add step.additions) b'.refresh.1

/-- The occupied rows are the first ones, the index is the inverse of the ids, and every row stores
its request. -/
structure BatchHolds (requests : Requests) (b : InputBatch) : Prop where
  occupied : ∀ i, (∃ reqId, b.reqIds[i]? = some (some reqId)) ↔ i < b.numReqs
  length : b.reqIds.length = b.numReqs
  index : ∀ reqId i, b.reqIdToIndex.get? reqId = some i ↔ b.reqIds[i]? = some (some reqId)
  stored : ∀ i reqId, b.reqIds[i]? = some (some reqId) →
    ∃ r, requests reqId = some r ∧ RowHolds b.vocabSize b.toColumns i r

theorem WorkerRun.in_step {requests b} (h : WorkerRun rowGuards.Meets requests b) :
    ∃ rows, Open b rows ∧ Known requests rows ∧ InStep b.vocabSize b.toColumns rows ∧
      (∀ i, (∃ r, rows i = some r) ↔ i < b.numReqs) ∧ b.reqIds.length = b.numReqs := by
  induction h with
  | new maxNumReqs vocabSize blocksPerKvBlock =>
    refine ⟨fun _ ↦ none, Open.new rfl rfl rfl rfl, fun i r hr ↦ ?_,
      ⟨fun i r hr ↦ ?_, fun i _ ↦ ⟨rfl, rfl⟩⟩, fun i ↦ ?_, rfl⟩
    · cases hr
    · cases hr
    · exact iff_of_false (by simp) (Nat.not_lt_zero i)
  | step step _ hC hrun ih =>
    obtain ⟨rows, hopen, hknown, hstep, -, -⟩ := ih
    obtain ⟨rows', hpacked, hknown, hstep⟩ := inStep_rule.run hopen hknown hstep hC hrun
    exact ⟨rows', hpacked.refresh, hknown, hstep, hpacked.full, hpacked.length.1⟩

theorem batch_rows_hold_requests {requests : Requests} {b : InputBatch}
    (h : WorkerRun rowGuards.Meets requests b) : BatchHolds requests b := by
  obtain ⟨rows, hopen, hknown, hstep, hfull, hlength⟩ := h.in_step
  have hids : ∀ i reqId, b.reqIds[i]? = some (some reqId) ↔
      ∃ r, rows i = some r ∧ r.reqId = reqId := by
    intro i reqId
    rw [← Option.map_eq_some_iff, ← hopen.ids i, Option.join_eq_some_iff]
  refine ⟨fun i ↦ ?_, hlength, fun reqId i ↦ ?_, fun i reqId hid ↦ ?_⟩
  · rw [← hfull]
    constructor
    · rintro ⟨reqId, hid⟩
      obtain ⟨r, hr, -⟩ := (hids i reqId).mp hid
      exact ⟨r, hr⟩
    · rintro ⟨r, hr⟩
      exact ⟨r.reqId, (hids i r.reqId).mpr ⟨r, hr, rfl⟩⟩
  · rw [hopen.index, hids]
  · obtain ⟨r, hr, rfl⟩ := (hids i reqId).mp hid
    exact ⟨r, hknown i r hr, hstep.occupied i r hr⟩

theorem batch_rows_hold_requests_after_condense :
    ∃ requests b, WorkerRun rowGuards.Meets requests b ∧ b.reqIds = [some "b"] ∧ BatchHolds requests b := by
  have hadd : WorkerRun rowGuards.Meets _ _ :=
    .step { additions := [{ reqId := "a", promptTokenIds := some [1] },
        { reqId := "b", promptTokenIds := some [2], generator := some 7 }] }
      (.new 4 10 fun _ ↦ 1)
      (.intro rfl ⟨⟨rfl, fun _ ↦ rfl, fun _ _ ↦ rfl⟩, fun b' h' ↦ by
          cases h'
          exact ⟨⟨rfl, fun _ ↦ rfl, fun _ _ ↦ rfl⟩, fun _ _ ↦ trivial⟩⟩ rfl
        (fun _ _ _ _ _ i hi ↦ absurd hi List.not_mem_nil) rfl trivial)
      rfl
  have hrun : WorkerRun rowGuards.Meets _ _ :=
    .step { removals := ["a"] } hadd
      (.intro rfl trivial rfl (fun _ _ _ _ _ _ _ _ ↦ rfl) rfl trivial) rfl
  exact ⟨_, _, hrun, rfl, batch_rows_hold_requests hrun⟩

/-- A request without embeddings finds those of its predecessor; one without a mask finds that of a
request that has moved down; an exchange of rows gives both the mask of the second. -/
theorem row_keeps_leftovers :
    let fresh := fun (_ : Requests) (b : InputBatch) (step : WorkerStep) ↦
      ∀ r ∈ step.additions, b.reqIdToIndex.get? r.reqId = none
    (∃ requests b, WorkerRun fresh requests b ∧ b.reqIds = [some "b"] ∧
      (requests "b").map (·.promptEmbeds) = some none ∧ b.reqPromptEmbeds 0 = some [7] ∧
      ¬ BatchHolds requests b) ∧
    (∃ requests b, WorkerRun fresh requests b ∧ b.reqIds = [some "b", some "c"] ∧
      (requests "c").map (·.samplingParams.allowedTokenIds) = some [] ∧ b.maskAt 1 0 = true ∧
      ¬ BatchHolds requests b) ∧
    ∃ requests b, WorkerRun fresh requests b ∧ b.reqIds = [some "b", some "a"] ∧
      (requests "a").map (·.samplingParams.allowedTokenIds) = some [] ∧ b.maskAt 1 0 = true ∧
      ¬ BatchHolds requests b := by
  intro fresh
  have hembeds : WorkerRun fresh _ _ :=
    .step { removals := ["a"], additions := [{ reqId := "b", promptTokenIds := some [1] }] }
      (.step { additions := [{ reqId := "a", promptTokenIds := none, promptEmbeds := some [7] }] }
        (.new 4 10 fun _ ↦ 1) (by decide) rfl) (by decide) rfl
  have hmask : WorkerRun fresh _ _ :=
    .step { additions := [{ reqId := "c", promptTokenIds := some [3] }] }
      (.step { removals := ["a"] }
        (.step { additions := [{ reqId := "a", promptTokenIds := some [1] },
            { reqId := "b", promptTokenIds := some [2], samplingParams := { allowedTokenIds := [5] } }] }
          (.new 4 10 fun _ ↦ 1) (by decide) rfl) (by decide) rfl) (by decide) rfl
  have hswap : WorkerRun fresh _ _ :=
    .step { additions := [{ reqId := "a", promptTokenIds := some [1] },
        { reqId := "b", promptTokenIds := some [2], samplingParams := { allowedTokenIds := [5] } }]
            swaps := [(0, 1)] }
      (.new 4 10 fun _ ↦ 1) (by decide) rfl
  refine ⟨⟨_, _, hembeds, rfl, rfl, rfl, fun h ↦ ?_⟩, ⟨_, _, hmask, rfl, rfl, rfl, fun h ↦ ?_⟩,
    _, _, hswap, rfl, rfl, rfl, fun h ↦ ?_⟩
  · obtain ⟨r, hr, hrow⟩ := h.stored 0 "b" rfl
    cases hr
    exact absurd hrow.embeds (by decide)
  · obtain ⟨r, hr, hrow⟩ := h.stored 1 "c" rfl
    cases hr
    exact ((hrow.mask 0).mp rfl).1 rfl
  · obtain ⟨r, hr, hrow⟩ := h.stored 1 "a" rfl
    cases hr
    exact ((hrow.mask 0).mp rfl).1 rfl

end VllmEngine.Worker

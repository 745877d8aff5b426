import VllmEngine.Worker.Replay
import VllmEngine.Worker.BatchColumns
import VllmEngine.Worker.ThinkingBudget

namespace VllmEngine.Worker

open Lib ThinkingBudgetStateHolder Function Option Dict List

abbrev Slots := ℕ → Option ThinkEntry

def exchange (i1 i2 : ℕ) (slots : Slots) : Slots :=
  let slots' := if (slots i1).isNone then slots else update slots i2 (slots i1)
  if (slots i2).isNone then slots' else update slots' i1 (slots i2)

namespace Slots

variable (h : ThinkingBudgetStateHolder)

def add (slots : Slots) (added : AddedRequest) : Slots :=
  update slots added.index (added.params.thinkingTokenBudget.map (h.newEntry added))

def moved (slots : Slots) : ℕ × ℕ × MoveDirectionality → Slots
  | (i1, i2, .swap) => exchange i1 i2 slots
  | (i1, i2, .unidirectional) => moveEntry i1 i2 slots

def remove (removed : List ℕ) (slots : Slots) : Slots := fun i ↦ if i ∈ removed then none else slots i

def apply (u : BatchUpdateBuilder) (slots : Slots) : Slots :=
  u.moved.foldl moved (u.added.foldl (add h) (remove u.removed slots))

end Slots

section

variable {h : ThinkingBudgetStateHolder}

theorem foldl_erase_get? {T : Type} (removed : List ℕ) (d : Dict ℕ T) :
    (removed.foldl erase d).get? = fun i ↦ if i ∈ removed then none else d.get? i := by
  induction removed generalizing d with
  | nil =>
    funext i
    simp
  | cons t removed ih =>
    funext i
    rw [foldl_cons, ih]
    by_cases hi : i = t
    · simp [hi]
    · simp [hi, get?_erase]

theorem syncAdded_get? (d) (a) :
    (h.syncAdded d a).get? = Slots.add h d.get? a := by
  funext i
  rw [syncAdded, Slots.add, update_apply]
  cases a.params.thinkingTokenBudget with
  | none => exact get?_erase d i a.index
  | some budget => exact get?_set d i a.index _

theorem syncMoved_get? (d) (m) :
    (syncMoved d m).get? = Slots.moved d.get? m := by
  obtain ⟨i1, i2, direction⟩ := m
  funext i
  cases direction with
  | unidirectional =>
    rw [syncMoved, Slots.moved, moveEntry]
    cases hget : d.get? i1 with
    | none => rfl
    | some e =>
      rw [if_neg (by simp), update_apply, update_apply]
      rw [get?_set, get?_erase]
  | swap =>
    rw [syncMoved, Slots.moved, exchange]
    cases hget1 : d.get? i1 with
    | none =>
      cases hget2 : d.get? i2 with
      | none => rfl
      | some e2 =>
        simp only [isNone_none, if_true, isNone_some, Bool.false_eq_true, if_false]
        rw [update_apply, get?_set]
    | some e1 =>
      cases hget2 : d.get? i2 with
      | none =>
        simp only [isNone_none, if_true, isNone_some, Bool.false_eq_true, if_false]
        rw [update_apply, get?_set]
      | some e2 =>
        simp only [isNone_some, Bool.false_eq_true, if_false]
        rw [update_apply, update_apply, get?_set, get?_set]

theorem syncBatch_get? (b : InputBatch) :
    (h.syncBatch b.refresh.2).state.get? = Slots.apply h b.batchUpdateBuilder h.state.get? := by
  unfold InputBatch.refresh BatchUpdateBuilder.getAndReset
  split
  next hnone =>
    obtain ⟨hremoved, hmoved, hadded⟩ := hnone
    funext i
    rw [Slots.apply, hremoved, hmoved, hadded]
    simp [syncBatch, Slots.remove]
  next =>
    change (foldl syncMoved _ _).get? = _
    rw [← foldl_hom _ fun d m ↦ (syncMoved_get? d m).symm,
      ← foldl_hom _ fun d a ↦ (syncAdded_get? d a).symm, foldl_erase_get?]
    rfl

end

/-- A row has a record exactly if its request has a budget, and then a related one. -/
def Fits (R : CachedRequestState → ThinkEntry → Prop) :
    Option CachedRequestState → Option ThinkEntry → Prop
  | some r, some entry => r.samplingParams.thinkingTokenBudget.isSome ∧ R r entry
  | some r, none => r.samplingParams.thinkingTokenBudget = none
  | none, entry => entry = none

structure Pending (h : ThinkingBudgetStateHolder) (R : CachedRequestState → ThinkEntry → Prop)
    (slots : Slots) (u : BatchUpdateBuilder) (rows : Rows) : Prop where
  fits : ∀ i, Fits R (rows i) (Slots.apply h u slots i)
  untouched : Untouched u

section

variable {slots : Slots}

theorem slots_local : Local Slots.moved := by
  rintro slots t x ⟨i1, i2, direction⟩ (h1 : i1 ≠ t) (h2 : i2 ≠ t)
  cases direction with
  | unidirectional =>
    rw [Slots.moved, Slots.moved, moveEntry, moveEntry, update_of_ne h1]
    split
    · rfl
    · rw [update_comm h1.symm, update_comm h2.symm]
  | swap =>
    simp only [Slots.moved, exchange, update_of_ne h1, update_of_ne h2]
    split
    · split
      · rfl
      · rw [update_comm h2.symm]
    · split
      · rw [update_comm h1.symm]
      · rw [update_comm h2.symm, update_comm h1.symm]

theorem exchange_eq_swapAt {i1 i2} (hsame : (slots i1).isNone ↔ (slots i2).isNone) :
    exchange i1 i2 slots = swapAt i1 i2 slots := by
  rw [← swapDictValues_eq]
  unfold exchange swapDictValues
  by_cases hnone : (slots i1).isNone
  · have h1 : slots i1 = none := isNone_iff_eq_none.mp hnone
    have h2 : slots i2 = none := isNone_iff_eq_none.mp (hsame.mp hnone)
    rw [if_pos (hsame.mp hnone), if_pos hnone, h1, h2, ← h2, update_eq_self, h2, ← h1,
      update_eq_self]
  · rw [if_neg (mt hsame.mpr hnone), if_neg hnone]

end

/-- The conditions on a step: a request without a budget moves only into rows that had no record,
and rows with a record are exchanged only with one another. -/
def budgetGuards (add : CachedRequestState → Prop) (slots : Slots) : Guards where
  add _ r := add r
  condense requests b := ∀ j reqId r, b.numReqs ≤ j → b.reqIds[j]? = some (some reqId) →
    requests reqId = some r → r.samplingParams.thinkingTokenBudget = none →
    ∀ i ∈ b.batchUpdateBuilder.removed, i < b.numReqs → slots i = none
  swap requests b swap := swap.1 ≠ swap.2 → ∀ id1 id2 r1 r2,
    b.reqIds[swap.1]? = some (some id1) → b.reqIds[swap.2]? = some (some id2) →
    requests id1 = some r1 → requests id2 = some r2 →
    (r1.samplingParams.thinkingTokenBudget = none ↔ r2.samplingParams.thinkingTokenBudget = none)

def RecordsFit (slots : Slots) (b : InputBatch) (rows : Rows) : Prop :=
  (∀ i ∈ b.batchUpdateBuilder.removed, rows i = none) ∧
  ∀ j r, b.numReqs ≤ j → rows j = some r → r.samplingParams.thinkingTokenBudget = none →
    ∀ i ∈ b.batchUpdateBuilder.removed, i < b.numReqs → slots i = none

section

variable {h : ThinkingBudgetStateHolder} {R : CachedRequestState → ThinkEntry → Prop} {slots : Slots}
variable {u : BatchUpdateBuilder} {b b' : InputBatch} {rows rows' : Rows}
  {r : CachedRequestState}

theorem Fits.isNone_iff {entry} (hfits : Fits R (some r) entry) :
    entry.isNone ↔ r.samplingParams.thinkingTokenBudget = none := by
  cases entry with
  | none => exact iff_of_true rfl hfits
  | some entry =>
    refine iff_of_false (by simp) fun hnone ↦ ?_
    have hsome := hfits.1
    rw [hnone] at hsome
    cases hsome

theorem Slots.apply_eq (h) (u) :
    Slots.apply h u slots = replay none
      (fun a ↦ a.params.thinkingTokenBudget.map (h.newEntry a)) Slots.moved u slots := rfl

theorem Pending.remove (hpending : Pending h R slots u rows) (hadded : u.added = [])
    (hmoved : u.moved = []) (i) :
    Pending h R slots { u with removed := u.removed ++ [i] } (update rows i none) := by
  refine ⟨fun j ↦ ?_, .of_nil hadded hmoved⟩
  rw [Slots.apply_eq, replay_remove hadded hmoved, ← Slots.apply_eq, update_apply, update_apply]
  split
  · rfl
  · exact hpending.fits j

theorem Pending.add (hpending : Pending h R slots b.batchUpdateBuilder rows)
    (hmoved : b.batchUpdateBuilder.moved = []) (hadds : Adds b rows r b')
    (hnew : ∀ a : AddedRequest, a.request = r → a.promptTokIds = r.promptTokenIds →
      a.outputTokIds = r.outputTokenIds → ∀ budget, r.samplingParams.thinkingTokenBudget = some budget →
      R r (h.newEntry a budget)) :
    Pending h R slots b'.batchUpdateBuilder (update rows b.nextRow (some r)) := by
  refine ⟨fun j ↦ ?_, hpending.untouched.add hadds⟩
  rw [Slots.apply_eq, replay_add hmoved hadds, ← Slots.apply_eq, update_apply, update_apply]
  split
  · cases hbudget : r.samplingParams.thinkingTokenBudget with
    | none => exact hbudget
    | some budget => exact ⟨by rw [hbudget]; rfl, hnew _ rfl rfl rfl budget hbudget⟩
  · exact hpending.fits j

theorem RecordsFit.move {source target} (hfit : RecordsFit slots b rows)
    (hmove : MovesDown b rows source target b' rows') : RecordsFit slots b' rows' := by
  have hwithin := hmove.within
  refine ⟨fun i hi ↦ ?_, fun j r hj hr hbudget i hi hlt ↦ ?_⟩
  · obtain ⟨hi, hne⟩ := (hmove.rest i).mp hi
    rw [hmove.rows_eq, Rows.move, update_apply, update_of_ne hne]
    split
    · rfl
    · exact hfit.1 i hi
  · rw [hmove.size] at hj hlt
    rw [hmove.rows_eq, Rows.move, update_apply] at hr
    split at hr
    · cases hr
    · rw [update_of_ne (by omega)] at hr
      exact hfit.2 j r hj hr hbudget i ((hmove.rest i).mp hi).1 hlt

theorem Pending.move {source target} (hpending : Pending h R slots b.batchUpdateBuilder rows)
    (hfit : RecordsFit slots b rows) (hmove : MovesDown b rows source target b' rows') :
    Pending h R slots b'.batchUpdateBuilder rows' := by
  have hne : source ≠ target := hmove.lt.ne'
  obtain ⟨r, hr⟩ := hmove.occupied
  refine ⟨fun j ↦ ?_, hpending.untouched.move hfit.1 hmove⟩
  have hfits := hpending.fits
  have hsource := hfits source
  rw [hr] at hsource
  rw [Slots.apply_eq, replay_move slots_local hpending.untouched hmove, ← Slots.apply_eq, Slots.moved,
    hmove.rows_eq, Rows.move, moveEntry, update_of_ne hne]
  by_cases hnone : (Slots.apply h b.batchUpdateBuilder slots source).isNone
  · -- a request without a budget
    have hbudget := hsource.isNone_iff.mp hnone
    rw [if_pos hnone, update_apply, update_apply, update_apply]
    split
    next hj =>
      rw [if_neg (hj ▸ hne), hj]
      exact isNone_iff_eq_none.mp hnone
    next =>
      split
      · rw [hr, hfit.2 source r hmove.beyond hr hbudget target hmove.noted hmove.within]
        exact hbudget
      · exact hfits j
  · rw [if_neg hnone, update_apply, update_apply, update_apply, update_apply, update_apply]
    split
    next hj =>
      rw [if_neg (hj ▸ hne)]
      rfl
    next =>
      split
      · exact hfits source
      · exact hfits j

theorem Pending.sort (hpending : Pending h R slots u rows) :
    Pending h R slots u.ensureRemovedSorted rows := by
  refine ⟨fun i ↦ ?_, hpending.untouched.sort⟩
  rw [Slots.apply_eq, replay_sort]
  exact hpending.fits i

theorem fits_swap {i1 i2 r1 r2} (hfits : ∀ i, Fits R (rows i) (Slots.apply h u slots i))
    (hr1 : rows i1 = some r1) (hr2 : rows i2 = some r2)
    (hsame : i1 ≠ i2 → (r1.samplingParams.thinkingTokenBudget = none ↔
      r2.samplingParams.thinkingTokenBudget = none)) (j) :
    Fits R (swapAt i1 i2 rows j)
      (Slots.apply h { u with moved := u.moved ++ [(i1, i2, .swap)] } slots j) := by
  have hnone : (Slots.apply h u slots i1).isNone ↔ (Slots.apply h u slots i2).isNone := by
    by_cases heq : i1 = i2
    · rw [heq]
    have h1 := hfits i1
    have h2 := hfits i2
    rw [hr1] at h1
    rw [hr2] at h2
    rw [h1.isNone_iff, h2.isNone_iff]
    exact hsame heq
  rw [Slots.apply_eq, replay_swap, ← Slots.apply_eq, Slots.moved, exchange_eq_swapAt hnone]
  exact hfits (Equiv.swap i1 i2 j)

theorem reqIds_of_row {b : InputBatch} {i}
    (hids : ∀ i, b.reqIds[i]?.join = (rows i).map (·.reqId)) (hr : rows i = some r) :
    b.reqIds[i]? = some (some r.reqId) := by
  rw [← join_eq_some_iff, hids i, hr, map_some]

theorem pending_rule {add : CachedRequestState → Prop}
    (hnew : ∀ r, add r → ∀ a : AddedRequest, a.request = r → a.promptTokIds = r.promptTokenIds →
      a.outputTokIds = r.outputTokenIds → ∀ budget, r.samplingParams.thinkingTokenBudget = some budget →
      R r (h.newEntry a budget)) :
    StepRule (budgetGuards add slots) (fun _ b rows ↦ Pending h R slots b.batchUpdateBuilder rows ∧
        b.batchUpdateBuilder.added = [] ∧ b.batchUpdateBuilder.moved = [])
      (fun _ b rows ↦ Pending h R slots b.batchUpdateBuilder rows ∧ b.batchUpdateBuilder.moved = [])
      (fun _ b rows ↦ Pending h R slots b.batchUpdateBuilder rows ∧ RecordsFit slots b rows)
      (fun _ b rows ↦ ∀ i, Fits R (rows i) (Slots.apply h b.batchUpdateBuilder slots i)) where
  remove := by
    rintro _ _ _ i _ hremoves ⟨hpending, hadded, hmoved⟩
    rw [hremoves.builder]
    exact ⟨hpending.remove hadded hmoved i, hadded, hmoved⟩
  removed := fun hI ↦ ⟨hI.1, hI.2.2⟩
  add := by
    rintro _ _ _ r _ hadds hguard ⟨hpending, hmoved⟩
    exact ⟨hpending.add hmoved hadds (hnew r hguard), hadds.moved.trans hmoved⟩
  condense := by
    rintro _ b rows hopen hknown hguard ⟨hpending, -⟩
    have hmem : ∀ t, t ∈ b.batchUpdateBuilder.ensureRemovedSorted.removed ↔
        t ∈ b.batchUpdateBuilder.removed := fun t ↦
      b.batchUpdateBuilder.ensureRemovedSorted_perm.mem_iff
    refine ⟨hpending.sort, fun i hi ↦ ?_, fun j r hj hr hbudget i hi hlt ↦ ?_⟩
    · have hi := (hmem i).mp hi
      exact (hopen.removed i (hopen.bound i hi)).mp hi
    · exact hguard j r.reqId r hj (reqIds_of_row hopen.ids hr) (hknown j r hr) hbudget i
        ((hmem i).mp hi) hlt
  move := fun hmove hM ↦ ⟨hM.1.move hM.2 hmove, hM.2.move hmove⟩
  condensed := by
    intro _ _ _ _ _ _ hbuilder hM
    rw [hbuilder]
    exact hM.1.fits
  swap := by
    intro _ _ _ i1 i2 _ hpacked hknown hswaps hguard hfits
    obtain ⟨r1, hr1⟩ := hswaps.first
    obtain ⟨r2, hr2⟩ := hswaps.second
    rw [hswaps.builder]
    exact fits_swap hfits hr1 hr2 fun hne ↦ hguard hne r1.reqId r2.reqId r1 r2
      (reqIds_of_row hpacked.ids hr1) (reqIds_of_row hpacked.ids hr2) (hknown i1 r1 hr1)
      (hknown i2 r2 hr2)

end

section

variable {h : ThinkingBudgetStateHolder} {R : CachedRequestState → ThinkEntry → Prop} {slots : Slots}
variable {b b' : InputBatch} {rows : Rows} {requests : Requests}

theorem pending_of_fits (hbuilder : b.batchUpdateBuilder = {})
    (hfits : ∀ i, Fits R (rows i) (slots i)) :
    Pending h R slots b.batchUpdateBuilder rows ∧ b.batchUpdateBuilder.added = [] ∧
      b.batchUpdateBuilder.moved = [] := by
  rw [hbuilder]
  exact ⟨⟨fun i ↦ by simpa [Slots.apply, Slots.remove] using hfits i, fun t ht ↦ by cases ht⟩, rfl, rfl⟩

theorem step_fits {add step}
    (hnew : ∀ r, add r → ∀ a : AddedRequest, a.request = r → a.promptTokIds = r.promptTokenIds →
      a.outputTokIds = r.outputTokenIds → ∀ budget, r.samplingParams.thinkingTokenBudget = some budget →
      R r (h.newEntry a budget)) (hopen : Open b rows) (hknown : Known requests rows)
    (hbuilder : b.batchUpdateBuilder = {}) (hfits : ∀ i, Fits R (rows i) (h.state.get? i))
    (hmeets : (budgetGuards add h.state.get?).Meets requests b step) (hrun : step.run b = .ok b') :
    ∃ rows', Open b'.refresh.1 rows' ∧ Known (requests.add step.additions) rows' ∧
      ∀ i, Fits R (rows' i) ((h.syncBatch b'.refresh.2).state.get? i) := by
  obtain ⟨rows', hpacked, hknown, hfits⟩ := (pending_rule hnew).run hopen hknown
    (pending_of_fits hbuilder hfits) hmeets hrun
  refine ⟨rows', hpacked.refresh, hknown, fun i ↦ ?_⟩
  rw [syncBatch_get?]
  exact hfits i

end

/-- The worker and the holder, when every step satisfies `C`; the sampler refreshes and applies the
records between the steps. -/
inductive HolderRun (C : Requests → InputBatch → ThinkingBudgetStateHolder → WorkerStep → Prop) :
    Requests → InputBatch → ThinkingBudgetStateHolder → Prop
  | new (maxNumReqs vocabSize : ℕ) (blocksPerKvBlock : ℕ → ℕ) (numSpecTokens : ℕ)
      (thinkStartTokenIds thinkEndTokenIds : List ℕ) :
      HolderRun C (fun _ ↦ none)
        { maxNumReqs, vocabSize, blockTable := fun g ↦ { blocksPerKvBlock := blocksPerKvBlock g } }
        { maxNumReqs, numSpecTokens, thinkStartTokenIds, thinkEndTokenIds }
  | step {requests b b' h} (step : WorkerStep) (hrun : HolderRun C requests b h)
      (hC : C requests b h step) (hstep : step.run b = .ok b') :
      HolderRun C (requests.add step.additions) b'.refresh.1 (h.syncBatch b'.refresh.2)
  | updateState {requests b h} (outputTokenIds specTokenIds : List (List ℕ))
      (repeatIndices : Option (List ℕ)) (hrun : HolderRun C requests b h) :
      HolderRun C requests b (h.updateState outputTokenIds specTokenIds repeatIndices)
  | applyToLogits {requests b h} (numRows : ℕ) (predictBonusToken : Bool)
      (specTokenIds : List (List ℕ)) (hrun : HolderRun C requests b h) :
      HolderRun C requests b (h.applyToLogits numRows predictBonusToken specTokenIds).2

/-- A row has a record exactly if its request has a budget, and then its own. -/
structure HolderFollows (requests : Requests) (b : InputBatch) (h : ThinkingBudgetStateHolder) :
    Prop where
  tracked : ∀ i, (∃ entry, h.state.get? i = some entry) ↔
    ∃ reqId r, b.reqIds[i]? = some (some reqId) ∧ requests reqId = some r ∧
      r.samplingParams.thinkingTokenBudget ≠ none
  owner : ∀ i entry reqId, h.state.get? i = some entry → b.reqIds[i]? = some (some reqId) →
    requests reqId = some entry.request

def BudgetStepMeets (requests : Requests) (b : InputBatch) (h : ThinkingBudgetStateHolder)
    (step : WorkerStep) : Prop :=
  (budgetGuards (fun _ ↦ True) h.state.get?).Meets requests b step

theorem refreshEntry_request (h : ThinkingBudgetStateHolder)
    (outputTokenIds specTokenIds : List (List ℕ))
    (repeatIndices : Option (List ℕ)) (seqIdx) (entry : ThinkEntry) :
    (h.refreshEntry outputTokenIds specTokenIds repeatIndices seqIdx entry).request = entry.request := by
  unfold refreshEntry
  split <;> rfl

theorem Fits.map {r entry f} (hf : ∀ e, (f e).request = e.request)
    (hfits : Fits (fun r e ↦ e.request = r) r entry) :
    Fits (fun r e ↦ e.request = r) r (entry.map f) := by
  cases r with
  | none =>
    rw [hfits]
    rfl
  | some r =>
    cases entry with
    | none => exact hfits
    | some entry => exact ⟨hfits.1, (hf entry).trans hfits.2⟩

theorem HolderRun.fits {requests b h} (hrun : HolderRun BudgetStepMeets requests b h) :
    ∃ rows, Open b rows ∧ Known requests rows ∧ b.batchUpdateBuilder = {} ∧
      ∀ i, Fits (fun r e ↦ e.request = r) (rows i) (h.state.get? i) := by
  induction hrun with
  | new maxNumReqs vocabSize blocksPerKvBlock numSpecTokens starts ends =>
    exact ⟨fun _ ↦ none, Open.new rfl rfl rfl rfl, fun i r hr ↦ (by cases hr), rfl, fun i ↦ rfl⟩
  | step step _ hC hstep ih =>
    obtain ⟨rows, hopen, hknown, hbuilder, hfits⟩ := ih
    obtain ⟨rows', hopen, hknown, hfits⟩ := step_fits (fun r _ a ha _ _ _ _ ↦ ha) hopen hknown
      hbuilder hfits hC hstep
    exact ⟨rows', hopen, hknown, rfl, hfits⟩
  | @updateState _ _ h outputTokenIds specTokenIds repeatIndices _ ih =>
    obtain ⟨rows, hopen, hknown, hbuilder, hfits⟩ := ih
    refine ⟨rows, hopen, hknown, hbuilder, fun i ↦ ?_⟩
    rw [ThinkingBudgetStateHolder.updateState, get?_mapValues]
    exact (hfits i).map (refreshEntry_request h _ _ _ i)
  | @applyToLogits _ _ h numRows predictBonusToken specTokenIds _ ih =>
    obtain ⟨rows, hopen, hknown, hbuilder, hfits⟩ := ih
    refine ⟨rows, hopen, hknown, hbuilder, fun i ↦ ?_⟩
    rw [ThinkingBudgetStateHolder.applyToLogits, get?_mapValues]
    exact (hfits i).map fun _ ↦ rfl

theorem holder_follows_rows {requests : Requests} {b : InputBatch} {h : ThinkingBudgetStateHolder}
    (hrun : HolderRun BudgetStepMeets requests b h) : HolderFollows requests b h := by
  obtain ⟨rows, hopen, hknown, -, hfits⟩ := hrun.fits
  have hrow : ∀ i reqId, b.reqIds[i]? = some (some reqId) →
      ∃ r, rows i = some r ∧ r.reqId = reqId := by
    intro i reqId hid
    rw [← map_eq_some_iff, ← hopen.ids i, join_eq_some_iff]
    exact hid
  refine ⟨fun i ↦ ⟨?_, ?_⟩, fun i entry reqId hentry hid ↦ ?_⟩
  · rintro ⟨entry, hentry⟩
    have hfit := hfits i
    rw [hentry] at hfit
    cases hr : rows i with
    | none =>
      rw [hr] at hfit
      cases hfit
    | some r =>
      rw [hr] at hfit
      exact ⟨r.reqId, r, reqIds_of_row hopen.ids hr, hknown i r hr, isSome_iff_ne_none.mp hfit.1⟩
  · rintro ⟨reqId, r, hid, hreq, hbudget⟩
    obtain ⟨r', hr', rfl⟩ := hrow i reqId hid
    obtain rfl := some.inj (hreq.symm.trans (hknown i r' hr'))
    have hfit := hfits i
    rw [hr'] at hfit
    cases hentry : h.state.get? i with
    | none =>
      rw [hentry] at hfit
      exact absurd hfit hbudget
    | some entry => exact ⟨entry, rfl⟩
  · obtain ⟨r, hr, rfl⟩ := hrow i reqId hid
    have hfit := hfits i
    rw [hr, hentry] at hfit
    rw [hfit.2]
    exact hknown i r hr

theorem holder_follows_rows_after_condense :
    ∃ requests b h, HolderRun BudgetStepMeets requests b h ∧ b.reqIds = [some "b"] ∧
      (h.state.get? 0).map (·.request.reqId) = some "b" ∧ HolderFollows requests b h := by
  let additions : List CachedRequestState := [
    { reqId := "a", promptTokenIds := some [1], samplingParams := { thinkingTokenBudget := some 5 } },
    { reqId := "b", promptTokenIds := some [2], samplingParams := { thinkingTokenBudget := some 7 } }]
  have hbudget : ∀ reqId r, Requests.add (fun _ ↦ none) additions reqId = some r →
      r.samplingParams.thinkingTokenBudget ≠ none := by
    intro reqId r hreq
    rw [Requests.add, foldl_cons, foldl_cons, foldl_nil, update_apply,
      update_apply] at hreq
    split at hreq
    · cases hreq
      decide
    split at hreq
    · cases hreq
      decide
    · cases hreq
  have hadd : HolderRun BudgetStepMeets _ _ _ :=
    .step { additions } (.new 4 10 (fun _ ↦ 1) 0 [8] [9])
      (.intro rfl ⟨⟨rfl, trivial⟩, fun b' h' ↦ by
          cases h'
          exact ⟨⟨rfl, trivial⟩, fun _ _ ↦ trivial⟩⟩ rfl
        (fun _ _ _ _ _ _ _ i hi ↦ absurd hi not_mem_nil) rfl trivial)
      rfl
  have hrun : HolderRun BudgetStepMeets _ _ _ :=
    .step { removals := ["a"] } hadd
      (.intro rfl trivial rfl (fun _ reqId r _ _ hreq hnone ↦ absurd hnone (hbudget reqId r hreq))
        rfl trivial)
      rfl
  exact ⟨_, _, _, hrun, rfl, rfl, holder_follows_rows hrun⟩

/-- A request without a budget that moves into the row of one with a budget, or changes places with
it, finds its record. -/
theorem record_left_in_row :
    let fresh := fun (_ : Requests) (b : InputBatch) (_ : ThinkingBudgetStateHolder)
      (step : WorkerStep) ↦ ∀ r ∈ step.additions, b.reqIdToIndex.get? r.reqId = none
    (∃ requests b h, HolderRun fresh requests b h ∧ b.reqIds = [some "b"] ∧
      (requests "b").map (·.samplingParams.thinkingTokenBudget) = some none ∧
      (h.state.get? 0).map (·.request.reqId) = some "a" ∧ ¬ HolderFollows requests b h) ∧
    ∃ requests b h, HolderRun fresh requests b h ∧ b.reqIds = [some "b", some "a"] ∧
      (requests "b").map (·.samplingParams.thinkingTokenBudget) = some none ∧
      (h.state.get? 0).map (·.request.reqId) = some "a" ∧ ¬ HolderFollows requests b h := by
  intro fresh
  have hcondense : HolderRun fresh _ _ _ :=
    .step { removals := ["a"] } (.step { additions := [
          { reqId := "a", promptTokenIds := some [1], samplingParams := { thinkingTokenBudget := some 5 } },
          { reqId := "b", promptTokenIds := some [2] }] }
        (.new 4 10 (fun _ ↦ 1) 0 [8] [9]) (by decide) rfl) (by decide) rfl
  have hswap : HolderRun fresh _ _ _ :=
    .step { additions := [
        { reqId := "a", promptTokenIds := some [1], samplingParams := { thinkingTokenBudget := some 5 } },
        { reqId := "b", promptTokenIds := some [2] }]
            swaps := [(0, 1)] }
      (.new 4 10 (fun _ ↦ 1) 0 [8] [9]) (by decide) rfl
  refine ⟨⟨_, _, _, hcondense, rfl, rfl, rfl, fun hfollows ↦ ?_⟩,
    _, _, _, hswap, rfl, rfl, rfl, fun hfollows ↦ ?_⟩
  · exact absurd (hfollows.owner 0 _ "b" rfl rfl) (by decide)
  · exact absurd (hfollows.owner 0 _ "b" rfl rfl) (by decide)

end VllmEngine.Worker

import VllmEngine.Worker.BudgetRun

namespace VllmEngine.Worker

open Lib ThinkingBudgetStateHolder Option List WorkerState Dict

def CachedRequestState.prompt (r : CachedRequestState) : List ℕ := r.promptTokenIds.getD []

/-- The record of a request between two sampling steps: `S` is known of a section that has begun. -/
structure Knows (S : ℕ → List ℕ → List ℕ → ℕ → List ℕ → List ℕ → ThinkState → Prop) (s : ℕ)
    (E : List ℕ) (r : CachedRequestState) (e : ThinkState) : Prop where
  plain : ∀ budget, r.samplingParams.thinkingTokenBudget = some budget → Plain r.prompt budget e
  waiting : ∀ b : ℕ, r.samplingParams.thinkingTokenBudget = some (b : ℤ) →
    (∀ Y0, ¬ Thinking s E r.prompt Y0) → s ∉ r.outputTokenIds → Waiting b r.outputTokenIds e
  begun : ∀ b : ℕ, r.samplingParams.thinkingTokenBudget = some (b : ℤ) →
    SingleSection s E r.prompt r.outputTokenIds → ∀ Y, InSection s E r.prompt r.outputTokenIds Y →
    ¬ E <:+: Y → S s E r.prompt b r.outputTokenIds Y e

def Going (s : ℕ) (E P : List ℕ) (b : ℕ) (O Y : List ℕ) (e : ThinkState) : Prop :=
  Counts s E P b O Y e ∨ ∃ X, Ends s E P b O Y X e

def AddedInTime (s : ℕ) (E : List ℕ) (r : CachedRequestState) : Prop :=
  ∀ b : ℕ, r.samplingParams.thinkingTokenBudget = some (b : ℤ) → ∀ Y,
    Thinking s E (r.prompt ++ r.outputTokenIds) Y → Y.length ≤ b ∨ r.outputTokenIds = []

section

variable {h : ThinkingBudgetStateHolder} {s : ℕ} {E P O Y : List ℕ} {r : CachedRequestState}
  {e : ThinkState}

theorem Settled.going {b} (hset : Settled s E P b O Y e) : Going s E P b O Y e := by
  rcases hset with ⟨hcounts, -, -⟩ | ⟨X, hends, -, -⟩
  · exact .inl hcounts
  · exact .inr ⟨X, hends⟩

theorem InSection.thinking (hsec : InSection s E P O Y) (hE : ¬ E <:+: Y) : Thinking s E
    (P ++ O) Y := by
  have hY := hsec.not_mem
  cases hsec with
  | @prompt O Y0 hthink hO =>
    obtain ⟨A, rfl, -, -⟩ := hthink
    exact ⟨A, by simp, hY, hE⟩
  | @output B Y hP hB hY => exact ⟨P ++ B, by simp, hY, hE⟩

theorem prompt_thinking_iff (hm : Marked h s E) :
    findLastSequenceIndex P h.thinkEndTokenIds < findLastSequenceIndex P h.thinkStartTokenIds ↔
      ∃ Y0, Thinking s E P Y0 := by
  rw [hm.start, hm.finish]
  constructor
  · intro hlt
    by_cases hmem : s ∈ P
    · obtain ⟨A, Y0, rfl, hY0⟩ := exists_last_split hmem
      refine ⟨Y0, A, rfl, hY0, fun hin ↦ ?_⟩
      have hge := findLast_end_ge (s := s) A hm.nonempty hin
      rw [findLast_start A hY0] at hlt
      omega
    · rw [findLast_of_not_mem hmem] at hlt
      rcases findLast_cases (l := P) hm.nonempty with ⟨heq, -⟩ | ⟨i, heq, -, -⟩
      · omega
      · omega
  · rintro ⟨Y0, A, rfl, hY0, hE⟩
    rw [findLast_start A hY0]
    exact findLast_end_lt A hm.nonempty hm.distinct hE

theorem findLast_prompt (hm : Marked h s E) (hthink : Thinking s E P Y) :
    findLastSequenceIndex P h.thinkStartTokenIds = P.length - Y.length - 1 := by
  obtain ⟨A, rfl, hY, -⟩ := hthink
  rw [hm.start, findLast_start A hY, length_append, length_cons]
  push_cast
  omega

theorem knows_outside (hin : AddedInTime s E r) (hP : ∀ Y0, ¬ Thinking s E r.prompt Y0)
    (hplain : ∀ budget, r.samplingParams.thinkingTokenBudget = some budget → Plain r.prompt budget e)
    (hwait : ∀ b : ℕ, r.samplingParams.thinkingTokenBudget = some (b : ℤ) → Waiting b [] e)
    (hend : e.endThinking = -1) : Knows Going s E r e := by
  refine ⟨hplain, fun b hb _ _ ↦ ?_, fun b hb hsingle Y hsec hE ↦ .inl ?_⟩
  · obtain ⟨hstart, hprev, hcount, hending, hcont, -⟩ := hwait b hb
    exact ⟨hstart, hprev, hcount, hending, hcont, by omega⟩
  obtain ⟨hstart, hprev, hcount, hending, hcont, -⟩ := hwait b hb
  have hroom := hin b hb Y (hsec.thinking hE)
  generalize r.outputTokenIds = O at hsec hroom ⊢
  cases hsec with
  | prompt hthink _ => exact absurd hthink (hP _)
  | @output B Y _ hB hY =>
    refine ⟨.unseen hP hB hY hcont (by omega) hstart hprev hcount, hending, ?_, by omega, fun heq ↦ ?_⟩
    · rcases hroom with hroom | hnil
      · exact hroom
      · simp at hnil
    · rw [hprev, length_append, length_cons] at heq
      omega

theorem newEntry_knows (hm : Marked h s E) (hin : AddedInTime s E r) {a}
    (hprompt : a.promptTokIds = r.promptTokenIds) {budget}
    (hbudget : r.samplingParams.thinkingTokenBudget = some budget) :
    Knows Going s E r (h.newEntry a budget).toThinkState := by
  have hsame : ∀ {budget' : ℤ}, r.samplingParams.thinkingTokenBudget = some budget' →
      budget' = budget := fun h' ↦ some.inj (h'.symm.trans hbudget)
  unfold newEntry initStateEntry
  rw [hprompt]
  cases hp : r.promptTokenIds with
  | none =>
    have hnil : r.prompt = [] := by rw [CachedRequestState.prompt, hp]; rfl
    refine knows_outside hin ?_ (fun budget' hb' ↦ ?_) (fun b hb ↦ ?_) rfl
    · rintro Y0 ⟨A, hA, -, -⟩
      rw [hnil] at hA
      simp at hA
    · obtain rfl := hsame hb'
      exact ⟨hnil.symm, rfl, rfl, rfl, fun i hi ↦ by cases hi⟩
    · exact ⟨rfl, rfl, (hsame hb).symm, rfl, rfl, by simp⟩
  | some prompt =>
    have hprompt' : r.prompt = prompt := by rw [CachedRequestState.prompt, hp]; rfl
    dsimp only
    split
    next hlt =>
      obtain ⟨Y0, hthink⟩ := (prompt_thinking_iff hm).mp hlt
      have hstart := findLast_prompt hm hthink
      have hlen := hthink.length_lt
      rw [hstart, hm.start, length_singleton]
      have hcount : (prompt.length : ℤ) - (prompt.length - Y0.length - 1 + (1 : ℕ)) = Y0.length := by
        push_cast
        omega
      rw [hcount]
      refine ⟨fun budget' hb' ↦ ?_, fun b hb hno ↦ ?_, fun b hb hsingle Y hsec hE ↦ ?_⟩
      · obtain rfl := hsame hb'
        exact ⟨hprompt'.symm, rfl, rfl, rfl, fun i hi ↦ by cases hi⟩
      · exact absurd (hprompt'.symm ▸ hthink) (hno Y0)
      obtain rfl := hsame hb
      have hroom := hin b hb Y (hsec.thinking hE)
      rw [hprompt'] at hsec ⊢
      generalize r.outputTokenIds = O at hsec hroom ⊢
      cases hsec with
      | output hno _ _ => exact absurd hthink (hno Y0)
      | @prompt O Y1 hthink1 hO =>
        obtain rfl := hthink.unique hthink1
        rw [length_append] at hroom
        rcases lt_or_ge (Y0.length : ℤ) b with hfew | hmany
        · refine .inl ⟨.prompt hthink hO rfl rfl rfl rfl (by simp), ?_, ?_, Nat.zero_le _, fun _ ↦ ?_⟩
          · exact decide_eq_false (by omega)
          · rw [length_append]
            rcases hroom with hroom | rfl
            · exact hroom
            · simp only [length_nil]
              omega
          · dsimp only
            omega
        · -- the prompt has used up the budget, so nothing has been sampled
          have hnil : O = [] := by
            rcases hroom with hroom | hnil
            · exact length_eq_zero_iff.mp (by omega)
            · exact hnil
          subst hnil
          refine .inr ⟨Y0, ?_, ?_, length_pos_iff.mpr hm.nonempty, by omega, .inr hthink,
            ⟨le_rfl, Nat.zero_le _⟩, le_rfl, ?_⟩
          · exact decide_eq_true (by omega)
          · dsimp only
            omega
          · simp
    next hno =>
      have hno' : ∀ Y0, ¬ Thinking s E r.prompt Y0 := fun Y0 hthink ↦
        hno ((prompt_thinking_iff hm).mpr ⟨Y0, hprompt' ▸ hthink⟩)
      refine knows_outside hin hno' (fun budget' hb' ↦ ?_) (fun b hb ↦ ?_) rfl
      · obtain rfl := hsame hb'
        exact ⟨hprompt'.symm, rfl, rfl, rfl, fun i hi ↦ by cases hi⟩
      · exact ⟨rfl, rfl, (hsame hb).symm, rfl, rfl, by simp⟩

theorem Knows.update (hm : Marked h s E) (hknows : Knows Going s E r e) (inSpecMode) :
    Knows Settled s E r (h.updateThinkState { e with
      outputTokIds := r.outputTokenIds, specTokenIds := [], inSpecMode, forceIndex := [] }) := by
  have hplain : ∀ budget, r.samplingParams.thinkingTokenBudget = some budget →
      Plain r.prompt budget { e with
        outputTokIds := r.outputTokenIds, specTokenIds := [], inSpecMode, forceIndex := [] } := by
    intro budget hb
    have hp := hknows.plain budget hb
    exact ⟨hp.prompt, hp.budget, rfl, hp.bonus, fun i hi ↦ by cases hi⟩
  refine ⟨fun budget hb ↦ (hplain budget hb).updateThinkState (hm.finish ▸ hm.nonempty),
    fun b hb hno hO ↦ ?_, fun b hb hsingle Y hsec hE ↦ ?_⟩
  · obtain ⟨hstart, hprev, hcount, hending, hcont, hbefore⟩ := hknows.waiting b hb hno hO
    exact Waiting.update hm (hplain b hb) rfl ⟨hstart, hprev, hcount, hending, hcont, hbefore⟩ hO
  rcases hknows.begun b hb hsingle Y hsec hE with hcounts | ⟨X, hends⟩
  · refine Counts.update hm (hplain b hb) rfl ⟨?_, hcounts.notEnding, hcounts.room, hcounts.prev,
      hcounts.left⟩ hE
    have hbegun := hcounts.begun
    generalize r.outputTokenIds = O at hbegun ⊢
    cases hbegun with
    | prompt h1 h2 h3 h4 h5 h6 h7 => exact .prompt h1 h2 h3 h4 h5 h6 h7
    | unseen h1 h2 h3 h4 h5 h6 h7 h8 => exact .unseen h1 h2 h3 h4 h5 h6 h7 h8
    | output h1 h2 h3 h4 h5 h6 h7 h8 => exact .output h1 h2 h3 h4 h5 h6 h7 h8
  · exact Ends.update hm (hplain b hb) rfl ⟨hends.ending, hends.begun, hends.within, hends.full,
      hends.bound, hends.prev, hends.forced, hends.tokens⟩ hsec hE

theorem Knows.extend {t} (hknows : Knows Settled s E r e)
    (hforced : e.inEnd = true → e.forceIndex = [0] → e.endCount < E.length →
      E[e.endCount]? = some t) : Knows Going s E (r.extend [t]) e := by
  refine ⟨hknows.plain, fun b hb hno hO ↦ ?_, fun b hb hsingle Y hsec hE ↦ ?_⟩
  · exact (hknows.waiting b hb hno fun hin ↦ hO (mem_append_left _ hin)).append
  change Going s E r.prompt b (r.outputTokenIds ++ [t]) Y e
  rcases hsec.of_append with ⟨Y', hsec', rfl⟩ | ⟨hO, rfl, rfl, hno⟩
  · have hE' : ¬ E <:+: Y' := fun hin ↦ hE (hin.trans (prefix_append Y' [t]).isInfix)
    have hset := hknows.begun b hb (SingleSection.of_append hsingle) Y' hsec' hE'
    refine hset.append hsec fun hending ↦ ?_
    rcases hset with ⟨hcounts, -, -⟩ | ⟨X, hends, -, hforce⟩
    · exact absurd (hcounts.notEnding.symm.trans hending) Bool.false_ne_true
    · exact hforced hending hforce hends.within
  · exact .inl ((hknows.waiting b hb hno hO).begin hno hO)

theorem Knows.extend_nil (hknows : Knows Settled s E r e) : Knows Going s E (r.extend []) e := by
  have heq : r.extend [] = r := by rw [CachedRequestState.extend, append_nil]
  rw [heq]
  exact ⟨hknows.plain, hknows.waiting, fun b hb hsingle Y hsec hE ↦
    (hknows.begun b hb hsingle Y hsec hE).going⟩

end

/-- The conditions on a step: records stay with their requests, no request is added while its end
marker is being forced, and a batch with a budget also needs the output tokens for something else.
-/
def BudgetMeets (logitsprocsNeedOutputTokenIds : Bool) (s : ℕ) (E : List ℕ) (σ : WorkerState)
    (step : WorkerStep) : Prop :=
  (budgetGuards (AddedInTime s E) σ.holder.state.get?).Meets σ.requests σ.batch step ∧
    ∀ b, step.run σ.batch = .ok b →
      (∃ (i : ℕ) (reqId : String) (r : CachedRequestState), b.reqIds[i]? = some (some reqId) ∧
        σ.requests.add step.additions reqId = some r ∧ r.samplingParams.thinkingTokenBudget ≠ none) →
      b.noPenalties = false ∨ b.hasBadWords = true ∨ logitsprocsNeedOutputTokenIds = true

structure Tracked (s : ℕ) (E : List ℕ) (σ : WorkerState) (rows : Rows) : Prop where
  isOpen : Open σ.batch rows
  known : Known σ.requests rows
  builder : σ.batch.batchUpdateBuilder = {}
  fits : ∀ i, Fits (fun r e ↦ Knows Going s E r e.toThinkState) (rows i) (σ.holder.state.get? i)
  gives : ∀ i e, σ.holder.state.get? i = some e → σ.givesOutputTokenIds = true
  limit : σ.holder.maxNumReqs = σ.batch.maxNumReqs ∧ σ.batch.reqIds.length ≤ σ.batch.maxNumReqs
  noDrafts : σ.holder.numSpecTokens = 0

section

variable {logitsprocsNeedOutputTokenIds : Bool} {s : ℕ} {E : List ℕ} {σ : WorkerState} {rows : Rows}

theorem syncBatch_state (h : ThinkingBudgetStateHolder) (update : Option BatchUpdate) :
    h.syncBatch update = { h with state := (h.syncBatch update).state } := by
  cases update <;> rfl

theorem refresh_marked {step b}
    (hm : Marked (σ.refresh logitsprocsNeedOutputTokenIds step b).holder s E) :
    Marked σ.holder s E := by
  change Marked (σ.holder.syncBatch b.refresh.2) s E at hm
  rw [syncBatch_state] at hm
  exact ⟨hm.start, hm.finish, hm.nonempty, hm.distinct⟩

variable {e : ThinkEntry} {tokens : ℕ → Option ℕ}

theorem Fits.entry {R row} (hfits : Fits R row (some e)) :
    ∃ r, row = some r ∧ r.samplingParams.thinkingTokenBudget.isSome ∧ R r e := by
  cases row with
  | none => cases hfits
  | some r => exact ⟨r, rfl, hfits.1, hfits.2⟩

section

variable (htracked : Tracked s E σ rows)

include htracked

theorem Tracked.step {step b} (hm : Marked σ.holder s E)
    (hC : BudgetMeets logitsprocsNeedOutputTokenIds s E σ step) (hstep : step.run σ.batch = .ok b) :
    ∃ rows', Tracked s E (σ.refresh logitsprocsNeedOutputTokenIds step b) rows' := by
  obtain ⟨hmeets, hneeds⟩ := hC
  have hbounded := Bounded.run hstep
  obtain ⟨rows', hopen, hknown, hfits⟩ := step_fits
    (fun r hadd a _ hprompt _ budget hbudget ↦ newEntry_knows hm hadd hprompt hbudget)
    htracked.isOpen htracked.known htracked.builder htracked.fits hmeets hstep
  refine ⟨rows', hopen, hknown, rfl, hfits, fun i e he ↦ ?_, ⟨?_, ?_⟩, ?_⟩
  · change (σ.holder.syncBatch b.refresh.2).state.get? i = some e at he
    change (if b.refresh.2.isSome then _ else σ.givesOutputTokenIds) = true
    split
    · -- the metadata are made anew
      have hfit := hfits i
      rw [he] at hfit
      obtain ⟨r, hr, hbudget, -⟩ := hfit.entry
      have hrow : b.reqIds[i]? = some (some r.reqId) := reqIds_of_row hopen.ids hr
      unfold InputBatch.needsOutputTokenIds
      rcases hneeds b hstep ⟨i, r.reqId, r, hrow, hknown i r hr,
        isSome_iff_ne_none.mp hbudget⟩ with hpen | hbad | hproc
      · simp [hpen]
      · simp [hbad]
      · simp [hproc]
    next hnone =>
      rw [not_isSome_iff_eq_none] at hnone
      rw [hnone] at he
      exact htracked.gives i e he
  · change (σ.holder.syncBatch b.refresh.2).maxNumReqs = b.maxNumReqs
    rw [syncBatch_state, hbounded.limit]
    exact htracked.limit.1
  · change b.reqIds.length ≤ b.maxNumReqs
    rw [hbounded.limit]
    exact hbounded.length htracked.limit.2
  · change (σ.holder.syncBatch b.refresh.2).numSpecTokens = 0
    rw [syncBatch_state]
    exact htracked.noDrafts

theorem Tracked.numReqs : σ.batch.numReqs = σ.batch.reqIds.length := by
  have hsize := htracked.isOpen.size_eq
  rw [htracked.builder] at hsize
  exact hsize

theorem Tracked.row_lt {i r} (hr : rows i = some r) : i < σ.batch.numReqs := by
  rw [htracked.numReqs]
  exact htracked.isOpen.lt_of_some hr

theorem Tracked.updated_get? (hm : Marked σ.holder s E) {i e} (he : σ.updated.state.get? i = some e) :
    ∃ r, rows i = some r ∧ Knows Settled s E r e.toThinkState := by
  rw [updated, updateState, get?_mapValues] at he
  obtain ⟨e0, he0, rfl⟩ := map_eq_some_iff.mp he
  have hfit := htracked.fits i
  rw [he0] at hfit
  obtain ⟨r, hr, hbudget, hknows⟩ := hfit.entry
  refine ⟨r, hr, ?_⟩
  have hout : σ.outputTokenIds[i]? = some r.outputTokenIds := by
    have hrow := htracked.isOpen.outputs i
    rw [hr, map_some, join_eq_some_iff] at hrow
    rw [outputTokenIds, if_pos (htracked.gives i e0 he0), getElem?_map, hrow]
    rfl
  have hspec : (replicate σ.batch.numReqs ([] : List ℕ))[i]?.getD [] = [] := by
    rw [getElem?_replicate]
    split <;> rfl
  unfold refreshEntry
  simp only [outputRow, bind_some, hout, hspec]
  rw [if_neg (by simp)]
  exact hknows.update hm _

theorem Tracked.updated_plain (hm : Marked σ.holder s E) (i)
    (e : ThinkEntry) (he : σ.updated.state.get? i = some e) :
    ∃ P budget, Plain P budget e.toThinkState := by
  obtain ⟨r, hr, hknows⟩ := htracked.updated_get? hm he
  rw [updated, updateState, get?_mapValues] at he
  obtain ⟨e0, he0, rfl⟩ := map_eq_some_iff.mp he
  have hfit := htracked.fits i
  rw [he0, hr] at hfit
  obtain ⟨budget, hbudget⟩ := isSome_iff_exists.mp hfit.1
  exact ⟨_, budget, hknows.plain budget hbudget⟩

end

theorem hasTrackedRequests_of_get? {h : ThinkingBudgetStateHolder} {i}
    (he : h.state.get? i = some e) : h.hasTrackedRequests = true := by
  rw [hasTrackedRequests, decide_eq_true_eq]
  intro hnil
  rw [get?_eq_some, hnil] at he
  cases he

theorem Tracked.forced_eq (htracked : Tracked s E σ rows) (hm : Marked σ.holder s E) {i token}
    (he : σ.updated.state.get? i = some e) (hending : e.inEnd = true)
    (hforce : e.forceIndex = [0]) (htoken : E[e.endCount]? = some token) :
    σ.forced i = some token := by
  obtain ⟨r, hr, -⟩ := htracked.updated_get? hm he
  have hlt := htracked.row_lt hr
  have he0 : ∃ e0, σ.holder.state.get? i = some e0 := by
    rw [updated, updateState, get?_mapValues] at he
    obtain ⟨e0, he0, -⟩ := map_eq_some_iff.mp he
    exact ⟨e0, he0⟩
  obtain ⟨e0, he0⟩ := he0
  rw [forced, if_pos (hasTrackedRequests_of_get? he0)]
  refine forcedTokens_eq htracked.noDrafts (htracked.updated_plain hm) he hlt ?_ hending hforce ?_
  · change i < σ.holder.maxNumReqs
    have hlimit := htracked.limit
    rw [htracked.numReqs] at hlt
    omega
  · change σ.holder.thinkEndTokenIds[e.endCount]? = some token
    rw [hm.finish]
    exact htoken

theorem Tracked.sample (htracked : Tracked s E σ rows) (hm : Marked σ.holder s E)
    (hforced : ∀ i t, tokens i = some t → ∀ token, σ.forced i = some token → t = token) :
    Tracked s E (σ.sample tokens) (rows.extend tokens) := by
  -- the records after the step are those after `update_state`
  have hstate : ∀ i, (σ.sample tokens).holder.state.get? i = σ.updated.state.get? i := by
    intro i
    change (if σ.holder.hasTrackedRequests then _ else σ.holder).state.get? i = _
    split
    next htrack =>
      rw [applyToLogits, get?_mapValues]
      cases he : σ.updated.state.get? i with
      | none => rfl
      | some e =>
        obtain ⟨P, budget, hplain⟩ := htracked.updated_plain hm i e he
        rw [map_some, (forcing_of_plain hplain).1]
    next hnone =>
      rw [updated, updateState, get?_mapValues]
      cases he : σ.holder.state.get? i with
      | none => rfl
      | some e => exact absurd (hasTrackedRequests_of_get? he) hnone
  have hsome : ∀ i, (∃ e, σ.updated.state.get? i = some e) ↔ ∃ e, σ.holder.state.get? i = some e := by
    intro i
    rw [updated, updateState, get?_mapValues]
    cases σ.holder.state.get? i <;> simp
  refine ⟨htracked.isOpen.bookkeep htracked.builder tokens,
    htracked.known.bookkeep htracked.isOpen tokens, htracked.builder, fun i ↦ ?_, fun i e he ↦ ?_,
    ⟨?_, htracked.limit.2⟩, ?_⟩
  · rw [hstate, Rows.extend]
    cases he : σ.updated.state.get? i with
    | none =>
      have hnone : σ.holder.state.get? i = none := by
        cases h0 : σ.holder.state.get? i with
        | none => rfl
        | some e0 =>
          obtain ⟨e, he'⟩ := (hsome i).mpr ⟨e0, h0⟩
          rw [he] at he'
          cases he'
      have hfit := htracked.fits i
      rw [hnone] at hfit
      cases hr : rows i with
      | none => rfl
      | some r =>
        rw [hr] at hfit
        exact hfit
    | some e =>
      obtain ⟨e0, he0⟩ := (hsome i).mp ⟨e, he⟩
      obtain ⟨r, hr, hknows⟩ := htracked.updated_get? hm he
      have hfit := htracked.fits i
      rw [he0, hr] at hfit
      rw [hr]
      refine ⟨hfit.1, ?_⟩
      cases ht : tokens i with
      | none => exact hknows.extend_nil
      | some t =>
        refine hknows.extend fun hending hforce hlt ↦ ?_
        have htoken := getElem?_eq_getElem hlt
        rw [hforced i t ht _ (htracked.forced_eq hm he hending hforce htoken)]
        exact htoken
  · rw [hstate] at he
    obtain ⟨e0, he0⟩ := (hsome i).mp ⟨e, he⟩
    exact htracked.gives i e0 he0
  · change (if σ.holder.hasTrackedRequests then _ else σ.holder).maxNumReqs = σ.batch.maxNumReqs
    split <;> exact htracked.limit.1
  · change (if σ.holder.hasTrackedRequests then _ else σ.holder).numSpecTokens = 0
    split <;> exact htracked.noDrafts

theorem sample_marked (hm : Marked (σ.sample tokens).holder s E) : Marked σ.holder s E := by
  unfold sample at hm
  split at hm
  · exact ⟨hm.start, hm.finish, hm.nonempty, hm.distinct⟩
  · exact hm

theorem SamplingRun.tracked
    (hrun : SamplingRun logitsprocsNeedOutputTokenIds (BudgetMeets logitsprocsNeedOutputTokenIds s E) σ)
    (hm : Marked σ.holder s E) : ∃ rows, Tracked s E σ rows := by
  induction hrun with
  | new maxNumReqs vocabSize blocksPerKvBlock starts ends =>
    refine ⟨fun _ ↦ none, Open.new rfl rfl rfl rfl, fun i r hr ↦ ?_, rfl, fun i ↦ rfl, fun i e he ↦ rfl,
      ⟨rfl, Nat.zero_le _⟩, rfl⟩
    cases hr
  | step step _ hC hstep ih =>
    have hm0 := refresh_marked hm
    obtain ⟨rows, htracked⟩ := ih hm0
    exact htracked.step hm0 hC hstep
  | sample tokens _ _ hforced ih =>
    have hm0 := sample_marked hm
    obtain ⟨rows, htracked⟩ := ih hm0
    exact ⟨_, htracked.sample hm0 hforced⟩

end

/-- When a request has used up its budget inside its thinking section, its row is forced to the
first token of the end marker; and it has produced at most that many tokens, or those of the prompt,
and then a part of the end marker. -/
structure BudgetKept (s : ℕ) (E : List ℕ) (σ : WorkerState) (i : ℕ) (r : CachedRequestState) (b : ℕ) :
    Prop where
  forced : ∀ Y, Thinking s E (r.prompt ++ r.outputTokenIds) Y →
    Y.length = b ∨ r.outputTokenIds = [] ∧ b ≤ Y.length → σ.forced i = E.head?
  bounded : ∀ Y, Thinking s E (r.prompt ++ r.outputTokenIds) Y →
    ∃ X j, Y = X ++ E.take j ∧ j < E.length ∧ (X.length ≤ b ∨ Thinking s E r.prompt X)

theorem thinking_budget_kept {logitsprocsNeedOutputTokenIds : Bool} {s : ℕ} {E : List ℕ}
    {σ : WorkerState}
    (hrun : SamplingRun logitsprocsNeedOutputTokenIds (BudgetMeets logitsprocsNeedOutputTokenIds s E) σ)
    (hm : Marked σ.holder s E) {i : ℕ} {reqId : String} {r : CachedRequestState} {b : ℕ}
    (hrow : σ.batch.reqIds[i]? = some (some reqId)) (hreq : σ.requests reqId = some r)
    (hbudget : r.samplingParams.thinkingTokenBudget = some (b : ℤ))
    (hsingle : SingleSection s E r.prompt r.outputTokenIds) : BudgetKept s E σ i r b := by
  obtain ⟨rows, htracked⟩ := hrun.tracked hm
  have hr : rows i = some r := by
    have hids := htracked.isOpen.ids i
    rw [hrow] at hids
    obtain ⟨r', hr', rfl⟩ := map_eq_some_iff.mp hids.symm
    rw [hr', ← hreq]
    exact (htracked.known i r' hr').symm
  have hfit := htracked.fits i
  rw [hr] at hfit
  cases he0 : σ.holder.state.get? i with
  | none =>
    rw [he0] at hfit
    rw [show r.samplingParams.thinkingTokenBudget = none from hfit] at hbudget
    cases hbudget
  | some e0 =>
    rw [he0] at hfit
    refine ⟨fun Y hthink hfull ↦ ?_, fun Y hthink ↦ ?_⟩
    · obtain ⟨hsec, hE⟩ := hthink.inSection hsingle
      obtain ⟨e, he⟩ : ∃ e, σ.updated.state.get? i = some e := by
        rw [updated, updateState, get?_mapValues, he0]
        exact ⟨_, rfl⟩
      obtain ⟨r', hr', hknows⟩ := htracked.updated_get? hm he
      obtain rfl := some.inj (hr.symm.trans hr')
      rcases hknows.begun b hbudget hsingle Y hsec hE with ⟨hcounts, hprev, hlt⟩ | ⟨X, hends, hprev, hforce⟩
      · omega
      have htokens := hends.tokens
      rw [hprev, Nat.sub_self, Nat.add_zero] at htokens
      have hlen := congrArg length htokens
      rw [length_append, length_take] at hlen
      have hwithin := hends.within
      have hXfull := hends.full
      have hshort := hends.forced
      have hzero : e.endCount = 0 := by
        rcases hfull with hfull | ⟨hnil, hfull⟩
        · omega
        · rw [hprev, hnil] at hshort
          exact Nat.le_zero.mp hshort
      obtain ⟨t, E', rfl⟩ := exists_cons_of_ne_nil hm.nonempty
      exact htracked.forced_eq hm he hends.ending hforce (by rw [hzero]; rfl)
    · obtain ⟨hsec, hE⟩ := hthink.inSection hsingle
      rcases hfit.2.begun b hbudget hsingle Y hsec hE with hcounts | ⟨X, hends⟩
      · exact ⟨Y, 0, by simp, length_pos_iff.mpr hm.nonempty, .inl hcounts.room⟩
      refine ⟨X, _, hends.tokens, ?_, hends.bound⟩
      by_contra hge
      refine hE ⟨X, [], ?_⟩
      rw [hends.tokens, take_of_length_le (by omega), append_nil]

theorem SamplingRun.sample_first {logitsprocsNeedOutputTokenIds C σ} (t)
    (hrun : SamplingRun logitsprocsNeedOutputTokenIds C σ) (hrow : 0 < σ.batch.numReqs)
    (hforced : ∀ token, σ.forced 0 = some token → t = token) :
    SamplingRun logitsprocsNeedOutputTokenIds C
      (σ.sample fun i ↦ if i = 0 then some t else none) := by
  refine .sample _ hrun (fun i t' ht ↦ ?_) (fun i t' ht token htoken ↦ ?_)
  · split at ht
    next hi => exact hi ▸ hrow
    next => cases ht
  split at ht
  next hi =>
    subst hi
    cases ht
    exact hforced token htoken
  next => cases ht

/-- A request with a budget of one token and a penalty, whose prompt ends with the start marker. -/
theorem thinking_budget_kept_with_penalty :
    ∃ σ r, SamplingRun false (BudgetMeets false 8 [9]) σ ∧ σ.requests "a" = some r ∧
      r.prompt ++ r.outputTokenIds = [1, 8, 5] ∧ σ.forced 0 = some 9 ∧ BudgetKept 8 [9] σ 0 r 1 := by
  have hadd : SamplingRun false (BudgetMeets false 8 [9]) _ :=
    .step { additions := [{ reqId := "a", promptTokenIds := some [1, 8], samplingParams :=
        { frequencyPenalty := 1, thinkingTokenBudget := some 1 } }] }
      (.new 4 10 (fun _ ↦ 1) [8] [9])
      ⟨.intro rfl ⟨⟨rfl, fun _ _ _ _ ↦ .inr rfl⟩, fun _ _ ↦ trivial⟩ rfl
        (fun _ _ _ _ _ _ _ i hi ↦ absurd hi not_mem_nil) rfl trivial,
        fun b hb _ ↦ .inl (by
          cases hb
          decide)⟩
      rfl
  have hrun := hadd.sample_first 5 (by decide) (by decide)
  exact ⟨_, _, hrun, rfl, rfl, rfl, thinking_budget_kept hrun ⟨rfl, rfl, by decide, by decide⟩ rfl rfl
    rfl ⟨fun _ _ ↦ by decide, by decide⟩⟩

/-- Without a penalty nothing is forced; and with one, nothing is forced in a second section. -/
theorem thinking_budget_exceeded :
    let stays := fun (σ : WorkerState) (step : WorkerStep) ↦
      (budgetGuards (AddedInTime 8 [9]) σ.holder.state.get?).Meets σ.requests σ.batch step
    (∃ σ r, SamplingRun false stays σ ∧ σ.requests "a" = some r ∧
      r.samplingParams.thinkingTokenBudget = some 1 ∧ r.prompt ++ r.outputTokenIds = [1, 8, 5, 6] ∧
      SingleSection 8 [9] r.prompt r.outputTokenIds ∧ σ.forced 0 = none ∧
      ¬ BudgetKept 8 [9] σ 0 r 1) ∧
    ∃ σ r, SamplingRun false (BudgetMeets false 8 [9]) σ ∧ σ.requests "a" = some r ∧
      r.samplingParams.thinkingTokenBudget = some 1 ∧
      r.prompt ++ r.outputTokenIds = [1, 8, 5, 9, 8, 6] ∧ σ.forced 0 = none ∧
      ¬ BudgetKept 8 [9] σ 0 r 1 := by
  intro stays
  have hadd : SamplingRun false stays _ :=
    .step { additions := [{ reqId := "a", promptTokenIds := some [1, 8], samplingParams :=
        { thinkingTokenBudget := some 1 } }] }
      (.new 4 10 (fun _ ↦ 1) [8] [9])
      (.intro rfl ⟨⟨rfl, fun _ _ _ _ ↦ .inr rfl⟩, fun _ _ ↦ trivial⟩ rfl
        (fun _ _ _ _ _ _ _ i hi ↦ absurd hi not_mem_nil) rfl trivial)
      rfl
  have hpenalty : SamplingRun false (BudgetMeets false 8 [9]) _ :=
    .step { additions := [{ reqId := "a", promptTokenIds := some [1], samplingParams :=
        { frequencyPenalty := 1, thinkingTokenBudget := some 1 } }] }
      (.new 4 10 (fun _ ↦ 1) [8] [9])
      ⟨.intro rfl ⟨⟨rfl, fun _ _ _ _ ↦ .inr rfl⟩, fun _ _ ↦ trivial⟩ rfl
        (fun _ _ _ _ _ _ _ i hi ↦ absurd hi not_mem_nil) rfl trivial,
        fun b hb _ ↦ .inl (by
          cases hb
          decide)⟩
      rfl
  have hone := (hadd.sample_first 5 (by decide) (by decide)).sample_first 6 (by decide) (by decide)
  have htwo := ((((hpenalty.sample_first 8 (by decide) (by decide)).sample_first 5 (by decide)
    (by decide)).sample_first 9 (by decide) (by decide)).sample_first 8 (by decide)
    (by decide)).sample_first 6 (by decide) (by decide)
  refine ⟨⟨_, _, hone, rfl, rfl, rfl, ⟨fun _ _ ↦ by decide, by decide⟩, rfl, fun hkept ↦ ?_⟩,
    _, _, htwo, rfl, rfl, rfl, rfl, fun hkept ↦ ?_⟩
  · obtain ⟨X, j, hX, hj, hbound⟩ := hkept.bounded [5, 6] ⟨[1], rfl, by decide, by decide⟩
    obtain rfl : j = 0 := Nat.lt_one_iff.mp hj
    rw [take_zero, append_nil] at hX
    rw [← hX] at hbound
    rcases hbound with hlen | ⟨A, hA, -⟩
    · exact absurd hlen (by decide)
    have hlen := congrArg length hA
    rw [length_append] at hlen
    change 2 = A.length + 3 at hlen
    omega
  · have hforced := hkept.forced [6] ⟨[1, 8, 5, 9], rfl, by decide, by decide⟩ (.inl rfl)
    exact absurd hforced (by decide)

end VllmEngine.Worker

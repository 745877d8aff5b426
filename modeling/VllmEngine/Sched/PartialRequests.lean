import VllmEngine.Core.PoolRun
import VllmEngine.Sched.StepSpecs
import Mathlib.Logic.Relation

namespace VllmEngine.Sched

open Lib VllmEngine.Core BlockPool Relation SchedRequest

variable {H : Hashing} {cfg : EngineConfig} {r : EngineRequest} {st st' : RequestState}

/-- The prompt leaves room for the tokens below `min_tokens`, and for one in any case. -/
def SchedRequest.Fits (maxModelLen : ℕ) (r : SchedRequest) : Prop :=
  r.numPromptTokens + max 1 r.samplingParams.minTokens ≤ maxModelLen

/-- An action that does not let a session grow too long. -/
def Acts (H : Hashing) (cfg : EngineConfig) (st st' : RequestState) : Prop :=
  ∃ op : ReqOp, op.run H cfg st = .ok st' ∧
    (st.request.Fits cfg.maxModelLen → st'.request.Fits cfg.maxModelLen)

/-- A request as the input processor lets it through. -/
structure EngineRequest.Admitted (cfg : EngineConfig) (r : EngineRequest) : Prop where
  fresh : r.Fresh
  prompt : r.numTokens = r.numPromptTokens
  length : r.promptTokenIds.length = r.numPromptTokens
  short : r.numPromptTokens ≤ cfg.maxModelLen

/-- Where a running request without placeholders has tokens left, a turn of it schedules one. -/
def EngineRequest.GetsToken (cfg : EngineConfig) (r : EngineRequest) : Prop :=
  r.status = .running → r.numOutputPlaceholders = 0 → r.numComputedTokens < r.numTokens →
    ∀ tokenBudget, 0 < tokenBudget →
      1 ≤ numNewTokensRunning cfg.toSchedulerConfig ⟨tokenBudget, none⟩ r.toSchedRequest

namespace SchedRequest

variable {cfg : SchedulerConfig} {r : SchedRequest} {maxModelLen : ℕ}

structure Bounded (maxModelLen : ℕ) (r : SchedRequest) : Prop where
  prompt : r.numPromptTokens ≤ r.promptTokenIds.length
  room : r.status.isFinished = false → r.status ≠ .waitingForStreamingReq →
    r.numTokens + max 1 (r.samplingParams.minTokens - r.outputTokenIds.length) ≤ maxModelLen

theorem Bounded.room_of {status} (h : r.Bounded maxModelLen) (hst : r.status = status)
    (hgo : status.isFinished = false) (hne : status ≠ .waitingForStreamingReq) :
    r.numTokens + max 1 (r.samplingParams.minTokens - r.outputTokenIds.length) ≤ maxModelLen :=
  h.room (hst ▸ hgo) (hst ▸ hne)

theorem checkStop_none (h : checkStop cfg r = none) (hne : r.outputTokenIds ≠ []) :
    r.outputTokenIds.length < r.samplingParams.minTokens ∨ r.numTokens < cfg.maxModelLen := by
  unfold checkStop at h
  split at h
  next hmin => exact .inl hmin
  split at h
  next hnone => exact absurd (List.getLast?_eq_none_iff.mp hnone) hne
  iterate 2
    split at h
    · cases h
  split at h
  · cases h
  next hlen => exact .inr (by omega)

theorem Bounded.updateRequestWithOutput (h : r.Bounded cfg.maxModelLen) (generated : List ℕ) :
    (updateRequestWithOutput H cfg r generated).1.Bounded cfg.maxModelLen := by
  induction generated generalizing r with
  | nil => exact h
  | cons tokenId tokenIds ih =>
    unfold SchedRequest.updateRequestWithOutput
    dsimp only
    split
    next hstop =>
      exact ⟨h.prompt, fun hgo ↦ absurd hgo (by simp [checkStop_finished hstop])⟩
    next hnone =>
      refine ih ⟨h.prompt, fun hgo hne ↦ ?_⟩
      have hroom := h.room hgo hne
      have htokens : (appendOutputTokenId H cfg r tokenId).numTokens = r.numTokens + 1 :=
        List.length_append
      have houtput : (appendOutputTokenId H cfg r tokenId).outputTokenIds.length =
        r.outputTokenIds.length + 1 := List.length_append
      have hmin : (appendOutputTokenId H cfg r tokenId).samplingParams = r.samplingParams := rfl
      rcases checkStop_none hnone (by simp [appendOutputTokenId]) with hlt | hlt
      · rw [hmin] at hlt ⊢
        omega
      · rw [hmin]
        omega

theorem Bounded.session (h : r.Bounded maxModelLen) (update : StreamingUpdate)
    (hfits : (updateRequestAsSession H cfg r update).Fits maxModelLen) :
    (updateRequestAsSession H cfg r update).Bounded maxModelLen := by
  have htokens := updateRequestAsSession_numTokens H cfg r update
  have hprompt : (updateRequestAsSession H cfg r update).numPromptTokens = r.promptTokenIds.length +
      (min r.numTokens r.numComputedTokens - r.numPromptTokens) + update.promptTokenIds.length := by
    change (r.promptTokenIds ++ (r.allTokenIds.take _).drop _ ++ _).length = _
    rw [List.length_append, List.length_append, List.length_drop, List.length_take, min_comm]
    rfl
  have hle := h.prompt
  have hnum : (updateRequestAsSession H cfg r update).numTokens ≤
      (updateRequestAsSession H cfg r update).numPromptTokens := by omega
  refine ⟨le_rfl, fun _ _ ↦ ?_⟩
  unfold SchedRequest.Fits at hfits
  omega

theorem Bounded.handleStoppedRequest (h : r.Bounded maxModelLen)
    (hfits : (handleStoppedRequest H cfg r).1.Fits maxModelLen) :
    (handleStoppedRequest H cfg r).1.Bounded maxModelLen := by
  unfold SchedRequest.handleStoppedRequest at hfits ⊢
  split at hfits
  next hres =>
    rw [if_pos hres]
    split at hfits
    · exact ⟨h.prompt, h.room⟩
    next update rest _ =>
      exact Bounded.session (r := { r with streamingQueue := some rest })
        ⟨h.prompt, h.room⟩ update hfits
    · exact ⟨h.prompt, fun _ hne ↦ absurd rfl hne⟩
    · exact ⟨h.prompt, fun _ hne ↦ absurd rfl hne⟩
  next hres =>
    rw [if_neg hres]
    exact h

end SchedRequest

namespace EngineRequest

theorem updateAfterSchedule_bounded {n spec} (h : r.Bounded cfg.maxModelLen) :
    (updateAfterSchedule cfg n spec r).Bounded cfg.maxModelLen := by
  unfold updateAfterSchedule
  dsimp only
  split <;> exact ⟨h.prompt, h.room⟩

theorem updateRequestWithOutput_bounded {generated out} (h : r.Bounded cfg.maxModelLen)
    (hout : r.updateRequestWithOutput H cfg generated = .ok out) : out.1.Bounded cfg.maxModelLen := by
  have hsched := h.updateRequestWithOutput (H := H) generated
  unfold updateRequestWithOutput at hout
  split at hout
  · cases hout
    exact h
  split at hout
  · cases hout
    exact ⟨h.prompt, h.room⟩
  dsimp only at hout
  split at hout
  · cases hout
    exact hsched
  split at hout
  · cases hout
  · cases hout
    exact ⟨hsched.prompt, hsched.room⟩

theorem applyOutput_bounded {s generated grammarAccepts out} (h : r.Bounded cfg.maxModelLen)
    (happ : r.applyOutput H cfg s generated grammarAccepts = .ok out) :
    out.1.Bounded cfg.maxModelLen := by
  unfold applyOutput at happ
  obtain ⟨r1, hr1, happ⟩ := of_bind_eq_ok happ
  obtain ⟨out1, hout1, happ⟩ := of_bind_eq_ok happ
  have hout : out1.1.Bounded cfg.maxModelLen := by
    unfold rejectDrafts at hr1
    split at hr1
    · cases hr1
    split at hr1
    · cases hr1
    · cases hr1
      refine updateRequestWithOutput_bounded ?_ hout1
      exact ⟨h.prompt, h.room⟩
  split at happ
  · cases happ
    exact ⟨hout.prompt, nofun⟩
  · cases happ
    exact hout

end EngineRequest

theorem SchedRequest.Bounded.move {op} (h : st.request.Bounded cfg.maxModelLen)
    (hfits : st'.request.Fits cfg.maxModelLen) (hmove : Move H cfg st op st') :
    st'.request.Bounded cfg.maxModelLen := by
  cases hmove with
  | running hs =>
    unfold EngineRequest.scheduleRunning at hs
    dsimp only at hs
    split at hs
    · cases hs
      exact EngineRequest.updateAfterSchedule_bounded ⟨h.prompt, h.room⟩
    · cases hs
  | waiting hs =>
    unfold EngineRequest.scheduleWaiting at hs
    dsimp only at hs
    split at hs
    · cases hs
    split at hs
    next hc =>
      cases hs
      refine EngineRequest.updateAfterSchedule_bounded ⟨h.prompt, fun _ _ ↦ ?_⟩
      exact hc.1.elim (h.room_of · rfl nofun) (h.room_of · rfl nofun)
    · cases hs
  | preempt hst | forcePreempt hst | remoteLoaded hst | grammarReady hst =>
    exact ⟨h.prompt, fun _ _ ↦ h.room_of hst rfl nofun⟩
  | output hret hgo happ =>
    have hout := EngineRequest.applyOutput_bounded h happ
    dsimp only at hfits ⊢
    split at hfits
    next hstop =>
      rw [if_pos hstop]
      exact hout.handleStoppedRequest hfits
    next hstop =>
      rw [if_neg hstop]
      exact hout
  | late hret hfin => exact h
  | outputInvalid | invalidBlocks | queued => exact ⟨h.prompt, h.room⟩
  | drafts hsync =>
    dsimp only [updateDraftTokenIds]
    split <;> exact ⟨h.prompt, h.room⟩
  | session hst => exact h.session _ hfits
  | sessionEnd hst => exact ⟨h.prompt, nofun⟩
  | loadRemote hst hzero hle =>
    exact ⟨h.prompt, fun _ _ ↦ hst.elim (h.room_of · rfl nofun) (h.room_of · rfl nofun)⟩
  | finish hgo hfin => exact ⟨h.prompt, fun hgo' ↦ absurd hgo' (by simp [hfin])⟩

theorem SchedRequest.Bounded.getsToken (hsplit : cfg.needMambaBlockAlignedSplit = false)
    (h : r.Bounded cfg.maxModelLen) : r.GetsToken cfg := by
  intro hrun hnone hleft tokenBudget hbudget
  have hroom := h.room_of hrun rfl nofun
  simp only [numNewTokensRunning, splitForMamba, hsplit, Budget.limitEncoder, longPrefillLimit,
    numTokensWithSpec, hnone, Bool.false_eq_true, if_false]
  split <;> omega

/-- All of a prompt of `max_model_len` tokens but two are found; the next is scheduled, and the last
one cannot be. -/
theorem EngineRequest.Admitted.stuck (hsplit : cfg.needMambaBlockAlignedSplit = false)
    (hchunked : cfg.enableChunkedPrefill = true) (hlen : 2 ≤ cfg.maxModelLen) (hr : r.Admitted cfg)
    (hw : r.status = .waiting) (hfull : r.numPromptTokens = cfg.maxModelLen) :
    ∃ st, ReflTransGen (Acts H cfg) ⟨r, []⟩ st ∧ ¬ st.request.GetsToken cfg := by
  have htokens := hr.prompt
  obtain ⟨-, hzero, hnone, -⟩ := hr.fresh
  let r1 : EngineRequest := { r with status := .running, numComputedTokens := cfg.maxModelLen - 2 }
  have hchunk : cfg.maxModelLen - 2 + 1 < r.numTokens := by omega
  have hafter : updateAfterSchedule cfg 1 [] r1 =
      { r1 with toSchedRequest := r1.toSchedRequest.updateAfterSchedule 1 } := by
    have hlt : (r1.toSchedRequest.updateAfterSchedule 1).isPrefillChunk = true :=
      decide_eq_true (Nat.lt_add_right _ hchunk)
    exact if_neg fun hc ↦ Bool.false_ne_true (hc.2.symm.trans hlt)
  have hone : numNewTokensWaiting cfg.toSchedulerConfig ⟨1, none⟩ r.toSchedRequest
      (cfg.maxModelLen - 2) = some 1 := by
    simp only [numNewTokensWaiting, splitForMamba, hsplit, Budget.limitEncoder, longPrefillLimit,
      hchunked, Bool.true_eq_false, false_and, Bool.false_eq_true, if_false, Option.some.injEq]
    split <;> omega
  have hact : ReqOp.run H cfg ⟨r, []⟩ (.scheduleWaiting ⟨1, none⟩ (cfg.maxModelLen - 2)) = .ok
      ⟨updateAfterSchedule cfg 1 [] r1, [⟨1, [], (updateAfterSchedule cfg 1 [] r1).isPrefillChunk,
        false, false⟩]⟩ := by
    have hstart : r.startTokens (cfg.maxModelLen - 2) = cfg.maxModelLen - 2 := if_pos hzero
    simp only [ReqOp.run, scheduleWaiting, hstart, hone]
    rw [if_pos ⟨.inl hw, by omega, Int.one_pos⟩]
    rfl
  rw [hafter] at hact
  refine ⟨_, .single ⟨_, hact, fun hfits ↦ ?_⟩, fun hgets ↦ ?_⟩
  · unfold SchedRequest.Fits at hfits
    dsimp only at hfits
    omega
  · have hcomputed : (r1.toSchedRequest.updateAfterSchedule 1).numComputedTokens =
      cfg.maxModelLen - 2 + 1 := rfl
    have hone := hgets rfl hnone hchunk 1 one_pos
    simp only [numNewTokensRunning, splitForMamba, hsplit, Budget.limitEncoder, Bool.false_eq_true,
      if_false] at hone
    omega

/-- In runs whose sessions stay short enough no request gets stuck whose prompt leaves room for the
tokens below `min_tokens`, and for one in any case. -/
theorem partial_requests_get_tokens (hsplit : cfg.needMambaBlockAlignedSplit = false)
    (hr : r.Admitted cfg) :
    (r.Fits cfg.maxModelLen →
      ∀ st, ReflTransGen (Acts H cfg) ⟨r, []⟩ st → st.request.GetsToken cfg) ∧
    (cfg.enableChunkedPrefill = true → 2 ≤ cfg.maxModelLen → r.status = .waiting →
      (∀ st, ReflTransGen (Acts H cfg) ⟨r, []⟩ st → st.request.GetsToken cfg) →
      r.numPromptTokens < cfg.maxModelLen) := by
  refine ⟨fun hfits st hreach ↦ ?_, fun hchunked hlen hw hall ↦ ?_⟩
  · suffices h : st.request.Bounded cfg.maxModelLen ∧ st.request.Fits cfg.maxModelLen from
      h.1.getsToken hsplit
    induction hreach with
    | refl =>
      refine ⟨⟨hr.length.ge, fun _ _ ↦ ?_⟩, hfits⟩
      dsimp only
      rw [hr.prompt]
      unfold SchedRequest.Fits at hfits
      omega
    | tail _ hact ih =>
      obtain ⟨op, hrun, hkeeps⟩ := hact
      exact ⟨ih.1.move (hkeeps ih.2) (ReqOp.move hrun), hkeeps ih.2⟩
  · refine lt_of_le_of_ne hr.short fun hfull ↦ ?_
    obtain ⟨st, hreach, hstuck⟩ := hr.stuck (H := H) hsplit hchunked hlen hw hfull
    exact hstuck (hall st hreach)

def pooled (tokens : List ℕ) : EngineRequest where
  requestId := "a"
  allTokenIds := tokens
  promptTokenIds := tokens
  numPromptTokens := tokens.length
  maxTokens := 1

def shortModel : EngineConfig where
  blockSize := 4
  maxModelLen := 4

theorem partial_request_gets_token_of_short_prompt :
    ∃ st, ReflTransGen (Acts byteHashing shortModel) ⟨pooled [1, 2, 3], []⟩ st ∧
      st.request.status = .running ∧ st.request.numComputedTokens = 2 ∧
      st.request.GetsToken shortModel := by
  have hr : (pooled [1, 2, 3]).Admitted shortModel :=
    ⟨⟨.inl rfl, rfl, rfl, rfl, rfl, rfl, by decide⟩, rfl, rfl, by decide⟩
  have hreach : ReflTransGen (Acts byteHashing shortModel) ⟨pooled [1, 2, 3], []⟩ _ :=
    .single ⟨.scheduleWaiting ⟨2, none⟩ 0, rfl, id⟩
  exact ⟨_, hreach, rfl, rfl, (partial_requests_get_tokens rfl hr).1 le_rfl _ hreach⟩

/-- After a first chunk of three tokens, nothing is left to schedule for the last one. -/
theorem last_prompt_token_never_scheduled : ∃ st, ReqOp.runAll byteHashing shortModel
        [.scheduleWaiting ⟨3, none⟩ 0, .output [] true] ⟨pooled [1, 2, 3, 4], []⟩ = .ok st ∧
      st.request.status = .running ∧ st.request.numOutputPlaceholders = 0 ∧
      st.request.numComputedTokens = 3 ∧ st.request.numTokens = 4 ∧
      numNewTokensRunning shortModel.toSchedulerConfig ⟨16, none⟩ st.request.toSchedRequest = 0 :=
  ⟨_, rfl, rfl, rfl, rfl, rfl, by decide⟩

end VllmEngine.Sched

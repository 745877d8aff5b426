import VllmEngine.Sched.RequestRun

namespace VllmEngine.Sched

open VllmEngine.Core SchedRequest List

variable {H : Hashing}

def Step.owed (s : Step) : ℕ :=
  if s.isPrefillChunk = true ∨ s.stale = true then 0 else 1 + s.specTokenIds.length

def owed (steps : List Step) : ℕ := (steps.map Step.owed).sum

@[simp] theorem owed_nil : owed [] = 0 := rfl

@[simp] theorem owed_cons (s) (steps) : owed (s :: steps) = s.owed + owed steps :=
  rfl

@[simp] theorem owed_append (steps steps') :
    owed (steps ++ steps') = owed steps + owed steps' := by
  simp [owed]

theorem owed_outdate (steps) : owed (steps.map Step.outdate) = owed steps := by
  induction steps with
  | nil => rfl
  | cons s steps ih =>
    rw [map_cons, owed_cons, owed_cons, ih]
    rfl

namespace SchedRequest

variable {cfg : SchedulerConfig} {r : SchedRequest}

structure Appended (generated : List ℕ) (r r' : SchedRequest) (kept : List ℕ) (stopped : Bool) :
    Prop where
  numTokens : r'.numTokens = r.numTokens + kept.length
  computed : r'.numComputedTokens = r.numComputedTokens
  placeholders : r'.numOutputPlaceholders = r.numOutputPlaceholders
  chunk : r'.isPrefillChunk = r.isPrefillChunk
  resumable : r'.resumable = r.resumable
  initial : kept <+: generated
  ne_nil : generated ≠ [] → kept ≠ []
  going : stopped = false → kept = generated ∧ r'.status = r.status
  finished : stopped = true → r'.status.isFinished = true

theorem checkStop_finished {status} (h : checkStop cfg r = some status) :
    status.isFinished = true := by
  unfold checkStop at h
  repeat' split at h
  all_goals cases h
  all_goals rfl

theorem updateRequestWithOutput_appended (H) (cfg) (r) (generated) :
    Appended generated r (updateRequestWithOutput H cfg r generated).1
      (updateRequestWithOutput H cfg r generated).2.1
      (updateRequestWithOutput H cfg r generated).2.2 := by
  induction generated generalizing r with
  | nil =>
    refine ⟨rfl, rfl, rfl, rfl, rfl, prefix_rfl, fun h ↦ absurd rfl h, fun _ ↦ ⟨rfl, rfl⟩,
      fun h ↦ ?_⟩
    cases h
  | cons tokenId tokenIds ih =>
    have hone : (appendOutputTokenId H cfg r tokenId).numTokens = r.numTokens + 1 := by
      change (r.allTokenIds ++ [tokenId]).length = r.allTokenIds.length + 1
      simp
    unfold updateRequestWithOutput
    dsimp only
    split
    next status hstop =>
      refine ⟨hone, rfl, rfl, rfl, rfl, ⟨tokenIds, rfl⟩, by simp, fun h ↦ ?_, fun _ ↦ ?_⟩
      · cases h
      · exact checkStop_finished hstop
    next =>
      have h := ih (appendOutputTokenId H cfg r tokenId)
      refine ⟨?_, h.computed, h.placeholders, h.chunk, h.resumable, by simpa using h.initial, by simp,
        fun hgo ↦ ?_, h.finished⟩
      · rw [length_cons]
        exact h.numTokens.trans (by rw [hone]; omega)
      · obtain ⟨hkept, hstatus⟩ := h.going hgo
        exact ⟨congrArg _ hkept, hstatus⟩

/-- A session that goes on keeps its counters. Its tokens are cut off behind the computed ones. -/
structure Stopped (r r' : SchedRequest) : Prop where
  computed : r'.numComputedTokens = r.numComputedTokens
  placeholders : r'.numOutputPlaceholders = r.numOutputPlaceholders
  chunk : r'.isPrefillChunk = r.isPrefillChunk
  numTokens : min r.numTokens r.numComputedTokens ≤ r'.numTokens
  status : r'.status ≠ .running ∧ r'.status ≠ .waitingForRemoteKvs
  resumable : r'.status.isFinished = false → r.resumable = true

theorem updateRequestAsSession_numTokens (H) (cfg) (session) (update) :
    (updateRequestAsSession H cfg session update).numTokens =
      min session.numTokens session.numComputedTokens + update.promptTokenIds.length := by
  change (session.allTokenIds.take session.numComputedTokens ++ update.promptTokenIds).length = _
  rw [length_append, length_take, min_comm]
  rfl

theorem handleStoppedRequest_stopped (H) (cfg) (hr : r.status.isFinished = true) :
    Stopped r (handleStoppedRequest H cfg r).1 := by
  have hself : r.status ≠ .running ∧ r.status ≠ .waitingForRemoteKvs := by
    constructor <;> intro h <;> rw [h] at hr <;> cases hr
  have hfin {P : Prop} (h : r.status.isFinished = false) : P := by
    rw [hr] at h
    cases h
  unfold handleStoppedRequest
  split
  next hres =>
    split
    · exact ⟨rfl, rfl, rfl, min_le_left _ _, hself, fun h ↦ hfin h⟩
    next update rest _ =>
      refine ⟨rfl, rfl, rfl, ?_, ⟨by simp [updateRequestAsSession], by simp [updateRequestAsSession]⟩,
        fun _ ↦ hres⟩
      rw [updateRequestAsSession_numTokens]
      exact Nat.le_add_right _ _
    · exact ⟨rfl, rfl, rfl, min_le_left _ _, by simp, fun _ ↦ hres⟩
    · exact ⟨rfl, rfl, rfl, min_le_left _ _, by simp, fun _ ↦ hres⟩
  · exact ⟨rfl, rfl, rfl, min_le_left _ _, hself, fun h ↦ hfin h⟩

theorem longPrefillLimit_le (cfg) (n) : longPrefillLimit cfg n ≤ n := by
  unfold longPrefillLimit
  split
  next h => exact h.2.le
  next => exact le_rfl

theorem limitEncoder_le (b : Budget) (n) : b.limitEncoder n ≤ n := by
  unfold Budget.limitEncoder
  split
  · exact le_rfl
  · exact min_le_left _ _

theorem floor_le {n : ℤ} {size : ℕ} (h : 0 < n / size * size) : n / size * size ≤ n := by
  rcases Nat.eq_zero_or_pos size with rfl | hpos
  · simp at h
  · exact Int.ediv_mul_le n (by omega)

theorem splitForMamba_le {numComputedTokens : ℕ} {n}
    (h : 0 < splitForMamba cfg r numComputedTokens n) :
    splitForMamba cfg r numComputedTokens n ≤ n := by
  unfold splitForMamba mambaBlockAlignedSplit at h ⊢
  dsimp only at h ⊢
  split_ifs at h ⊢
  all_goals first
    | exact floor_le h
    | omega

theorem numNewTokensRunning_le {b} (h : 0 < numNewTokensRunning cfg b r) :
    numNewTokensRunning cfg b r + r.numComputedTokens ≤
      (r.numTokens + r.specTokenIds.length + r.numOutputPlaceholders : ℕ) := by
  have hle := splitForMamba_le h
  have henc := limitEncoder_le b (min (min (longPrefillLimit cfg
    ((r.numTokensWithSpec + r.numOutputPlaceholders : ℕ) - (r.numComputedTokens : ℤ))) b.tokenBudget)
      ((cfg.maxModelLen : ℤ) - 1 - r.numComputedTokens))
  have hlong := longPrefillLimit_le cfg
    ((r.numTokensWithSpec + r.numOutputPlaceholders : ℕ) - (r.numComputedTokens : ℤ))
  unfold numNewTokensRunning numTokensWithSpec at *
  dsimp only at *
  omega

theorem numNewTokensWaiting_le {b computed n}
    (h : numNewTokensWaiting cfg b r computed = some n) (hn : 0 < n) : n + computed ≤ r.numTokens := by
  unfold numNewTokensWaiting at h
  dsimp only at h
  split at h
  · cases h
  cases h
  have hle := splitForMamba_le hn
  have henc := limitEncoder_le b (min (longPrefillLimit cfg ((r.numTokens : ℤ) - computed))
    b.tokenBudget)
  have hlong := longPrefillLimit_le cfg ((r.numTokens : ℤ) - computed)
  omega

end SchedRequest

namespace EngineRequest

variable {cfg : EngineConfig} {r r' : EngineRequest} {s : Step}

/-- What one scheduling of a request with `start` computed tokens does to its counters. -/
structure Scheduled (start : ℕ) (r r' : EngineRequest) (s : Step) : Prop where
  numTokens : r'.numTokens = r.numTokens
  computed : r'.numComputedTokens = start + s.numScheduledTokens
  pos : 0 < s.numScheduledTokens
  status : r'.status = .running
  resumable : r'.resumable = r.resumable
  discard : r'.discardLatestAsyncTokens = r.discardLatestAsyncTokens
  chunk : s.isPrefillChunk = r'.isPrefillChunk
  current : s.outdated = false ∧ s.stale = false
  placeholders : r'.numOutputPlaceholders = r.numOutputPlaceholders + s.owed
  drafts : start ≤ r.numTokens + r.numOutputPlaceholders →
    s.specTokenIds.length ≤ s.numScheduledTokens
  bound : r'.numComputedTokens ≤ r'.numTokens + r'.numOutputPlaceholders
  decode : r'.isPrefillChunk = false →
    r'.numComputedTokens + 1 = r'.numTokens + r'.numOutputPlaceholders

section

variable (hasync : cfg.asyncScheduling = true)

include hasync

theorem updateAfterSchedule_scheduled {n} (hn : 0 < n) (hrun : r.status = .running) (spec)
    (hspec : spec.length = n + r.numComputedTokens - r.numTokens - r.numOutputPlaceholders) :
    Scheduled r.numComputedTokens r (updateAfterSchedule cfg n spec r)
      { numScheduledTokens := n, specTokenIds := spec,
        isPrefillChunk := (updateAfterSchedule cfg n spec r).isPrefillChunk } := by
  by_cases hchunk : r.numComputedTokens + n < r.numTokens + r.numOutputPlaceholders
  · have heq : updateAfterSchedule cfg n spec r =
        { r with numComputedTokens := r.numComputedTokens + n, isPrefillChunk := true } := by
      simp [updateAfterSchedule, SchedRequest.updateAfterSchedule, hchunk]
    rw [heq]
    refine ⟨rfl, rfl, hn, hrun, rfl, rfl, rfl, ⟨rfl, rfl⟩, ?_, fun _ ↦ ?_, hchunk.le, fun h ↦ ?_⟩
    · simp [Step.owed]
    · dsimp only
      omega
    · cases h
  · have heq : updateAfterSchedule cfg n spec r = { r with
          numComputedTokens := r.numComputedTokens + n
          isPrefillChunk := false
          numOutputPlaceholders := r.numOutputPlaceholders + (1 + spec.length)
          specTokenIds := replicate cfg.numSpecTokens (-1) } := by
      simp [updateAfterSchedule, SchedRequest.updateAfterSchedule, hchunk, hasync]
    have hsum : r.numComputedTokens + n + 1 =
        r.numTokens + (r.numOutputPlaceholders + (1 + spec.length)) := by omega
    rw [heq]
    refine ⟨rfl, rfl, hn, hrun, rfl, rfl, rfl, ⟨rfl, rfl⟩, ?_, fun _ ↦ ?_, ?_, fun _ ↦ hsum⟩
    · simp [Step.owed]
    · dsimp only
      omega
    · exact (Nat.le_succ _).trans hsum.le

theorem scheduleRunning_scheduled {b} (h : r.scheduleRunning cfg b = some (r', s)) :
    Scheduled r.numComputedTokens r r' s ∧ r.status = .running ∧
      r'.numComputedTokens ≤ r.numTokens + r.numOutputPlaceholders + r.specTokenIds.length := by
  unfold scheduleRunning at h
  dsimp only at h
  split at h
  next hc =>
    obtain ⟨hrun, -, hn⟩ := hc
    cases h
    have hle := numNewTokensRunning_le hn
    have hspec : (r.scheduledSpecTokenIds (numNewTokensRunning cfg.toSchedulerConfig b
        r.toSchedRequest).toNat).length = (numNewTokensRunning cfg.toSchedulerConfig b
        r.toSchedRequest).toNat + r.numComputedTokens - r.numTokens - r.numOutputPlaceholders := by
      rw [scheduledSpecTokenIds, length_take]
      omega
    have hs := updateAfterSchedule_scheduled (r := { r with specTokenIds := [] }) hasync
      (by omega) hrun _ hspec
    refine ⟨{ hs with }, hrun, ?_⟩
    rw [hs.computed]
    dsimp only
    omega
  next => cases h

theorem scheduleWaiting_scheduled {b hits} (h : r.scheduleWaiting cfg b hits = some (r', s)) :
    Scheduled (r.startTokens hits) r r' s ∧ (r.status = .waiting ∨ r.status = .preempted) ∧
      r.startTokens hits ≤ r.numTokens := by
  unfold scheduleWaiting at h
  dsimp only at h
  split at h
  · cases h
  next n hnum =>
    split at h
    next hc =>
      obtain ⟨hstatus, hle, hn⟩ := hc
      cases h
      have hmax := numNewTokensWaiting_le hnum hn
      have hs := updateAfterSchedule_scheduled (n := n.toNat)
        (r := { r with status := .running, numComputedTokens := r.startTokens hits }) hasync
        (by omega) rfl [] (by
          change 0 = n.toNat + r.startTokens hits - r.numTokens - r.numOutputPlaceholders
          omega)
      exact ⟨{ hs with }, hstatus, hle⟩
    next => cases h

end

structure Applied (s : Step) (generated : List ℕ) (r r' : EngineRequest) (kept : List ℕ)
    (stopped : Bool) : Prop where
  computed : r'.numComputedTokens = r.numComputedTokens - numRejected s generated
  chunk : r'.isPrefillChunk = r.isPrefillChunk
  numTokens : r'.numTokens = r.numTokens + kept.length
  initial : kept <+: generated
  placeholders : r'.numOutputPlaceholders + kept.length =
    r.numOutputPlaceholders - numRejected s generated
  silent : generated = [] → r'.discardLatestAsyncTokens = r.discardLatestAsyncTokens
  discarded : generated ≠ [] → r.discardLatestAsyncTokens = true →
    r'.discardLatestAsyncTokens = false ∧ kept = [] ∧ stopped = false
  accepted : generated ≠ [] → r.discardLatestAsyncTokens = false →
    r'.discardLatestAsyncTokens = false ∧ kept ≠ []
  resumable : r'.resumable = true → r.resumable = true
  going : stopped = false → r'.status = r.status ∧
    (r.discardLatestAsyncTokens = false → kept = generated)
  finished : stopped = true → r'.status.isFinished = true

structure Backed (s : Step) (generated : List ℕ) (r : EngineRequest) : Prop where
  computed : 0 < r.numComputedTokens → numRejected s generated ≤ r.numComputedTokens
  placeholders : 0 < r.numOutputPlaceholders → numRejected s generated ≤ r.numOutputPlaceholders
  kept : r.discardLatestAsyncTokens = false →
    numRejected s generated + generated.length ≤ r.numOutputPlaceholders

variable {generated : List ℕ}

theorem rejectDrafts_eq (h : Backed s generated r) :
    r.rejectDrafts (numRejected s generated) = .ok { r with
      numComputedTokens := r.numComputedTokens - numRejected s generated
      numOutputPlaceholders := r.numOutputPlaceholders - numRejected s generated } := by
  unfold rejectDrafts
  rw [if_neg (by have := h.computed; omega), if_neg (by have := h.placeholders; omega)]

theorem updateRequestWithOutput_spec (hasync : cfg.asyncScheduling = true) (generated)
    (hkept : r.discardLatestAsyncTokens = false → generated.length ≤ r.numOutputPlaceholders) :
    ∃ out, r.updateRequestWithOutput H cfg generated = .ok out ∧
      Applied { numScheduledTokens := 0 } generated r out.1 out.2.1 out.2.2 := by
  unfold updateRequestWithOutput
  split
  next hnil =>
    subst hnil
    refine ⟨_, rfl, rfl, rfl, rfl, prefix_rfl, rfl, fun _ ↦ rfl, fun h ↦ absurd rfl h,
      fun h ↦ absurd rfl h, id, fun _ ↦ ⟨rfl, fun _ ↦ rfl⟩, fun h ↦ ?_⟩
    cases h
  next hne =>
    split
    next hd =>
      refine ⟨_, rfl, rfl, rfl, rfl, nil_prefix, rfl, fun h ↦ absurd h hne,
        fun _ _ ↦ ⟨rfl, rfl, rfl⟩, fun _ h ↦ ?_, id, fun _ ↦ ⟨rfl, fun h ↦ ?_⟩, fun h ↦ ?_⟩
      · rw [hd.2] at h
        cases h
      · rw [hd.2] at h
        cases h
      · cases h
    next hd =>
      have hflag : r.discardLatestAsyncTokens = false := by simpa [hasync] using hd
      have ha := updateRequestWithOutput_appended H cfg.toSchedulerConfig r.toSchedRequest generated
      have hroom := ha.initial.length_le.trans ((hkept hflag).trans ha.placeholders.ge)
      rw [if_neg (by simp [hasync]), if_neg (by omega)]
      refine ⟨_, rfl, ha.computed, ha.chunk, ha.numTokens, ha.initial, ?_, fun h ↦ absurd h hne,
        fun _ h ↦ ?_, fun _ _ ↦ ⟨hflag, ha.ne_nil hne⟩, fun h ↦ ha.resumable ▸ h,
        fun h ↦ ⟨(ha.going h).2, fun _ ↦ (ha.going h).1⟩, ha.finished⟩
      · have := ha.placeholders
        dsimp only [numRejected]
        simp only [ne_eq, not_true_eq_false, false_and, if_false, Nat.sub_zero]
        omega
      · rw [hflag] at h
        cases h

theorem applyOutput_applied (hasync : cfg.asyncScheduling = true)
    (hc : Backed s generated r) (grammarAccepts) :
    ∃ out, r.applyOutput H cfg s generated grammarAccepts = .ok out ∧
      Applied s generated r out.1 out.2.1 out.2.2 := by
  obtain ⟨out, hout, ha⟩ := updateRequestWithOutput_spec hasync generated (r := { r with
      numComputedTokens := r.numComputedTokens - numRejected s generated
      numOutputPlaceholders := r.numOutputPlaceholders - numRejected s generated })
    (fun hflag ↦ by have := hc.kept hflag; dsimp only; omega)
  have happ : r.applyOutput H cfg s generated grammarAccepts =
      if out.2.1 ≠ [] ∧ grammarAccepts = false then
        .ok ({ out.1 with status := .finishedError, resumable := false }, out.2.1, true)
      else .ok out := by
    unfold applyOutput
    rw [rejectDrafts_eq hc]
    change (do
      let out ← updateRequestWithOutput H cfg generated _
      if out.2.1 ≠ [] ∧ grammarAccepts = false then
        pure ({ out.1 with status := .finishedError, resumable := false }, out.2.1, true)
      else pure out : Except Fault _) = _
    rw [hout]
    rfl
  have hzero : numRejected { numScheduledTokens := 0 } generated = 0 := by simp [numRejected]
  have hsame : Applied s generated r out.1 out.2.1 out.2.2 := by
    refine ⟨?_, ha.chunk, ha.numTokens, ha.initial, ?_, ha.silent, ha.discarded, ha.accepted,
      ha.resumable, ha.going, ha.finished⟩
    · simpa only [hzero, Nat.sub_zero] using ha.computed
    · simpa only [hzero, Nat.sub_zero] using ha.placeholders
  rw [happ]
  split
  next hg =>
    refine ⟨_, rfl, hsame.computed, hsame.chunk, hsame.numTokens, hsame.initial, hsame.placeholders,
      hsame.silent, fun hne hd ↦ ?_, hsame.accepted, fun h ↦ ?_, fun h ↦ ?_, fun _ ↦ rfl⟩
    · exact absurd (hsame.discarded hne hd).2.1 hg.1
    · cases h
    · cases h
  next => exact ⟨out, rfl, hsame⟩

end EngineRequest

end VllmEngine.Sched

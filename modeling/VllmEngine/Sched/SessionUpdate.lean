import VllmEngine.Sched.PlaceholderCount

namespace VllmEngine.Sched

open VllmEngine.Core EngineRequest

variable {H : Hashing} {cfg : EngineConfig} {st st' : RequestState} {r r' : EngineRequest} {s : Step}
  {rest : List Step} {generated : List ℕ}

namespace EngineRequest

def nextUpdate (r : EngineRequest) : Option (EngineRequest × StreamingUpdate) :=
  r.toSchedRequest.nextUpdate.map fun out ↦ ({ r with toSchedRequest := out.1 }, out.2)

variable {update : StreamingUpdate} {session : EngineRequest}

theorem handleStoppedRequest_of_nextUpdate (h : r.nextUpdate = some (session, update)) :
    r.handleStoppedRequest H cfg = session.updateRequestAsSession H cfg update := by
  obtain ⟨⟨q, u⟩, hq, hpair⟩ := Option.map_eq_some_iff.mp h
  obtain ⟨rfl, rfl⟩ := Prod.mk.inj hpair
  unfold SchedRequest.nextUpdate at hq
  unfold handleStoppedRequest SchedRequest.handleStoppedRequest
  split at hq
  next hres =>
    rw [if_pos hres]
    split at hq
    next queue hqueue =>
      cases hq
      rw [hqueue]
      rfl
    all_goals cases hq
  · cases hq

theorem nextUpdate_counters (h : r.nextUpdate = some (session, update)) :
    session.numComputedTokens = r.numComputedTokens ∧ session.numTokens = r.numTokens ∧
      session.numOutputPlaceholders = r.numOutputPlaceholders := by
  obtain ⟨⟨q, u⟩, hq, hpair⟩ := Option.map_eq_some_iff.mp h
  obtain ⟨rfl, rfl⟩ := Prod.mk.inj hpair
  unfold SchedRequest.nextUpdate at hq
  split at hq
  · split at hq
    · cases hq
      exact ⟨rfl, rfl, rfl⟩
    all_goals cases hq
  · cases hq

theorem updateAfterSchedule_chunk {n spec}
    (h : (updateAfterSchedule cfg n spec r).isPrefillChunk = true) :
    (updateAfterSchedule cfg n spec r).numComputedTokens <
      (updateAfterSchedule cfg n spec r).numTokens +
        (updateAfterSchedule cfg n spec r).numOutputPlaceholders := by
  unfold updateAfterSchedule at h ⊢
  dsimp only at h ⊢
  split at h
  next hc => exact absurd (hc.2.symm.trans h) (by simp)
  next hc =>
    rw [if_neg hc]
    exact of_decide_eq_true h

end EngineRequest

/-- The call of `_update_request_as_session` that an action makes, with the steps then in flight:
for a queued update when the request stops, or for one that finds the session waiting. -/
def ReqOp.sessionUpdate (H : Hashing) (cfg : EngineConfig) (st : RequestState) :
    ReqOp → Option (EngineRequest × StreamingUpdate × List Step)
  | .output generated grammarAccepts =>
    match st.inFlight with
    | [] => none
    | s :: rest =>
      if s.Returns generated ∧ st.request.status.isFinished = false then
        match st.request.applyOutput H cfg s generated grammarAccepts with
        | .error _ => none
        | .ok out =>
          if out.2.2 then out.1.nextUpdate.map fun call ↦ (call.1, call.2, rest) else none
      else none
  | .streamingUpdate (some update) =>
    if st.request.status = .waitingForStreamingReq then some (st.request, update, st.inFlight)
    else none
  | _ => none

variable {update : StreamingUpdate} {op : ReqOp}

theorem ReqOp.sessionUpdate_cases {session}
    (h : op.sessionUpdate H cfg st = some (session, update, rest)) :
    (∃ generated ga s out, op = .output generated ga ∧ st.inFlight = s :: rest ∧
      s.Returns generated ∧ st.request.status.isFinished = false ∧
      st.request.applyOutput H cfg s generated ga = .ok out ∧ out.2.2 = true ∧
      out.1.nextUpdate = some (session, update)) ∨
    (op = .streamingUpdate (some update) ∧ st.request.status = .waitingForStreamingReq ∧
      session = st.request ∧ rest = st.inFlight) := by
  cases op with
  | output generated ga =>
    simp only [sessionUpdate] at h
    split at h
    · cases h
    next s rest' hin =>
      split at h
      next hret =>
        split at h
        · cases h
        next out happ =>
          split at h
          next hstop =>
            obtain ⟨⟨session', update'⟩, hnext, hcall⟩ := Option.map_eq_some_iff.mp h
            cases hcall
            exact .inl ⟨generated, ga, s, out, rfl, hin, hret.1, hret.2, happ, hstop, hnext⟩
          · cases h
      · cases h
  | streamingUpdate u =>
    cases u with
    | none => cases h
    | some u =>
      simp only [sessionUpdate] at h
      split at h
      next hst =>
        cases h
        exact .inr ⟨rfl, hst, rfl, rfl⟩
      · cases h
  | _ => cases h

theorem ReqOp.run_of_sessionUpdate {session}
    (h : op.sessionUpdate H cfg st = some (session, update, rest)) :
    op.run H cfg st = .ok ⟨session.updateRequestAsSession H cfg update, rest⟩ := by
  rcases sessionUpdate_cases h with ⟨generated, ga, s, out, rfl, hin, hret, hgo, happ, hstop, hnext⟩ |
    ⟨rfl, hst, rfl, rfl⟩
  · simp only [ReqOp.run, hin, if_pos hret, updateFromOutput, hgo, Bool.false_eq_true,
      if_false]
    rw [happ]
    change Except.ok (RequestState.mk (if out.2.2 = true then out.1.handleStoppedRequest H cfg
      else out.1) rest) = _
    rw [if_pos hstop, handleStoppedRequest_of_nextUpdate hnext]
  · have hgo : st.request.status.isFinished = false := by
      rw [hst]
      rfl
    simp only [ReqOp.run]
    rw [if_neg (by simp [hgo]), if_neg (not_not.mpr hst)]

/-- The number of computed tokens counts the tokens there are, and all but the last of those in
flight. -/
def InReach (st : RequestState) : Prop :=
  st.request.numComputedTokens ≤ st.request.numTokens + (st.request.numOutputPlaceholders - 1)

theorem InReach.schedule {start} (hs : Scheduled start r r' s) (hchunk : r'.isPrefillChunk = true →
      r'.numComputedTokens < r'.numTokens + r'.numOutputPlaceholders) : InReach ⟨r', rest⟩ := by
  unfold InReach
  dsimp only
  cases hc : r'.isPrefillChunk with
  | true =>
    have := hchunk hc
    omega
  | false =>
    have := hs.decode hc
    omega

theorem InReach.apply (h : InReach ⟨r, s :: rest⟩) {kept stopped}
    (ha : Applied s generated r r' kept stopped) : InReach ⟨r', rest⟩ := by
  have hnc := ha.computed
  have hnum := ha.numTokens
  have hph := ha.placeholders
  unfold InReach at *
  dsimp only at *
  omega

theorem InReach.stop (h : InReach ⟨r, rest⟩) (hfin : r.status.isFinished = true) :
    InReach ⟨r.handleStoppedRequest H cfg, rest⟩ := by
  have hs := SchedRequest.handleStoppedRequest_stopped H cfg.toSchedulerConfig hfin
  have hnc := hs.computed
  have hnum := hs.numTokens
  have hph := hs.placeholders
  unfold InReach handleStoppedRequest at *
  dsimp only at *
  omega

theorem InReach.session (h : InReach ⟨r, rest⟩) (update) :
    InReach ⟨r.updateRequestAsSession H cfg update, rest⟩ := by
  have hnum := SchedRequest.updateRequestAsSession_numTokens H cfg.toSchedulerConfig r.toSchedRequest
    update
  unfold InReach at *
  change r.numComputedTokens ≤ (SchedRequest.updateRequestAsSession H cfg.toSchedulerConfig
    r.toSchedRequest update).numTokens + (r.numOutputPlaceholders - 1)
  dsimp only at h
  omega

theorem InReach.lower {steps n} (h : InReach ⟨r, steps⟩)
    (hn : n ≤ r.numComputedTokens) : InReach ⟨{ r with numComputedTokens := n }, rest⟩ :=
  hn.trans h

theorem InReach.move (hasync : cfg.asyncScheduling = true) (hb : Balanced st)
    (h : InReach st) (hC : OneInFlight st op) (hmove : Move H cfg st op st')
    (hgo : st'.request.status.isFinished = false) : InReach st' := by
  cases hmove with
  | @running r r' s l b hs =>
    refine .schedule (scheduleRunning_scheduled hasync hs).1 ?_
    unfold scheduleRunning at hs
    dsimp only at hs
    split at hs
    · cases hs
      exact updateAfterSchedule_chunk
    · cases hs
  | @waiting r r' s l b hits hs =>
    refine .schedule (scheduleWaiting_scheduled hasync hs).1 ?_
    unfold scheduleWaiting at hs
    dsimp only at hs
    split at hs
    · cases hs
    split at hs
    · cases hs
      exact updateAfterSchedule_chunk
    · cases hs
  | preempt => exact Nat.zero_le _
  | forcePreempt => exact Nat.zero_le _
  | @output r s l generated ga out hret hgoing happ =>
    obtain ⟨out', hout, ha⟩ := applyOutput_applied hasync (hb.covered rfl hret (hC s rfl)) ga
    obtain rfl := Except.ok.inj (happ.symm.trans hout)
    have hreach : InReach ⟨out.1, l⟩ := h.apply ha
    cases hstop : out.2.2 with
    | false => exact hreach
    | true => exact hreach.stop (ha.finished hstop)
  | late hret hfin | finish hgoing hfin => exact absurd hgo (by simp [hfin])
  | @outputInvalid r s l n hrun hle => exact h.lower ((Nat.le_add_right _ _).trans hle)
  | @invalidBlocks r l n hst hle => exact h.lower hle
  | drafts hsync =>
    rw [hasync] at hsync
    cases hsync
  | queued => exact h
  | session => exact h.session _
  | sessionEnd => cases hgo
  | @loadRemote r l n hst hzero hle => exact hle.trans (Nat.le_add_right _ _)
  | @remoteLoaded r l failed hst =>
    unfold InReach at *
    change (if failed = false ∧ r.numComputedTokens = r.numTokens then r.numTokens - 1
      else r.numComputedTokens) ≤ r.numTokens + (r.numOutputPlaceholders - 1)
    split <;> omega
  | grammarReady => exact h

theorem RunOf.inReach {C} (hasync : cfg.asyncScheduling = true)
    (hC : ∀ {st op}, C st op → Unhurried H cfg st op) (h : RunOf H cfg C st)
    (hgo : st.request.status.isFinished = false) : InReach st := by
  induction h with
  | @new r h =>
    unfold InReach
    rw [show r.numComputedTokens = 0 from h.2.1]
    exact Nat.zero_le _
  | @step st st' op h hop hrun ih =>
    cases hfin : st.request.status.isFinished with
    | true =>
      rw [(ReqOp.move hrun).finished hfin] at hgo
      cases hgo
    | false =>
      exact (ih hfin).move hasync (h.exact hasync hC hfin).toBalanced (hC hop).1
        (ReqOp.move hrun) hgo

/-- Besides, a session is only updated while the steps in flight owe it one token at most. -/
def Timely (H : Hashing) (cfg : EngineConfig) (st : RequestState) (op : ReqOp) : Prop :=
  Unhurried H cfg st op ∧ ∀ call ∈ op.sessionUpdate H cfg st, owed call.2.2 ≤ 1

/-- What a session keeps before the new prompt is what it has computed, so that every new token is
behind it, and its placeholders stand for the outputs in flight. -/
theorem session_update_keeps_computed_tokens (hasync : cfg.asyncScheduling = true)
    (h : RunOf H cfg (Timely H cfg) st) {op : ReqOp} (hop : Timely H cfg st op)
    {session : EngineRequest} {update : StreamingUpdate}
    (hcall : op.sessionUpdate H cfg st = some (session, update, rest)) :
    let after := session.updateRequestAsSession H cfg update
    let kept := session.allTokenIds.take session.numComputedTokens
    op.run H cfg st = .ok ⟨after, rest⟩ ∧ after.allTokenIds = kept ++ update.promptTokenIds ∧
      after.numComputedTokens ≤ kept.length ∧ after.numOutputPlaceholders = owed rest := by
  have hrun := ReqOp.run_of_sessionUpdate hcall
  have hgo : st.request.status.isFinished = false := by
    rcases ReqOp.sessionUpdate_cases hcall with ⟨_, _, _, _, -, -, -, hgo, -⟩ | ⟨-, hst, -⟩
    · exact hgo
    · rw [hst]
      rfl
  have hexact := h.exact hasync And.left hgo
  have hcount := (hexact.move hasync hop.1 (ReqOp.move hrun) rfl).count
  have howed : owed rest ≤ 1 := hop.2 _ hcall
  have hreach : session.numComputedTokens ≤
      session.numTokens + (session.numOutputPlaceholders - 1) := by
    have hst := h.inReach hasync And.left hgo
    rcases ReqOp.sessionUpdate_cases hcall with
      ⟨generated, ga, s, out, rfl, hin, hret, -, happ, -, hnext⟩ | ⟨-, -, rfl, -⟩
    · obtain ⟨out', hout, ha⟩ := applyOutput_applied hasync
        (hexact.toBalanced.covered hin hret (hop.1.1 s (by rw [hin]; rfl))) ga
      obtain rfl := Except.ok.inj (happ.symm.trans hout)
      obtain ⟨hnc, hnum, hph⟩ := nextUpdate_counters hnext
      have hin' : InReach ⟨st.request, s :: rest⟩ := hst
      have hout : InReach ⟨out.1, rest⟩ := hin'.apply ha
      unfold InReach at hout
      dsimp only at hout
      omega
    · exact hst
  refine ⟨hrun, rfl, ?_, hcount⟩
  change session.numComputedTokens ≤ _
  have hph : session.numOutputPlaceholders = owed rest := hcount
  have hnum : session.numTokens = session.allTokenIds.length := rfl
  rw [List.length_take]
  omega

instance (r : EngineRequest) (generated : List ℕ) : Decidable (StopsAtEnd H cfg r generated) :=
  inferInstanceAs (Decidable (_ = _))

instance (st : RequestState) (op : ReqOp) : Decidable (Unhurried H cfg st op) :=
  match op with
  | .output generated _ =>
    inferInstanceAs (Decidable (_ ∧ (_ → StopsAtEnd H cfg st.request generated)))
  | .invalidBlocks _ => inferInstanceAs (Decidable (_ ∧ (_ → _)))
  | .outputInvalid _ =>
    inferInstanceAs (Decidable (_ ∧ _ ∧ ∀ s ∈ st.inFlight.head?, s.isPrefillChunk = true))
  | .scheduleRunning _ | .scheduleWaiting .. | .preempt | .forcePreempt | .drafts _
  | .streamingUpdate _ | .loadRemote _ | .remoteLoaded _ | .grammarReady | .finish _ =>
    inferInstanceAs (Decidable (_ ∧ True))

instance (st : RequestState) (op : ReqOp) : Decidable (Timely H cfg st op) :=
  inferInstanceAs (Decidable (_ ∧ ∀ call ∈ op.sessionUpdate H cfg st, owed call.2.2 ≤ 1))

def chattySession : EngineRequest where
  requestId := "a"
  allTokenIds := [1, 2]
  promptTokenIds := [1, 2]
  numPromptTokens := 2
  maxTokens := 10
  samplingParams := { eosTokenId := some 9 }
  resumable := true
  streamingQueue := some []

theorem chattySession_fresh : chattySession.Fresh := by
  unfold EngineRequest.Fresh
  decide

def nextTokens : StreamingUpdate := { promptTokenIds := [3, 4] }

/-- The step after the prompt has one token and one draft. When the prompt's output ends the input,
four tokens count as computed where three are there: the first new token is never computed. -/
theorem session_update_skips_new_token :
    ∃ st session rest, ReqOp.runAll tokenHashing { asyncConfig with numSpecTokens := 1 }
        [.scheduleWaiting ⟨100, none⟩ 0, .scheduleRunning ⟨100, none⟩,
          .streamingUpdate (some nextTokens)] ⟨chattySession, []⟩ = .ok st ∧
      (ReqOp.output [9] true).sessionUpdate tokenHashing { asyncConfig with numSpecTokens := 1 } st =
        some (session, nextTokens, rest) ∧
      (session.updateRequestAsSession tokenHashing { asyncConfig with numSpecTokens := 1 }
        nextTokens).allTokenIds = [1, 2, 9, 3, 4] ∧
      (session.updateRequestAsSession tokenHashing { asyncConfig with numSpecTokens := 1 }
        nextTokens).numComputedTokens = 4 ∧
      (session.allTokenIds.take session.numComputedTokens).length = 3 :=
  ⟨_, _, _, rfl, rfl, rfl, rfl, rfl⟩

theorem session_update_keeps_sampled_token :
    ∃ st session rest, runGuarded tokenHashing asyncConfig (Timely tokenHashing asyncConfig)
        [.scheduleWaiting ⟨100, none⟩ 0, .scheduleRunning ⟨100, none⟩,
          .streamingUpdate (some nextTokens)] ⟨chattySession, []⟩ = .ok st ∧
      (ReqOp.output [9] true).sessionUpdate tokenHashing asyncConfig st =
        some (session, nextTokens, rest) ∧ rest.length = 1 ∧
      (session.updateRequestAsSession tokenHashing asyncConfig nextTokens).numComputedTokens ≤
        (session.allTokenIds.take session.numComputedTokens).length := by
  obtain ⟨st, session, rest, hrun, hcall, hlen, hop⟩ : ∃ st session rest,
      runGuarded tokenHashing asyncConfig (Timely tokenHashing asyncConfig)
        [.scheduleWaiting ⟨100, none⟩ 0, .scheduleRunning ⟨100, none⟩,
          .streamingUpdate (some nextTokens)] ⟨chattySession, []⟩ = .ok st ∧
      (ReqOp.output [9] true).sessionUpdate tokenHashing asyncConfig st =
        some (session, nextTokens, rest) ∧ rest.length = 1 ∧
      Timely tokenHashing asyncConfig st (.output [9] true) :=
    ⟨_, _, _, rfl, rfl, rfl, by decide⟩
  have h := RunOf.runGuarded (.new chattySession_fresh) hrun
  exact ⟨st, session, rest, hrun, hcall, hlen,
    (session_update_keeps_computed_tokens rfl h hop hcall).2.2.1⟩

end VllmEngine.Sched

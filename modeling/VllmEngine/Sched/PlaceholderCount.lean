import VllmEngine.Lib.Triple
import VllmEngine.Sched.ResetDiscard

namespace VllmEngine.Sched

open VllmEngine.Core EngineRequest List

variable {H : Hashing} {cfg : EngineConfig} {st st' : RequestState} {r r' : EngineRequest} {s : Step}
  {rest : List Step} {generated : List ℕ}

structure Exact (st : RequestState) : Prop extends Balanced st where
  count : st.request.numOutputPlaceholders = owed st.inFlight
  decode : st.request.status = .running → st.request.isPrefillChunk = false →
    st.request.numComputedTokens + 1 = st.request.numTokens + st.request.numOutputPlaceholders

/-- Besides, invalid blocks are only reported for a prompt, and a session is not given several
tokens on one of which it could stop. -/
def Undisturbed (st : RequestState) (op : ReqOp) : Prop :=
  OneInFlight st op ∧
    match op with
    | .output generated _ => st.request.resumable = true → generated.length ≤ 1
    | .outputInvalid _ =>
      st.request.isPrefillChunk = true ∧ ∀ s ∈ st.inFlight.head?, s.isPrefillChunk = true
    | .invalidBlocks _ => st.request.status = .running → st.request.isPrefillChunk = true
    | _ => True

def StopsAtEnd (H : Hashing) (cfg : EngineConfig) (r : EngineRequest) (generated : List ℕ) : Prop :=
  (SchedRequest.updateRequestWithOutput H cfg.toSchedulerConfig r.toSchedRequest generated).2.1 =
    generated

/-- The same for a session that may be given several tokens, as long as it does not stop before the
last. -/
def Unhurried (H : Hashing) (cfg : EngineConfig) (st : RequestState) (op : ReqOp) : Prop :=
  OneInFlight st op ∧
    match op with
    | .output generated _ => st.request.resumable = true → StopsAtEnd H cfg st.request generated
    | .outputInvalid _ =>
      st.request.isPrefillChunk = true ∧ ∀ s ∈ st.inFlight.head?, s.isPrefillChunk = true
    | .invalidBlocks _ => st.request.status = .running → st.request.isPrefillChunk = true
    | _ => True

theorem StopsAtEnd.of_length_le (h : generated.length ≤ 1) : StopsAtEnd H cfg r generated := by
  have ha := SchedRequest.updateRequestWithOutput_appended H cfg.toSchedulerConfig r.toSchedRequest
    generated
  apply ha.initial.eq_of_length_le
  by_cases hnil : generated = []
  · rw [hnil]
    exact Nat.zero_le _
  · exact h.trans (length_pos_iff.mpr (ha.ne_nil hnil))

theorem Undisturbed.unhurried {op} (h : Undisturbed st op) : Unhurried H cfg st op := by
  refine ⟨h.1, ?_⟩
  cases op with
  | output generated ga => exact fun hres ↦ .of_length_le (h.2 hres)
  | outputInvalid n => exact h.2
  | invalidBlocks n => exact h.2
  | _ => trivial

structure SameStops (r r' : SchedRequest) : Prop where
  output : r'.outputTokenIds = r.outputTokenIds
  numTokens : r'.numTokens = r.numTokens
  params : r'.samplingParams = r.samplingParams
  maxTokens : r'.maxTokens = r.maxTokens

theorem SameStops.append {r r'} (h : SameStops r r') (H) (cfg) (tokenId) :
    SameStops (SchedRequest.appendOutputTokenId H cfg r tokenId)
      (SchedRequest.appendOutputTokenId H cfg r' tokenId) := by
  have hlen := h.numTokens
  refine ⟨congrArg (· ++ [tokenId]) h.output, ?_, h.params, h.maxTokens⟩
  change (r'.allTokenIds ++ [tokenId]).length = (r.allTokenIds ++ [tokenId]).length
  rw [length_append, length_append]
  exact congrArg (· + 1) hlen

theorem SameStops.kept {r r'} (h : SameStops r r') (H) (cfg) (generated) :
    (SchedRequest.updateRequestWithOutput H cfg r' generated).2 =
      (SchedRequest.updateRequestWithOutput H cfg r generated).2 := by
  induction generated generalizing r r' with
  | nil => rfl
  | cons tokenId tokenIds ih =>
    have happ := h.append H cfg tokenId
    have hstop : SchedRequest.checkStop cfg (SchedRequest.appendOutputTokenId H cfg r' tokenId) =
        SchedRequest.checkStop cfg (SchedRequest.appendOutputTokenId H cfg r tokenId) := by
      simp only [SchedRequest.checkStop, happ.output, happ.numTokens, happ.params, happ.maxTokens]
    simp only [SchedRequest.updateRequestWithOutput, hstop]
    split
    · rfl
    · rw [ih happ]

theorem applyOutput_kept {ga out} (hd : r.discardLatestAsyncTokens = false)
    (h : r.applyOutput H cfg s generated ga = .ok out) :
    out.2.1 = (SchedRequest.updateRequestWithOutput H cfg.toSchedulerConfig r.toSchedRequest
      generated).2.1 := by
  obtain ⟨r1, hr1, h⟩ := Lib.of_bind_eq_ok h
  obtain ⟨out1, hout1, h⟩ := Lib.of_bind_eq_ok h
  have hkept : out.2.1 = out1.2.1 := by
    split at h
    all_goals
      cases h
      rfl
  have hsame : SameStops r.toSchedRequest r1.toSchedRequest ∧ r1.discardLatestAsyncTokens = false := by
    unfold rejectDrafts at hr1
    split at hr1
    · cases hr1
    split at hr1
    · cases hr1
    cases hr1
    exact ⟨⟨rfl, rfl, rfl, rfl⟩, hd⟩
  rw [hkept, ← hsame.1.kept]
  unfold updateRequestWithOutput at hout1
  split at hout1
  next hnil =>
    cases hout1
    rw [hnil]
    rfl
  next =>
    rw [if_neg (by simp [hsame.2])] at hout1
    dsimp only at hout1
    split at hout1
    · cases hout1
      rfl
    split at hout1
    · cases hout1
    · cases hout1
      rfl

theorem EngineRequest.Fresh.exact (h : r.Fresh) : Exact ⟨r, []⟩ := by
  refine ⟨h.balanced, h.2.2.1, fun hst ↦ ?_⟩
  rcases h.1 with hw | hw
  all_goals
    rw [show r.status = .running from hst] at hw
    cases hw

section

variable (h : Exact ⟨r, s :: rest⟩) (hret : s.Returns generated)
  (hlate : ¬ LateRejection ⟨r, s :: rest⟩ s generated)

include h hret hlate

theorem Exact.rejected (hrun : r.status = .running) (hchunk : r.isPrefillChunk = false) :
    r.numComputedTokens - numRejected s generated + 1 =
      r.numTokens + (r.numOutputPlaceholders - numRejected s generated) := by
  have hdecode : r.numComputedTokens + 1 = r.numTokens + r.numOutputPlaceholders :=
    h.decode hrun hchunk
  have hcount : r.numOutputPlaceholders = s.owed + owed rest := h.count
  by_cases hzero : numRejected s generated = 0
  · omega
  have hne : generated ≠ [] := fun hnil ↦ hzero (by simp [numRejected, hnil])
  have hsample : s.isPrefillChunk = false := by simpa [hne] using hret.1
  have hrej := numRejected_le s generated
  cases hs : s.stale with
  | true =>
    rcases rejected_in_time hlate ((h.valid s mem_cons_self).outdated hs) with hz | ⟨hnc, hph⟩
    · exact absurd hz hzero
    · have hph := hph hs
      dsimp only at hnc hph
      omega
  | false =>
    rw [owed_of_samples hsample hs] at hcount
    omega

theorem Exact.apply {kept stopped} (ha : Applied s generated r r' kept stopped)
    (hall : generated ≠ [] → s.stale = false → kept.length = generated.length) :
    r'.numOutputPlaceholders = owed rest := by
  have hcount : r.numOutputPlaceholders = s.owed + owed rest := h.count
  have hph := ha.placeholders
  have hlen := ha.initial.length_le
  by_cases hnil : generated = []
  · have hzero : numRejected s generated = 0 := by simp [numRejected, hnil]
    have howed : s.owed = 0 := by simp [Step.owed, hret.1.mp hnil]
    rw [hnil, length_nil] at hlen
    omega
  have hsample : s.isPrefillChunk = false := by simpa [hnil] using hret.1
  cases hs : s.stale with
  | true =>
    have hflag := (h.toBalanced.head_stale rfl hsample).trans hs
    have howed : s.owed = 0 := by simp [Step.owed, hs]
    rw [(ha.discarded hnil hflag).2.1, length_nil] at hph
    rcases rejected_in_time hlate ((h.valid s mem_cons_self).outdated hs) with hz | ⟨-, hz⟩
    · omega
    · have hz := hz hs
      dsimp only at hz
      omega
  | false =>
    have hsum := numRejected_add_length hret hnil
    rw [owed_of_samples hsample hs] at hcount
    rw [hall hnil hs] at hph
    omega

end

theorem Exact.of_idle (h : Balanced ⟨r, rest⟩) (hcount : r.numOutputPlaceholders = owed rest)
    (hst : r.status ≠ .running) : Exact ⟨r, rest⟩ :=
  ⟨h, hcount, fun hrun ↦ absurd hrun hst⟩

theorem Exact.move (hasync : cfg.asyncScheduling = true) {op} (h : Exact st)
    (hC : Unhurried H cfg st op) (hmove : Move H cfg st op st')
    (hgo : st'.request.status.isFinished = false) : Exact st' := by
  have hb := h.toBalanced.move hasync hC.1 hmove hgo
  have hcount := h.count
  cases hmove with
  | @running r r' s l b hs =>
    obtain ⟨hs, -, -⟩ := scheduleRunning_scheduled hasync hs
    refine ⟨hb, ?_, fun _ ↦ hs.decode⟩
    rw [owed_append, owed_cons, owed_nil, hs.placeholders, ← hcount]
    rfl
  | @waiting r r' s l b hits hs =>
    obtain ⟨hs, -, -⟩ := scheduleWaiting_scheduled hasync hs
    refine ⟨hb, ?_, fun _ ↦ hs.decode⟩
    rw [owed_append, owed_cons, owed_nil, hs.placeholders, ← hcount]
    rfl
  | @preempt r l =>
    refine .of_idle hb ?_ (by simp [preemptRequest, SchedRequest.preemptRequest])
    exact hcount.trans (owed_outdate l).symm
  | @forcePreempt r l =>
    refine .of_idle hb ?_ (by simp [forcePreempt, preemptRequest, SchedRequest.preemptRequest])
    refine (owed_eq_zero fun s hs ↦ ?_).symm
    obtain ⟨a, -, rfl⟩ := mem_map.mp hs
    simp [Step.owed, Step.disown]
  | @output r s l generated ga out hret hgoing happ =>
    have hlate : ¬ LateRejection ⟨r, s :: l⟩ s generated := hC.1 s rfl
    obtain ⟨out', hout, ha⟩ := applyOutput_applied hasync (h.toBalanced.covered rfl hret hlate) ga
    obtain rfl := Except.ok.inj (happ.symm.trans hout)
    have hflag : generated ≠ [] → r.discardLatestAsyncTokens = s.stale := fun hne ↦
      h.toBalanced.head_stale rfl (by simpa [hne] using hret.1)
    cases hstop : out.2.2 with
    | false =>
      simp only [hstop, Bool.false_eq_true, if_false] at hb hgo ⊢
      have hgoing := ha.going hstop
      refine ⟨hb, h.apply hret hlate ha fun hnil hs ↦ ?_, fun hrun hchunk ↦ ?_⟩
      · rw [hgoing.2 ((hflag hnil).trans hs)]
      · have hrej := h.rejected hret hlate (hgoing.1 ▸ hrun) (ha.chunk ▸ hchunk)
        have hph := ha.placeholders
        have hnum := ha.numTokens
        have hnc := ha.computed
        dsimp only at hph hnum hnc ⊢
        omega
    | true =>
      simp only [hstop, if_true] at hb hgo ⊢
      have hs := SchedRequest.handleStoppedRequest_stopped H cfg.toSchedulerConfig
        (ha.finished hstop)
      have hres := hC.2 (ha.resumable (hs.resumable hgo))
      refine .of_idle hb (hs.placeholders.trans (h.apply hret hlate ha fun hnil hst ↦ ?_)) hs.status.1
      rw [applyOutput_kept ((hflag hnil).trans hst) happ, hres]
  | late hret hfin | finish hgoing hfin => exact absurd hgo (by simp [hfin])
  | @outputInvalid r s l n hrun hle =>
    obtain ⟨-, hchunk, hhead⟩ := hC
    refine ⟨hb, ?_, fun _ hc ↦ ?_⟩
    · have howed : s.owed = 0 := by simp [Step.owed, hhead s rfl]
      rw [owed_outdate]
      exact hcount.trans (by rw [owed_cons, howed, Nat.zero_add])
    · rw [show r.isPrefillChunk = true from hchunk] at hc
      cases hc
  | @invalidBlocks r l n hst hle =>
    refine ⟨hb, ?_, fun hrun hc ↦ ?_⟩
    · exact hcount.trans (owed_outdate l).symm
    · rw [show r.isPrefillChunk = true from hC.2 hrun] at hc
      cases hc
  | drafts hsync =>
    rw [hasync] at hsync
    cases hsync
  | queued => exact ⟨hb, hcount, h.decode⟩
  | session =>
    refine .of_idle hb hcount ?_
    simp [updateRequestAsSession, SchedRequest.updateRequestAsSession]
  | sessionEnd => cases hgo
  | loadRemote | grammarReady => exact .of_idle hb hcount (by simp)
  | @remoteLoaded r l failed hst =>
    refine .of_idle hb hcount ?_
    change (if 0 < r.numPreemptions then RequestStatus.preempted else .waiting) ≠ .running
    split <;> simp

theorem RunOf.exact {C} (hasync : cfg.asyncScheduling = true)
    (hC : ∀ {st op}, C st op → Unhurried H cfg st op) (h : RunOf H cfg C st)
    (hgo : st.request.status.isFinished = false) : Exact st := by
  induction h with
  | new h => exact h.exact
  | @step st st' op h hop hrun ih =>
    cases hfin : st.request.status.isFinished with
    | true =>
      rw [(ReqOp.move hrun).finished hfin] at hgo
      cases hgo
    | false => exact (ih hfin).move hasync (hC hop) (ReqOp.move hrun) hgo

theorem placeholders_count_outputs_in_flight (hasync : cfg.asyncScheduling = true)
    (h : RunOf H cfg Undisturbed st) (hgo : st.request.status.isFinished = false) :
    (st.inFlight = [] → st.request.numOutputPlaceholders = 0) ∧
    (st.request.status = .running → st.request.isPrefillChunk = false →
      st.request.numComputedTokens + 1 = st.request.numTokens + st.request.numOutputPlaceholders) ∧
    ∀ b r' s, st.request.scheduleRunning cfg b = some (r', s) → r'.numComputedTokens ≤
        st.request.numTokens + owed st.inFlight + st.request.specTokenIds.length := by
  have he := h.exact hasync Undisturbed.unhurried hgo
  refine ⟨fun hnil ↦ ?_, he.decode, fun b r' s hs ↦ ?_⟩
  · rw [he.count, hnil, owed_nil]
  · rw [← he.count]
    exact (scheduleRunning_scheduled hasync hs).2.2

def connectorConfig : EngineConfig where
  blockSize := 16
  maxModelLen := 100
  asyncScheduling := true

def twentyTokens : EngineRequest where
  requestId := "a"
  allTokenIds := range 20
  promptTokenIds := range 20
  numPromptTokens := 20
  maxTokens := 10

/-- The connector loads the first block and reports it as invalid with the first output, which is
therefore skipped. The next step gets 21 tokens. -/
theorem placeholder_outlives_skipped_output :
    twentyTokens.Fresh ∧ ∃ st r' s, ReqOp.runAll tokenHashing connectorConfig
        [.scheduleWaiting ⟨100, none⟩ 16, .outputInvalid 0] ⟨twentyTokens, []⟩ = .ok st ∧
      st.inFlight = [] ∧ st.request.numOutputPlaceholders = 1 ∧
      st.request.scheduleRunning connectorConfig ⟨100, none⟩ = some (r', s) ∧
      r'.numComputedTokens = 21 ∧ st.request.numTokens + st.request.specTokenIds.length = 20 :=
  ⟨by unfold EngineRequest.Fresh; decide, _, _, _, rfl, rfl, rfl, rfl, rfl, rfl⟩

instance (st : RequestState) (op : ReqOp) : Decidable (Undisturbed st op) :=
  match op with
  | .output .. | .invalidBlocks _ => inferInstanceAs (Decidable (_ ∧ (_ → _)))
  | .outputInvalid _ =>
    inferInstanceAs (Decidable (_ ∧ _ ∧ ∀ s ∈ st.inFlight.head?, s.isPrefillChunk = true))
  | .scheduleRunning _ | .scheduleWaiting .. | .preempt | .forcePreempt | .drafts _
  | .streamingUpdate _ | .loadRemote _ | .remoteLoaded _ | .grammarReady | .finish _ =>
    inferInstanceAs (Decidable (_ ∧ True))

/-- Two steps in flight, the first with a prompt and the second with its first output token. -/
theorem placeholders_count_two_outputs : ∃ st, runGuarded tokenHashing asyncConfig Undisturbed
        [.scheduleWaiting ⟨100, none⟩ 0, .scheduleRunning ⟨100, none⟩] ⟨twoTokens, []⟩ = .ok st ∧
      st.inFlight.length = 2 ∧
      st.request.numComputedTokens + 1 = st.request.numTokens + st.request.numOutputPlaceholders := by
  obtain ⟨st, hrun, hlen, hgo, hst, hchunk⟩ : ∃ st, runGuarded tokenHashing asyncConfig Undisturbed
        [.scheduleWaiting ⟨100, none⟩ 0, .scheduleRunning ⟨100, none⟩] ⟨twoTokens, []⟩ = .ok st ∧
      st.inFlight.length = 2 ∧ st.request.status.isFinished = false ∧ st.request.status = .running ∧
      st.request.isPrefillChunk = false := ⟨_, rfl, rfl, rfl, rfl, rfl⟩
  have h := RunOf.runGuarded (.new twoTokens_fresh) hrun
  exact ⟨st, hrun, hlen, (placeholders_count_outputs_in_flight rfl h hgo).2.1 hst hchunk⟩

end VllmEngine.Sched

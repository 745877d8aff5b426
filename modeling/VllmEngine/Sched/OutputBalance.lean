import VllmEngine.Sched.StepSpecs

namespace VllmEngine.Sched

open VllmEngine.Core EngineRequest List

variable {H : Hashing} {cfg : EngineConfig} {st st' : RequestState} {r r' : EngineRequest} {s : Step}
  {rest : List Step} {generated : List ℕ}

def sampling (steps : List Step) : ℕ := steps.countP fun s ↦ !s.isPrefillChunk

def unwanted (steps : List Step) : ℕ := steps.countP fun s ↦ s.stale && !s.isPrefillChunk

def current (steps : List Step) : ℕ :=
  (steps.map fun s ↦ if s.outdated = true then 0 else s.numScheduledTokens).sum

variable {steps : List Step}

theorem current_eq_zero (h : ∀ s ∈ steps, s.outdated = true) : current steps = 0 := by
  induction steps with
  | nil => rfl
  | cons s steps ih =>
    have htail := ih fun s hs ↦ h s (mem_cons_of_mem _ hs)
    simp only [current, map_cons, sum_cons, h s mem_cons_self, if_true] at htail ⊢
    omega

theorem owed_eq_zero (h : ∀ s ∈ steps, s.owed = 0) : owed steps = 0 := by
  induction steps with
  | nil => rfl
  | cons s steps ih =>
    rw [owed_cons, h s mem_cons_self, ih fun s hs ↦ h s (mem_cons_of_mem _ hs)]

structure Step.Valid (s : Step) : Prop where
  pos : 0 < s.numScheduledTokens
  drafts : s.specTokenIds.length ≤ s.numScheduledTokens
  outdated : s.stale = true → s.outdated = true

theorem Step.Valid.outdate (h : s.Valid) : s.outdate.Valid := ⟨h.pos, h.drafts, fun _ ↦ rfl⟩

theorem Step.Valid.disown (h : s.Valid) : s.disown.Valid := ⟨h.pos, h.drafts, fun _ ↦ rfl⟩

/-- The counters of the request cover the steps in flight, and the flag tells whether an output has
to be discarded. -/
structure Balanced (st : RequestState) : Prop where
  placeholders : owed st.inFlight ≤ st.request.numOutputPlaceholders
  discard : unwanted st.inFlight = st.request.discardLatestAsyncTokens.toNat
  order : st.inFlight.Pairwise fun s s' ↦ s'.stale = true → s.stale = true
  computed : current st.inFlight ≤ st.request.numComputedTokens
  valid : ∀ s ∈ st.inFlight, s.Valid
  bound : st.request.numComputedTokens ≤ st.request.numTokens + st.request.numOutputPlaceholders
  remote : st.request.status = .waitingForRemoteKvs → ∀ s ∈ st.inFlight, s.outdated = true

theorem EngineRequest.Fresh.balanced (h : r.Fresh) : Balanced ⟨r, []⟩ := by
  obtain ⟨-, hnc, -, -, hd, -⟩ := h
  refine ⟨Nat.zero_le _, ?_, .nil, Nat.zero_le _, by simp, ?_, by simp⟩
  · rw [hd]
    rfl
  · dsimp only
    omega

/-- No draft is rejected by the output of a step before a preemption, once the request has tokens
again. -/
def LateRejection (st : RequestState) (s : Step) (generated : List ℕ) : Prop :=
  s.outdated = true ∧ numRejected s generated ≠ 0 ∧
    (0 < st.request.numComputedTokens ∨ s.stale = true ∧ 0 < st.request.numOutputPlaceholders)

theorem rejected_in_time (h : ¬ LateRejection st s generated) (ho : s.outdated = true) :
    numRejected s generated = 0 ∨ st.request.numComputedTokens = 0 ∧
      (s.stale = true → st.request.numOutputPlaceholders = 0) := by
  by_contra hcon
  refine h ⟨ho, fun hzero ↦ hcon (.inl hzero), ?_⟩
  by_contra hnone
  simp only [not_or, not_and, pos_iff_ne_zero, not_not] at hnone
  exact hcon (.inr hnone)

/-- A reset finds one step in flight that brings tokens. Its output is not skipped for invalid
blocks, and no output of a step before a preemption rejects drafts too late. -/
def OneInFlight (st : RequestState) : ReqOp → Prop
  | .forcePreempt => sampling st.inFlight = 1
  | .output generated _ => ∀ s ∈ st.inFlight.head?, ¬ LateRejection st s generated
  | .outputInvalid _ => ∀ s ∈ st.inFlight.head?, s.stale = true → s.isPrefillChunk = true
  | _ => True

theorem numRejected_le (s) (generated) :
    numRejected s generated ≤ s.specTokenIds.length := by
  unfold numRejected
  split <;> omega

theorem numRejected_add_length (h : s.Returns generated) (hne : generated ≠ []) :
    numRejected s generated + generated.length = 1 + s.specTokenIds.length := by
  have hpos := length_pos_iff.mpr hne
  have hle := h.2
  unfold numRejected
  split
  next => omega
  next hspec =>
    have : s.specTokenIds = [] := by simpa [hne] using hspec
    simp only [this, length_nil] at hle ⊢
    omega

theorem Balanced.head_stale (h : Balanced st) (hin : st.inFlight = s :: rest)
    (hchunk : s.isPrefillChunk = false) : st.request.discardLatestAsyncTokens = s.stale := by
  have hd := h.discard
  have horder := h.order
  rw [hin] at hd horder
  cases hs : s.stale with
  | true =>
    simp only [unwanted, countP_cons, hs, hchunk, Bool.not_false, Bool.and_self, if_true] at hd
    cases hf : st.request.discardLatestAsyncTokens with
    | true => rfl
    | false => simp [hf] at hd
  | false =>
    have hrest : ∀ s' ∈ rest, s'.stale = false := by
      intro s' hs'
      have := (pairwise_cons.mp horder).1 s' hs'
      simpa [hs] using this
    have hzero : unwanted (s :: rest) = 0 := by
      refine countP_eq_zero.mpr fun s' hs' ↦ ?_
      rcases mem_cons.mp hs' with rfl | hs'
      · simp [hs]
      · simp [hrest s' hs']
    rw [hzero] at hd
    cases hf : st.request.discardLatestAsyncTokens with
    | true => simp [hf] at hd
    | false => rfl

theorem owed_of_samples (hchunk : s.isPrefillChunk = false) (hstale : s.stale = false) :
    s.owed = 1 + s.specTokenIds.length := by
  simp [Step.owed, hchunk, hstale]

theorem Balanced.covered (h : Balanced st) (hin : st.inFlight = s :: rest)
    (hret : s.Returns generated) (hlate : ¬ LateRejection st s generated) :
    Backed s generated st.request := by
  have hvalid := h.valid s (by simp [hin])
  have hrej := numRejected_le s generated
  by_cases hnil : generated = []
  · have hzero : numRejected s generated = 0 := by simp [numRejected, hnil]
    rw [hnil] at hzero ⊢
    refine ⟨fun _ ↦ by omega, fun _ ↦ by omega, fun _ ↦ by simp [hzero]⟩
  have hchunk : s.isPrefillChunk = false := by simpa [hnil] using hret.1
  have hflag := h.head_stale hin hchunk
  have hsum := numRejected_add_length hret hnil
  have hph := h.placeholders
  have hnc := h.computed
  simp only [hin, owed_cons] at hph
  simp only [hin, current, map_cons, sum_cons] at hnc
  refine ⟨fun hpos ↦ ?_, fun hpos ↦ ?_, fun hd ↦ ?_⟩
  · cases ho : s.outdated with
    | true =>
      rcases rejected_in_time hlate ho with hzero | ⟨hzero, -⟩ <;> omega
    | false =>
      have := hvalid.drafts
      simp [ho] at hnc
      omega
  · cases hs : s.stale with
    | true =>
      have := rejected_in_time hlate (hvalid.outdated hs)
      simp only [hs, true_implies] at this
      omega
    | false =>
      rw [owed_of_samples hchunk hs] at hph
      omega
  · rw [hflag] at hd
    rw [owed_of_samples hchunk hd] at hph
    omega

section

variable {steps : List Step}

section

variable (h : Balanced ⟨r, steps⟩)

include h

theorem Balanced.recount (hph : r'.numOutputPlaceholders = r.numOutputPlaceholders)
    (hd : r'.discardLatestAsyncTokens = r.discardLatestAsyncTokens)
    (hnc : current steps ≤ r'.numComputedTokens)
    (hbound : r'.numComputedTokens ≤ r'.numTokens + r'.numOutputPlaceholders)
    (hremote : r'.status = .waitingForRemoteKvs → ∀ s ∈ steps, s.outdated = true) :
    Balanced ⟨r', steps⟩ where
  placeholders := h.placeholders.trans hph.ge
  discard := h.discard.trans (congrArg _ hd.symm)
  order := h.order
  computed := hnc
  valid := h.valid
  bound := hbound
  remote := hremote

theorem Balanced.schedule {start} (hs : Scheduled start r r' s)
    (hcurrent : current steps ≤ start) (hstart : start ≤ r.numTokens + r.numOutputPlaceholders) :
    Balanced ⟨r', steps ++ [s]⟩ := by
  refine ⟨?_, ?_, ?_, ?_, ?_, hs.bound, fun hstatus ↦ ?_⟩
  · have := h.placeholders
    have := hs.placeholders
    simp only [owed_append, owed_cons, owed_nil]
    dsimp only at *
    omega
  · have := h.discard
    simp only [unwanted, countP_append, countP_singleton, hs.current.2] at this ⊢
    rw [hs.discard]
    simpa using this
  · refine pairwise_append.mpr ⟨h.order, pairwise_singleton _ _, fun a _ b hb hst ↦ ?_⟩
    obtain rfl := mem_singleton.mp hb
    rw [hs.current.2] at hst
    cases hst
  · have hsum : current (steps ++ [s]) = current steps + s.numScheduledTokens := by
      simp [current, hs.current.1]
    rw [hsum, hs.computed]
    omega
  · intro a ha
    rcases mem_append.mp ha with ha | ha
    · exact h.valid a ha
    obtain rfl := mem_singleton.mp ha
    refine ⟨hs.pos, hs.drafts hstart, fun hst ↦ ?_⟩
    rw [hs.current.2] at hst
    cases hst
  · rw [hs.status] at hstatus
    cases hstatus

theorem Balanced.outdate (hph : r'.numOutputPlaceholders = r.numOutputPlaceholders)
    (hd : r'.discardLatestAsyncTokens = r.discardLatestAsyncTokens)
    (hbound : r'.numComputedTokens ≤ r'.numTokens + r'.numOutputPlaceholders) :
    Balanced ⟨r', steps.map Step.outdate⟩ := by
  have hold : ∀ s ∈ steps.map Step.outdate, s.outdated = true := by
    intro s hs
    obtain ⟨a, -, rfl⟩ := mem_map.mp hs
    rfl
  refine ⟨?_, ?_, ?_, ?_, ?_, hbound, fun _ ↦ hold⟩
  · have hsame := owed_outdate steps
    exact hsame.trans_le (h.placeholders.trans hph.ge)
  · have hsame : unwanted (steps.map Step.outdate) = unwanted steps := countP_map
    exact hsame.trans (h.discard.trans (congrArg _ hd.symm))
  · exact pairwise_map.mpr h.order
  · rw [current_eq_zero hold]
    exact Nat.zero_le _
  · intro s hs
    obtain ⟨a, ha, rfl⟩ := mem_map.mp hs
    exact (h.valid a ha).outdate

theorem Balanced.disown (hone : sampling steps = 1) (hd : r'.discardLatestAsyncTokens = true)
    (hbound : r'.numComputedTokens ≤ r'.numTokens + r'.numOutputPlaceholders) :
    Balanced ⟨r', steps.map Step.disown⟩ := by
  have hstale : ∀ s ∈ steps.map Step.disown, s.stale = true := by
    intro s hs
    obtain ⟨a, -, rfl⟩ := mem_map.mp hs
    rfl
  have hvalid : ∀ s ∈ steps.map Step.disown, s.Valid := by
    intro s hs
    obtain ⟨a, ha, rfl⟩ := mem_map.mp hs
    exact (h.valid a ha).disown
  have hold : ∀ s ∈ steps.map Step.disown, s.outdated = true :=
    fun s hs ↦ (hvalid s hs).outdated (hstale s hs)
  refine ⟨?_, ?_, ?_, ?_, hvalid, hbound, fun _ ↦ hold⟩
  · rw [owed_eq_zero fun s hs ↦ by simp [Step.owed, hstale s hs]]
    exact Nat.zero_le _
  · have hcount : unwanted (steps.map Step.disown) = sampling steps := by
      rw [unwanted, countP_map]
      rfl
    rw [hcount, hone, hd]
    rfl
  · exact pairwise_of_forall_mem_list fun a ha _ _ _ ↦ hstale a ha
  · rw [current_eq_zero hold]
    exact Nat.zero_le _

end

theorem Balanced.skip (h : Balanced ⟨r, s :: rest⟩) (hs : s.stale = true → s.isPrefillChunk = true) :
    Balanced ⟨r, rest⟩ := by
  have hph := h.placeholders
  have hnc := h.computed
  have hd := h.discard
  refine ⟨?_, ?_, (pairwise_cons.mp h.order).2, ?_,
    fun a ha ↦ h.valid a (mem_cons_of_mem _ ha), h.bound,
    fun hst a ha ↦ h.remote hst a (mem_cons_of_mem _ ha)⟩
  · exact (Nat.le_add_left _ _).trans hph
  · rw [← hd, unwanted, unwanted, countP_cons_of_neg]
    simpa using hs
  · simp only [current, map_cons, sum_cons] at hnc ⊢
    omega

theorem Balanced.apply (h : Balanced ⟨r, s :: rest⟩) (hret : s.Returns generated)
    (hlate : ¬ LateRejection ⟨r, s :: rest⟩ s generated) {kept stopped}
    (ha : Applied s generated r r' kept stopped) : Balanced ⟨r', rest⟩ := by
  have hc := h.covered rfl hret hlate
  have hvalid := h.valid s mem_cons_self
  have hrej := numRejected_le s generated
  have hph := h.placeholders
  have hnc := h.computed
  have hd := h.discard
  have hbound := h.bound
  have hkept := ha.placeholders
  have hle := ha.initial.length_le
  have hpl := ha.computed
  have hnum := ha.numTokens
  simp only [owed_cons] at hph
  simp only [current, map_cons, sum_cons] at hnc
  dsimp only at *
  refine ⟨?_, ?_, (pairwise_cons.mp h.order).2, ?_,
    fun a ha ↦ h.valid a (mem_cons_of_mem _ ha), ?_, fun hst a hm ↦ ?_⟩
  · by_cases hnil : generated = []
    · have hzero : numRejected s generated = 0 := by simp [numRejected, hnil]
      rw [hnil, length_nil] at hle
      dsimp only
      omega
    have hchunk : s.isPrefillChunk = false := by simpa [hnil] using hret.1
    have hsum := numRejected_add_length hret hnil
    cases hs : s.stale with
    | true =>
      have hflag := (h.head_stale rfl hchunk).trans hs
      rw [(ha.discarded hnil hflag).2.1, length_nil] at hkept
      have hlate := rejected_in_time hlate (hvalid.outdated hs)
      simp only [hs, true_implies] at hlate
      dsimp only
      omega
    | false =>
      rw [owed_of_samples hchunk hs] at hph
      dsimp only
      omega
  · rw [unwanted, countP_cons] at hd
    by_cases hnil : generated = []
    · have hchunk : s.isPrefillChunk = true := hret.1.mp hnil
      rw [ha.silent hnil, ← hd, hchunk]
      simp [unwanted]
    have hchunk : s.isPrefillChunk = false := by simpa [hnil] using hret.1
    have hflag := h.head_stale rfl hchunk
    rw [hflag] at hd
    cases hs : s.stale with
    | true =>
      rw [(ha.discarded hnil (hflag.trans hs)).1]
      simp only [hs, hchunk, Bool.not_false, Bool.and_self, if_true, Bool.toNat_true] at hd
      rw [unwanted, Bool.toNat_false]
      dsimp only
      omega
    | false =>
      rw [(ha.accepted hnil (hflag.trans hs)).1]
      simpa [unwanted, hs] using hd
  · have hdrafts := hvalid.drafts
    cases ho : s.outdated with
    | true =>
      rw [if_pos ho] at hnc
      dsimp only [current]
      rcases rejected_in_time hlate ho with hzero | ⟨hzero, -⟩
      · omega
      · dsimp only at hzero
        omega
    | false =>
      rw [if_neg (by simp [ho])] at hnc
      dsimp only [current]
      omega
  · dsimp only
    omega
  · cases hstop : stopped with
    | false =>
      rw [(ha.going hstop).1] at hst
      exact h.remote hst a (mem_cons_of_mem _ hm)
    | true =>
      have hfin := ha.finished hstop
      rw [hst] at hfin
      cases hfin

theorem Balanced.stop (h : Balanced ⟨r, steps⟩) (hfin : r.status.isFinished = true) :
    Balanced ⟨r.handleStoppedRequest H cfg, steps⟩ := by
  have hs := SchedRequest.handleStoppedRequest_stopped H cfg.toSchedulerConfig hfin
  have hbound := h.bound
  have hnc := hs.computed
  have hph := hs.placeholders
  have hnum := hs.numTokens
  refine h.recount hph rfl (h.computed.trans hnc.ge) ?_ fun hst ↦ absurd hst hs.status.2
  change (SchedRequest.handleStoppedRequest H cfg.toSchedulerConfig r.toSchedRequest).1.numComputedTokens ≤
    (SchedRequest.handleStoppedRequest H cfg.toSchedulerConfig r.toSchedRequest).1.numTokens +
      (SchedRequest.handleStoppedRequest H cfg.toSchedulerConfig r.toSchedRequest).1.numOutputPlaceholders
  dsimp only at hbound
  omega

theorem Balanced.session (h : Balanced ⟨r, steps⟩) (update) :
    Balanced ⟨r.updateRequestAsSession H cfg update, steps⟩ := by
  have hnum := SchedRequest.updateRequestAsSession_numTokens H cfg.toSchedulerConfig
    r.toSchedRequest update
  have hbound := h.bound
  refine h.recount rfl rfl h.computed ?_ fun hst ↦ ?_
  · change r.numComputedTokens ≤ (SchedRequest.updateRequestAsSession H cfg.toSchedulerConfig
      r.toSchedRequest update).numTokens + r.numOutputPlaceholders
    dsimp only at hbound
    omega
  · cases hst

end

theorem Move.finished {op} (hmove : Move H cfg st op st')
    (hfin : st.request.status.isFinished = true) : st'.request.status.isFinished = true := by
  have hne {status : RequestStatus} (hs : status.isFinished = false)
      (he : st.request.status = status) : False := by
    rw [he, hs] at hfin
    cases hfin
  cases hmove with
  | running h =>
    unfold scheduleRunning at h
    dsimp only at h
    split at h
    next hc => exact (hne rfl hc.1).elim
    next => cases h
  | waiting h =>
    unfold scheduleWaiting at h
    dsimp only at h
    split at h
    · cases h
    · split at h
      next hc => exact (hc.1.elim (hne rfl) (hne rfl)).elim
      next => cases h
  | preempt h | forcePreempt h | session h | sessionEnd h | remoteLoaded h | grammarReady h =>
    exact (hne rfl h).elim
  | output hret hgoing h | queued hgoing =>
    exact (hne hgoing rfl).elim
  | late => exact hfin
  | outputInvalid hrun hle => exact (hne rfl hrun).elim
  | invalidBlocks hst hle | loadRemote hst hzero hle => exact (hst.elim (hne rfl) (hne rfl)).elim
  | drafts hsync =>
    rw [SchedRequest.updateDraftTokenIds, if_pos hfin]
    exact hfin
  | finish hgoing hdone => exact hdone

theorem outdated_of_current (hvalid : ∀ s ∈ steps, s.Valid)
    (h : current steps = 0) : ∀ s ∈ steps, s.outdated = true := by
  intro s hs
  by_contra ho
  have hzero := List.sum_eq_zero_iff_forall_eq_nat.mp h _ (List.mem_map.mpr ⟨s, hs, rfl⟩)
  rw [if_neg ho] at hzero
  exact absurd hzero (hvalid s hs).pos.ne'

theorem Balanced.move (hasync : cfg.asyncScheduling = true) {op} (h : Balanced st)
    (hC : OneInFlight st op) (hmove : Move H cfg st op st')
    (hgo : st'.request.status.isFinished = false) : Balanced st' := by
  cases hmove with
  | running hs =>
    obtain ⟨hs, -, -⟩ := scheduleRunning_scheduled hasync hs
    exact h.schedule hs h.computed h.bound
  | waiting hs =>
    obtain ⟨hs, -, hle⟩ := scheduleWaiting_scheduled hasync hs
    refine h.schedule hs (h.computed.trans ?_) (hle.trans (Nat.le_add_right _ _))
    unfold startTokens
    split
    next hzero => exact hzero.trans_le (Nat.zero_le _)
    next => exact le_rfl
  | preempt => exact h.outdate rfl rfl (Nat.zero_le _)
  | forcePreempt => exact h.disown hC rfl (Nat.zero_le _)
  | @output r s l generated ga out hret hgoing happ =>
    have hlate : ¬ LateRejection ⟨r, s :: l⟩ s generated := hC s rfl
    obtain ⟨out', hout, ha⟩ := applyOutput_applied hasync (h.covered rfl hret hlate) ga
    obtain rfl := Except.ok.inj (happ.symm.trans hout)
    have hb := h.apply hret hlate ha
    split
    next hstop => exact hb.stop (ha.finished hstop)
    next => exact hb
  | late hret hfin => exact absurd hgo (by simp [hfin])
  | @outputInvalid r s l n hrun hle =>
    refine (h.skip (hC s rfl)).outdate rfl rfl ?_
    exact (show n ≤ r.numComputedTokens by omega).trans h.bound
  | @invalidBlocks r l n hst hle =>
    exact h.outdate rfl rfl (hle.trans h.bound)
  | drafts hsync =>
    rw [hasync] at hsync
    cases hsync
  | queued => exact h.recount rfl rfl h.computed h.bound h.remote
  | session => exact h.session _
  | sessionEnd | grammarReady => exact h.recount rfl rfl h.computed h.bound (fun hst ↦ by cases hst)
  | @loadRemote r l n hst hzero hle =>
    have hcurrent : current l = 0 := Nat.le_zero.mp (h.computed.trans hzero.le)
    refine h.recount rfl rfl (hcurrent.trans_le (Nat.zero_le _)) ?_ fun _ ↦ ?_
    · exact hle.trans (Nat.le_add_right _ _)
    · exact outdated_of_current h.valid hcurrent
  | @remoteLoaded r l failed hst =>
    have hcurrent : current l = 0 := current_eq_zero (h.remote hst)
    refine h.recount rfl rfl (hcurrent.trans_le (Nat.zero_le _)) ?_ fun hst' ↦ ?_
    · have hbound := h.bound
      change (if failed = false ∧ r.numComputedTokens = r.numTokens then r.numTokens - 1
        else r.numComputedTokens) ≤ r.numTokens + r.numOutputPlaceholders
      split <;> omega
    · exact h.remote hst
  | finish hgoing hfin => exact absurd hgo (by simp [hfin])

end VllmEngine.Sched

import VllmEngine.Sched.EngineRequest

namespace VllmEngine.Sched

open VllmEngine.Core Except Step

/-- A request between two actions of the scheduler, with its steps in flight. -/
structure RequestState where
  request : EngineRequest
  inFlight : List Step := []
  deriving DecidableEq

/-- The actions of the scheduler on a request, with what the rest of the engine contributes. Numbers
of computed tokens are those that the KV connector or its report leaves. -/
inductive ReqOp
  | scheduleRunning (b : Budget)
  | scheduleWaiting (b : Budget) (hits : ℕ)
  | preempt
  | forcePreempt
  | output (generated : List ℕ) (grammarAccepts : Bool)
  | outputInvalid (numComputedTokens : ℕ)
  | invalidBlocks (numComputedTokens : ℕ)
  | drafts (specTokenIds : List ℤ)
  | streamingUpdate (update : Option StreamingUpdate)
  | loadRemote (numComputedTokens : ℕ)
  | remoteLoaded (failed : Bool)
  | grammarReady
  | finish (status : RequestStatus)

def Step.outdate (s : Step) : Step := { s with outdated := true }

def Step.disown (s : Step) : Step := { s with outdated := true, stale := true }

/-- What the model runner returns for a step: nothing for a prompt that goes on, else one token more
than the accepted drafts. -/
def Step.Returns (s : Step) (generated : List ℕ) : Prop :=
  (generated = [] ↔ s.isPrefillChunk = true) ∧ generated.length ≤ s.specTokenIds.length + 1

instance (s : Step) (generated : List ℕ) : Decidable (s.Returns generated) := by
  unfold Step.Returns
  infer_instance

namespace ReqOp

variable (H : Hashing) (cfg : EngineConfig)

def run (st : RequestState) : ReqOp → Except Fault RequestState
  | .scheduleRunning b =>
    match st.request.scheduleRunning cfg b with
    | none => .error .disabled
    | some (r, s) => .ok ⟨r, st.inFlight ++ [s]⟩
  | .scheduleWaiting b hits =>
    match st.request.scheduleWaiting cfg b hits with
    | none => .error .disabled
    | some (r, s) => .ok ⟨r, st.inFlight ++ [s]⟩
  | .preempt =>
    if st.request.status = .running then
      .ok ⟨st.request.preemptRequest, st.inFlight.map outdate⟩
    else .error .disabled
  | .forcePreempt =>
    if st.request.status = .running then
      .ok ⟨st.request.forcePreempt, st.inFlight.map disown⟩
    else .error .disabled
  | .output generated grammarAccepts =>
    match st.inFlight with
    | [] => .error .disabled
    | s :: rest =>
      if s.Returns generated then do
        let r ← st.request.updateFromOutput H cfg s generated grammarAccepts
        pure ⟨r, rest⟩
      else .error .disabled
  | .outputInvalid numComputedTokens =>
    -- `_handle_invalid_blocks`, after which the loop of `update_from_output` skips the request
    match st.inFlight with
    | [] => .error .disabled
    | s :: rest =>
      if st.request.status = .running ∧
          numComputedTokens + s.numScheduledTokens ≤ st.request.numComputedTokens then
        .ok ⟨{ st.request with numComputedTokens }, rest.map outdate⟩
      else .error .disabled
  | .invalidBlocks numComputedTokens =>
    if (st.request.status = .running ∨ st.request.status = .waitingForRemoteKvs) ∧
        numComputedTokens ≤ st.request.numComputedTokens then
      .ok ⟨{ st.request with numComputedTokens }, st.inFlight.map outdate⟩
    else .error .disabled
  | .drafts specTokenIds =>
    -- with asynchronous scheduling the drafts go straight into the scheduler output
    if cfg.asyncScheduling = false then
      .ok { st with request := { st.request with
        toSchedRequest := st.request.toSchedRequest.updateDraftTokenIds specTokenIds } }
    else .error .disabled
  | .streamingUpdate update =>
    if st.request.status.isFinished then .error .disabled
    else if st.request.status ≠ .waitingForStreamingReq then
      -- `assert existing.streaming_queue is not None`
      match st.request.streamingQueue with
      | none => .error .disabled
      | some queue =>
        .ok { st with request := { st.request with streamingQueue := some (queue ++ [update]) } }
    else
      match update with
      | some update =>
        .ok { st with request := st.request.updateRequestAsSession H cfg update }
      | none => .ok { st with request := { st.request with status := .finishedAborted } }
  | .loadRemote numComputedTokens =>
    if (st.request.status = .waiting ∨ st.request.status = .preempted) ∧
        st.request.numComputedTokens = 0 ∧ numComputedTokens ≤ st.request.numTokens then
      .ok { st with request := { st.request with status := .waitingForRemoteKvs, numComputedTokens } }
    else .error .disabled
  | .remoteLoaded failed =>
    if st.request.status = .waitingForRemoteKvs then
      .ok { st with request := st.request.remoteLoaded failed }
    else .error .disabled
  | .grammarReady =>
    if st.request.status = .waitingForStructuredOutputGrammar then
      .ok { st with request := { st.request with status := .waiting } }
    else .error .disabled
  | .finish status =>
    if st.request.status.isFinished = false ∧ status.isFinished = true then
      .ok { st with request := { st.request with status } }
    else .error .disabled

def runAll : List ReqOp → RequestState → Except Fault RequestState
  | [], st => .ok st
  | op :: ops, st =>
    match op.run H cfg st with
    | .error e => .error e
    | .ok st' => runAll ops st'

end ReqOp

inductive Move (H : Hashing) (cfg : EngineConfig) : RequestState → ReqOp → RequestState → Prop
  | running {r r' s l b}
      (h : r.scheduleRunning cfg b = some (r', s)) :
      Move H cfg ⟨r, l⟩ (.scheduleRunning b) ⟨r', l ++ [s]⟩
  | waiting {r r' s l b hits}
      (h : r.scheduleWaiting cfg b hits = some (r', s)) :
      Move H cfg ⟨r, l⟩ (.scheduleWaiting b hits) ⟨r', l ++ [s]⟩
  | preempt {r l} (h : r.status = .running) :
      Move H cfg ⟨r, l⟩ .preempt ⟨r.preemptRequest, l.map outdate⟩
  | forcePreempt {r l} (h : r.status = .running) :
      Move H cfg ⟨r, l⟩ .forcePreempt ⟨r.forcePreempt, l.map disown⟩
  | output {r s l generated grammarAccepts out} (hret : s.Returns generated)
      (hgoing : r.status.isFinished = false)
      (h : r.applyOutput H cfg s generated grammarAccepts = .ok out) :
      Move H cfg ⟨r, s :: l⟩ (.output generated grammarAccepts)
        ⟨if out.2.2 then out.1.handleStoppedRequest H cfg else out.1, l⟩
  | late {r s l generated grammarAccepts}
      (hret : s.Returns generated) (hfin : r.status.isFinished = true) :
      Move H cfg ⟨r, s :: l⟩ (.output generated grammarAccepts) ⟨r, l⟩
  | outputInvalid {r s l numComputedTokens}
      (hrun : r.status = .running) (hle : numComputedTokens + s.numScheduledTokens ≤ r.numComputedTokens) :
      Move H cfg ⟨r, s :: l⟩ (.outputInvalid numComputedTokens)
        ⟨{ r with numComputedTokens }, l.map outdate⟩
  | invalidBlocks {r l numComputedTokens}
      (hst : r.status = .running ∨ r.status = .waitingForRemoteKvs)
      (hle : numComputedTokens ≤ r.numComputedTokens) :
      Move H cfg ⟨r, l⟩ (.invalidBlocks numComputedTokens)
        ⟨{ r with numComputedTokens }, l.map outdate⟩
  | drafts {r l specTokenIds}
      (hsync : cfg.asyncScheduling = false) :
      Move H cfg ⟨r, l⟩ (.drafts specTokenIds)
        ⟨{ r with toSchedRequest := r.toSchedRequest.updateDraftTokenIds specTokenIds }, l⟩
  | queued {r l update queue} (hgoing : r.status.isFinished = false) :
      Move H cfg ⟨r, l⟩ (.streamingUpdate update) ⟨{ r with streamingQueue := some queue }, l⟩
  | session {r l update}
      (hst : r.status = .waitingForStreamingReq) :
      Move H cfg ⟨r, l⟩ (.streamingUpdate (some update)) ⟨r.updateRequestAsSession H cfg update, l⟩
  | sessionEnd {r l} (hst : r.status = .waitingForStreamingReq) :
      Move H cfg ⟨r, l⟩ (.streamingUpdate none) ⟨{ r with status := .finishedAborted }, l⟩
  | loadRemote {r l numComputedTokens}
      (hst : r.status = .waiting ∨ r.status = .preempted) (hzero : r.numComputedTokens = 0)
      (hle : numComputedTokens ≤ r.numTokens) :
      Move H cfg ⟨r, l⟩ (.loadRemote numComputedTokens)
        ⟨{ r with status := .waitingForRemoteKvs, numComputedTokens }, l⟩
  | remoteLoaded {r l failed}
      (hst : r.status = .waitingForRemoteKvs) :
      Move H cfg ⟨r, l⟩ (.remoteLoaded failed) ⟨r.remoteLoaded failed, l⟩
  | grammarReady {r l}
      (hst : r.status = .waitingForStructuredOutputGrammar) :
      Move H cfg ⟨r, l⟩ .grammarReady ⟨{ r with status := .waiting }, l⟩
  | finish {r l status}
      (hgoing : r.status.isFinished = false) (hfin : status.isFinished = true) :
      Move H cfg ⟨r, l⟩ (.finish status) ⟨{ r with status }, l⟩

theorem ReqOp.move {H cfg st st' op} (hrun : op.run H cfg st = .ok st') : Move H cfg st op st' := by
  obtain ⟨r, l⟩ := st
  cases op with
  | scheduleRunning b =>
    simp only [ReqOp.run] at hrun
    split at hrun
    · cases hrun
    next h => obtain rfl := ok.inj hrun; exact .running h
  | scheduleWaiting b hits =>
    simp only [ReqOp.run] at hrun
    split at hrun
    · cases hrun
    next h => obtain rfl := ok.inj hrun; exact .waiting h
  | preempt =>
    simp only [ReqOp.run] at hrun
    split at hrun
    next h => obtain rfl := ok.inj hrun; exact .preempt h
    · cases hrun
  | forcePreempt =>
    simp only [ReqOp.run] at hrun
    split at hrun
    next h => obtain rfl := ok.inj hrun; exact .forcePreempt h
    · cases hrun
  | output generated grammarAccepts =>
    cases l with
    | nil => cases hrun
    | cons s l =>
      simp only [ReqOp.run] at hrun
      split at hrun
      next hret =>
        unfold EngineRequest.updateFromOutput at hrun
        cases hfin : r.status.isFinished with
        | true =>
          rw [if_pos hfin] at hrun
          cases hrun
          exact .late hret hfin
        | false =>
          rw [if_neg (by simp [hfin])] at hrun
          cases happ : r.applyOutput H cfg s generated grammarAccepts with
          | error e => rw [happ] at hrun; cases hrun
          | ok out =>
            rw [happ] at hrun
            cases hrun
            exact .output hret hfin happ
      next => cases hrun
  | outputInvalid numComputedTokens =>
    cases l with
    | nil => cases hrun
    | cons s l =>
      simp only [ReqOp.run] at hrun
      split at hrun
      next h => obtain rfl := ok.inj hrun; exact .outputInvalid h.1 h.2
      next => cases hrun
  | invalidBlocks numComputedTokens =>
    simp only [ReqOp.run] at hrun
    split at hrun
    next h => obtain rfl := ok.inj hrun; exact .invalidBlocks h.1 h.2
    next => cases hrun
  | drafts specTokenIds =>
    simp only [ReqOp.run] at hrun
    split at hrun
    next h => obtain rfl := ok.inj hrun; exact .drafts h
    next => cases hrun
  | streamingUpdate update =>
    simp only [ReqOp.run] at hrun
    split at hrun
    · cases hrun
    next hgoing =>
      split at hrun
      · split at hrun
        · cases hrun
        · cases hrun
          exact .queued (by simpa using hgoing)
      next hst =>
        have hst := not_not.mp hst
        split at hrun
        · cases hrun
          exact .session hst
        · cases hrun
          exact .sessionEnd hst
  | loadRemote numComputedTokens =>
    simp only [ReqOp.run] at hrun
    split at hrun
    next h => obtain rfl := ok.inj hrun; exact .loadRemote h.1 h.2.1 h.2.2
    next => cases hrun
  | remoteLoaded failed =>
    simp only [ReqOp.run] at hrun
    split at hrun
    next h => obtain rfl := ok.inj hrun; exact .remoteLoaded h
    next => cases hrun
  | grammarReady =>
    simp only [ReqOp.run] at hrun
    split at hrun
    next h => obtain rfl := ok.inj hrun; exact .grammarReady h
    next => cases hrun
  | finish status =>
    simp only [ReqOp.run] at hrun
    split at hrun
    next h => obtain rfl := ok.inj hrun; exact .finish h.1 h.2
    next => cases hrun

/-- A request as `add_request` gets it, for an id that is not in use. -/
def EngineRequest.Fresh (r : EngineRequest) : Prop :=
  (r.status = .waiting ∨ r.status = .waitingForStructuredOutputGrammar) ∧
    r.numComputedTokens = 0 ∧ r.numOutputPlaceholders = 0 ∧ r.specTokenIds = [] ∧
    r.discardLatestAsyncTokens = false ∧ r.numPreemptions = 0 ∧ 0 < r.numTokens

/-- The states that actions satisfying `C` lead to. -/
inductive RunOf (H : Hashing) (cfg : EngineConfig) (C : RequestState → ReqOp → Prop) :
    RequestState → Prop
  | new {r} (h : r.Fresh) : RunOf H cfg C ⟨r, []⟩
  | step {st st'} (op : ReqOp) (h : RunOf H cfg C st) (hC : C st op)
      (hrun : op.run H cfg st = .ok st') : RunOf H cfg C st'

def runGuarded (H : Hashing) (cfg : EngineConfig) (C : RequestState → ReqOp → Prop)
    [∀ st op, Decidable (C st op)] : List ReqOp → RequestState → Except Fault RequestState
  | [], st => .ok st
  | op :: ops, st =>
    if C st op then
      match op.run H cfg st with
      | .error e => .error e
      | .ok st' => runGuarded H cfg C ops st'
    else .error .disabled

theorem RunOf.runGuarded {H cfg C} [∀ st op, Decidable (C st op)] {ops st st'}
    (h : RunOf H cfg C st) (hrun : runGuarded H cfg C ops st = .ok st') : RunOf H cfg C st' := by
  induction ops generalizing st with
  | nil =>
    cases hrun
    exact h
  | cons op ops ih =>
    simp only [Sched.runGuarded] at hrun
    split at hrun
    next hC =>
      split at hrun
      · cases hrun
      next hop => exact ih (.step op h hC hop) hrun
    next => cases hrun

end VllmEngine.Sched
